import Bakopa.Syncer.Pair

/-!
# Bakopa.Syncer.RealWebrtc

`RealWebrtcTransport` of `syncer/src/webrtc_transport.rs`: two ends, joined by two data channels.

The webrtc crate is a carrier. A message put on a channel is on the way until it arrives at the
other end of the channel or is lost; messages overtake each other at will. One that arrives is
given to the handler registered there, and dropped where there is none. Of the audio track only
the packets that arrive are modelled.

The end that offers creates both channels and registers a handler on the ordered one; the end
that answers registers a handler on whatever is announced to it. `channels_deliver_iff` says what
follows: everything carried is received, except poses sent by the end that answers.
-/

namespace Bakopa
namespace Syncer

open Lib Lib.Machine BasicSyncer

/-- One end of a data channel; `onMessage` is the sender its handler reports. -/
structure RTCDataChannel where
  label : String
  onMessage : Option ParticipantId
deriving DecidableEq

structure ChannelMessage where
  label : String
  params : TransportSendParams
  data : List UInt8
deriving DecidableEq

/-- `onTheWay` is what the tasks spawned by `send` put on the channels, and has not arrived. -/
structure RealWebrtcTransport where
  me : ParticipantId
  peer : Option ParticipantId
  dataChannels : List (TransportSendParams × RTCDataChannel)
  pending : List TransportEvent
  createdParams : List TransportSendParams
  onTheWay : List ChannelMessage

namespace RealWebrtcTransport

def registerParticipant (t : RealWebrtcTransport) (_participant : ParticipantId) :
    RealWebrtcTransport := t

def send (t : RealWebrtcTransport) (target : ParticipantId) (payload : TransportPayload)
    (params : TransportSendParams) : RealWebrtcTransport :=
  match t.peer with
  | none => t
  | some peer =>
    if target ≠ peer ∧ target ≠ t.me then t
    else
      let t := { t with createdParams := t.createdParams ++ [params] }
      match payload with
      | .bytes data =>
        match t.dataChannels.find? (·.1 = params) with
        | some (_, dc) => { t with onTheWay := t.onTheWay ++ [⟨dc.label, params, data⟩] }
        | none => t
      -- a frame goes over the audio track
      | .audioFrame _ => t

def poll (t : RealWebrtcTransport) : RealWebrtcTransport × List TransportEvent :=
  ({ t with pending := [] }, t.pending)

instance : Transport RealWebrtcTransport where
  registerParticipant := registerParticipant
  send := send
  poll := poll

/-! ## What the peer connection calls back -/

def received (t : RealWebrtcTransport) (fromId : ParticipantId) (payload : TransportPayload) :
    RealWebrtcTransport :=
  { t with pending := t.pending ++ [.received fromId payload] }

/-- The sender that the handler at the end of a channel reports. -/
def handler (t : RealWebrtcTransport) (label : String) : Option ParticipantId :=
  (t.dataChannels.find? (·.2.label = label)).bind (·.2.onMessage)

def onMessage (t : RealWebrtcTransport) (label : String) (data : List UInt8) :
    RealWebrtcTransport :=
  match t.handler label with
  | some fromId => t.received fromId (.bytes data)
  | none => t

def onTrack (t : RealWebrtcTransport) (fromId : ParticipantId) (packet : List UInt8) :
    RealWebrtcTransport :=
  t.received fromId (.audioFrame packet)

/-- The connection failed, was cut or closed, or did not open in time. -/
def onFailure (t : RealWebrtcTransport) (peer : ParticipantId) : RealWebrtcTransport :=
  { t with pending := t.pending ++ [.failure peer] }

def gone (t : RealWebrtcTransport) (i : Nat) : RealWebrtcTransport :=
  { t with onTheWay := t.onTheWay.eraseIdx i }

/-- The end of `pc1`, that creates both channels. -/
def offering (a b : ParticipantId) : RealWebrtcTransport where
  me := a
  peer := some b
  dataChannels := [
    (.forStream .chat, ⟨"sutera-data", some b⟩),
    -- no `on_message` for `dc1_unordered`
    (.forStream .pose, ⟨"sutera-data-unordered", none⟩)]
  pending := []
  createdParams := []
  onTheWay := []

/-- The end of `pc2`, before any channel is announced to it. -/
def answering (a b : ParticipantId) : RealWebrtcTransport where
  me := b
  peer := some a
  dataChannels := []
  pending := []
  createdParams := []
  onTheWay := []

/-- `on_data_channel` of `pc2`. -/
def onDataChannel (a : ParticipantId) (t : RealWebrtcTransport) (label : String) :
    RealWebrtcTransport :=
  let params : TransportSendParams :=
    if label = "sutera-data-unordered" then .forStream .pose else .forStream .chat
  { t with dataChannels := t.dataChannels ++ [(params, ⟨label, some a⟩)] }

/-- Both ends, after the channels with these labels were announced. -/
def pairWithConfigAndApi (a b : ParticipantId) (announced : List String) :
    RealWebrtcTransport × RealWebrtcTransport :=
  (offering a b, announced.foldl (onDataChannel a) (answering a b))

/-- Both channels are open: each channel of the offering end was announced. -/
def BothOpen (announced : List String) : Prop :=
  announced.Perm ["sutera-data", "sutera-data-unordered"]

end RealWebrtcTransport

/-! ## The pair -/

namespace RealPair

/-- What happens to a pair. `carry x i` and `lose x i` are about the message of `x` that is the
`i`-th on the way. -/
inductive Happening where
  | send (x : Side) (target : ParticipantId) (payload : TransportPayload)
      (params : TransportSendParams)
  | poll (x : Side)
  | carry (x : Side) (i : Nat)
  | lose (x : Side) (i : Nat)
  | track (x : Side) (packet : List UInt8)
  | failure (x : Side)

inductive Outcome where
  | carried (x : Side) (m : ChannelMessage)
  | polled (x : Side) (events : List TransportEvent)

open RealWebrtcTransport

def step (ids : Side → ParticipantId) : Machine (Side → RealWebrtcTransport) Happening Outcome
  | p, .send x target payload params =>
    some (Function.update p x ((p x).send target payload params), [])
  | p, .poll x => some (Function.update p x (p x).poll.1, [.polled x (p x).poll.2])
  | p, .carry x i =>
    match (p x).onTheWay[i]? with
    | some m =>
      let p := Function.update p x ((p x).gone i)
      some (Function.update p x.other ((p x.other).onMessage m.label m.data), [.carried x m])
    | none => none
  | p, .lose x i =>
    if i < (p x).onTheWay.length then some (Function.update p x ((p x).gone i), []) else none
  | p, .track x packet => some (Function.update p x ((p x).onTrack (ids x.other) packet), [])
  | p, .failure x => some (Function.update p x ((p x).onFailure (ids x.other)), [])

def start (ids : Side → ParticipantId) (announced : List String) : Side → RealWebrtcTransport
  | .a => (pairWithConfigAndApi (ids .a) (ids .b) announced).1
  | .b => (pairWithConfigAndApi (ids .a) (ids .b) announced).2

def messages (events : List TransportEvent) : List TransportEvent :=
  events.filter fun
    | .received _ (.bytes _) => true
    | _ => false

def polledBy (x : Side) : Outcome → List TransportEvent
  | .polled y events => if y = x then events else []
  | .carried _ _ => []

/-- What the channels carried to `x`, as it is to be reported. -/
def carriedTo (ids : Side → ParticipantId) (x : Side) : Outcome → List TransportEvent
  | .carried y m => if y = x.other then [.received (ids y) (.bytes m.data)] else []
  | .polled _ _ => []

/-- What was carried to `x` is pending there or was returned by a poll, each message once and in
order; and the next poll returns the rest of it. -/
structure Delivers (ids : Side → ParticipantId) (x : Side) (p : Side → RealWebrtcTransport)
    (outcomes : List Outcome) : Prop where
  pushed : messages (outcomes.flatMap (polledBy x) ++ (p x).pending) =
    outcomes.flatMap (carriedTo ids x)
  returned : ∀ q polled, step ids p (.poll x) = some (q, polled) →
    messages ((outcomes ++ polled).flatMap (polledBy x)) = outcomes.flatMap (carriedTo ids x)

def CarriesBackPose (p : Side → RealWebrtcTransport) : Happening → Prop
  | .carry .b i => ∃ m, (p .b).onTheWay[i]? = some m ∧ m.params = .forStream .pose
  | _ => False

variable {ids : Side → ParticipantId} {announced : List String} {x : Side}
  {p p' : Side → RealWebrtcTransport} {h : Happening} {hs : List Happening} {o os : List Outcome}

theorem foldl_onDataChannel (a : ParticipantId) (announced : List String)
    (t : RealWebrtcTransport) :
    announced.foldl (onDataChannel a) t =
      { t with dataChannels := t.dataChannels ++ announced.flatMap fun label =>
          (onDataChannel a { t with dataChannels := [] } label).dataChannels } := by
  induction announced generalizing t with
  | nil => simp
  | cons label announced ih =>
    rw [List.foldl_cons, ih, List.flatMap_cons, ← List.append_assoc]
    rfl

theorem start_eq (ids : Side → ParticipantId) (announced : List String) (x : Side) :
    start ids announced x =
      ⟨ids x, some (ids x.other), (start ids announced x).dataChannels, [], [], []⟩ := by
  cases x with
  | a => rfl
  | b => rw [start, pairWithConfigAndApi, foldl_onDataChannel]; rfl

theorem mem_channels_b {c : TransportSendParams × RTCDataChannel} :
    c ∈ (start ids announced .b).dataChannels ↔ ∃ label ∈ announced,
      c = (if label = "sutera-data-unordered" then .forStream .pose else .forStream .chat,
        ⟨label, some (ids .a)⟩) := by
  simp only [start, pairWithConfigAndApi, foldl_onDataChannel, answering, onDataChannel,
    List.nil_append, List.mem_flatMap, List.mem_singleton]

/-- The channel for messages with these parameters. -/
def labelOf (params : TransportSendParams) : String :=
  if params = .forStream .pose then "sutera-data-unordered" else "sutera-data"

theorem labelOf_mem (hopen : BothOpen announced) (params : TransportSendParams) :
    labelOf params ∈ announced := by
  rw [hopen.mem_iff, labelOf]
  split <;> simp

/-- Either end has one channel for poses and one for the rest. -/
theorem label_eq (hopen : BothOpen announced) (x : Side)
    {c : TransportSendParams × RTCDataChannel} (hc : c ∈ (start ids announced x).dataChannels) :
    c.2.label = labelOf c.1 := by
  cases x with
  | a =>
    simp only [start, pairWithConfigAndApi, offering, List.mem_cons, List.not_mem_nil,
      or_false] at hc
    rcases hc with rfl | rfl <;> rfl
  | b =>
    obtain ⟨label, hlabel, rfl⟩ := mem_channels_b.mp hc
    rw [hopen.mem_iff, List.mem_cons, List.mem_singleton] at hlabel
    rcases hlabel with rfl | rfl <;> rfl

theorem handler_b {label : String} (hlabel : label ∈ announced) :
    (start ids announced .b).handler label = some (ids .a) := by
  rw [handler]
  cases hfind : (start ids announced .b).dataChannels.find? (·.2.label = label) with
  | none =>
    have hc := List.find?_eq_none.mp hfind _ (mem_channels_b.mpr ⟨label, hlabel, rfl⟩)
    simp at hc
  | some c =>
    obtain ⟨_, -, rfl⟩ := mem_channels_b.mp (List.mem_of_find?_eq_some hfind)
    rfl

/-- `a` hears what arrives on the ordered channel only. -/
theorem handler_a (params : TransportSendParams) :
    (start ids announced .a).handler (labelOf params) =
      if params = .forStream .pose then none else some (ids .b) := by
  rw [labelOf]
  split <;> rfl

/-- What is put on a channel is heard at its other end, but for poses that `b` sends. -/
theorem handler_other (hopen : BothOpen announced) {c : TransportSendParams × RTCDataChannel}
    (hc : c ∈ (start ids announced x).dataChannels) :
    (start ids announced x.other).handler c.2.label =
      if x = .b ∧ c.1 = .forStream .pose then none else some (ids x) := by
  rw [label_eq hopen x hc]
  cases x with
  | a =>
    rw [if_neg (by simp)]
    exact handler_b (labelOf_mem hopen c.1)
  | b =>
    simp only [true_and]
    exact handler_a c.1

/-- What the handler of an end makes of a message that was carried to it. -/
def heardAt (x : Side) (t : RealWebrtcTransport) : Outcome → List TransportEvent
  | .carried y m =>
    if y = x.other then
      ((t.handler m.label).map fun fromId => .received fromId (.bytes m.data)).toList
    else []
  | .polled _ _ => []

/-- An end that keeps its channels, sends on these only, and gives back `polled`, then its pending
messages, as it had them before and with `heard` after them. -/
structure Moves (t t' : RealWebrtcTransport) (polled heard : List TransportEvent) : Prop where
  ids : t'.me = t.me ∧ t'.peer = t.peer
  channels : t'.dataChannels = t.dataChannels
  onTheWay : ∀ m ∈ t'.onTheWay, m ∈ t.onTheWay ∨
    ∃ c ∈ t.dataChannels, c.1 = m.params ∧ c.2.label = m.label
  pending : messages (polled ++ t'.pending) = messages t.pending ++ heard

variable {t : RealWebrtcTransport}

theorem moves_refl : Moves t t [] [] := ⟨⟨rfl, rfl⟩, rfl, fun _ => .inl, by simp⟩

theorem moves_send {target : ParticipantId} {payload : TransportPayload}
    {params : TransportSendParams} : Moves t (t.send target payload params) [] [] := by
  unfold RealWebrtcTransport.send
  split
  · exact moves_refl
  · split
    · exact moves_refl
    · cases payload with
      | audioFrame frame => exact ⟨⟨rfl, rfl⟩, rfl, fun _ => .inl, by simp⟩
      | bytes data =>
        dsimp only
        split
        · rename_i c dc hfind
          refine ⟨⟨rfl, rfl⟩, rfl, fun m hm => ?_, by simp⟩
          rcases List.mem_append.mp hm with hm | hm
          · exact .inl hm
          · rw [List.mem_singleton] at hm
            have hparams := List.find?_some hfind
            rw [decide_eq_true_iff] at hparams
            exact .inr ⟨(c, dc), List.mem_of_find?_eq_some hfind, by rw [hm]; exact hparams,
              by rw [hm]⟩
        · exact ⟨⟨rfl, rfl⟩, rfl, fun _ => .inl, by simp⟩

theorem moves_poll : Moves t t.poll.1 t.poll.2 [] :=
  ⟨⟨rfl, rfl⟩, rfl, fun _ => .inl, by simp [poll]⟩

theorem moves_gone (i : Nat) : Moves t (t.gone i) [] [] :=
  ⟨⟨rfl, rfl⟩, rfl, fun _ hm => .inl (List.mem_of_mem_eraseIdx hm), by simp [gone]⟩

theorem moves_onMessage {label : String} {data : List UInt8} :
    Moves t (t.onMessage label data) []
      ((t.handler label).map fun fromId => .received fromId (.bytes data)).toList := by
  unfold RealWebrtcTransport.onMessage
  split
  · rename_i fromId hhandler
    rw [hhandler]
    exact ⟨⟨rfl, rfl⟩, rfl, fun _ => .inl, by simp [received, messages]⟩
  · rename_i hhandler
    rw [hhandler]
    exact moves_refl

theorem moves_onTrack {fromId : ParticipantId} {packet : List UInt8} :
    Moves t (t.onTrack fromId packet) [] [] :=
  ⟨⟨rfl, rfl⟩, rfl, fun _ => .inl, by simp [onTrack, received, messages]⟩

theorem moves_onFailure {peer : ParticipantId} : Moves t (t.onFailure peer) [] [] :=
  ⟨⟨rfl, rfl⟩, rfl, fun _ => .inl, by simp [onFailure, messages]⟩

theorem moves_update {y : Side} {t' : RealWebrtcTransport} {polled : List TransportEvent}
    (ht : Moves (p y) t' polled []) (x : Side) :
    Moves (p x) (Function.update p y t' x) (if y = x then polled else []) [] := by
  by_cases hyx : y = x
  · rw [← hyx, Function.update_self, if_pos rfl]
    exact ht
  · rw [Function.update_of_ne (Ne.symm hyx), if_neg hyx]
    exact moves_refl

theorem step_cases (hstep : step ids p h = some (p', o)) :
    (∃ y i m, h = .carry y i ∧ (p y).onTheWay[i]? = some m ∧ o = [.carried y m] ∧
      p' = Function.update (Function.update p y ((p y).gone i)) y.other
        ((p y.other).onMessage m.label m.data)) ∨
    (∃ y, h = .poll y ∧ o = [.polled y (p y).poll.2] ∧ p' = Function.update p y (p y).poll.1) ∨
    ((∀ y i, h ≠ .carry y i) ∧ o = [] ∧
      ∃ y t', Moves (p y) t' [] [] ∧ p' = Function.update p y t') := by
  cases h with
  | send y target payload params =>
    cases hstep
    exact .inr (.inr ⟨nofun, rfl, y, _, moves_send, rfl⟩)
  | poll y =>
    cases hstep
    exact .inr (.inl ⟨y, rfl, rfl, rfl⟩)
  | carry y i =>
    simp only [step] at hstep
    split at hstep
    · rename_i m hm
      cases hstep
      rw [Function.update_of_ne (Side.other_ne y)]
      exact .inl ⟨y, i, m, rfl, hm, rfl, rfl⟩
    · cases hstep
  | lose y i =>
    simp only [step] at hstep
    split at hstep
    · cases hstep
      exact .inr (.inr ⟨nofun, rfl, y, _, moves_gone i, rfl⟩)
    · cases hstep
  | track y packet =>
    cases hstep
    exact .inr (.inr ⟨nofun, rfl, y, _, moves_onTrack, rfl⟩)
  | failure y =>
    cases hstep
    exact .inr (.inr ⟨nofun, rfl, y, _, moves_onFailure, rfl⟩)

theorem step_moves (hstep : step ids p h = some (p', o)) (x : Side) :
    Moves (p x) (p' x) (o.flatMap (polledBy x)) (o.flatMap (heardAt x (p x))) := by
  rcases step_cases hstep with ⟨y, i, m, -, -, rfl, rfl⟩ | ⟨y, -, rfl, rfl⟩ |
    ⟨-, rfl, y, t', ht, rfl⟩
  · simp only [List.flatMap_singleton, polledBy, heardAt]
    rcases y.eq_or_other x with rfl | rfl
    · rw [Function.update_of_ne (Side.other_ne x).symm, Function.update_self,
        if_neg (Side.other_ne x).symm]
      exact moves_gone i
    · rw [Function.update_self, Side.other_other, if_pos rfl]
      exact moves_onMessage
  · simp only [List.flatMap_singleton, polledBy, heardAt]
    exact moves_update moves_poll x
  · have hmoves := moves_update ht x
    rwa [ite_self] at hmoves

theorem carried_mem (hstep : step ids p h = some (p', o)) {y : Side} {m : ChannelMessage}
    (hm : .carried y m ∈ o) : m ∈ (p y).onTheWay := by
  rcases step_cases hstep with ⟨z, i, m', -, hi, rfl, -⟩ | ⟨z, -, rfl, -⟩ | ⟨-, rfl, -⟩
  · rw [List.mem_singleton] at hm
    cases hm
    exact List.mem_of_getElem? hi
  · rw [List.mem_singleton] at hm
    cases hm
  · cases hm

/-- The channels are as they were opened, and what is on the way was put on one of them. -/
structure Wired (ids : Side → ParticipantId) (announced : List String)
    (p : Side → RealWebrtcTransport) : Prop where
  ends : ∀ x, (p x).me = ids x ∧ (p x).peer = some (ids x.other)
  channels : ∀ x, (p x).dataChannels = (start ids announced x).dataChannels
  onTheWay : ∀ x, ∀ m ∈ (p x).onTheWay,
    ∃ c ∈ (start ids announced x).dataChannels, c.1 = m.params ∧ c.2.label = m.label

theorem start_wired (ids : Side → ParticipantId) (announced : List String) :
    Wired ids announced (start ids announced) where
  ends x := by rw [start_eq]; exact ⟨rfl, rfl⟩
  channels _ := rfl
  onTheWay := by
    intro x m hm
    rw [start_eq] at hm
    cases hm

theorem step_wired (hwired : Wired ids announced p) (hstep : step ids p h = some (p', o)) :
    Wired ids announced p' where
  ends x := by
    obtain ⟨hme, hpeer⟩ := (step_moves hstep x).ids
    rw [hme, hpeer]
    exact hwired.ends x
  channels x := by rw [(step_moves hstep x).channels, hwired.channels]
  onTheWay x m hm := by
    rcases (step_moves hstep x).onTheWay m hm with hm | hm
    · exact hwired.onTheWay x m hm
    · rwa [hwired.channels] at hm

def BackPose : Outcome → Prop
  | .carried .b m => m.params = .forStream .pose
  | _ => False

instance : DecidablePred BackPose := by
  intro o
  cases o with
  | carried x m => cases x <;> unfold BackPose <;> infer_instance
  | polled x events => exact instDecidableFalse

def heardBy (ids : Side → ParticipantId) (x : Side) (o : Outcome) : List TransportEvent :=
  if BackPose o then [] else carriedTo ids x o

theorem heardAt_eq (hopen : BothOpen announced) (hwired : Wired ids announced p)
    (hstep : step ids p h = some (p', o)) (x : Side) :
    o.flatMap (heardAt x (p x)) = o.flatMap (heardBy ids x) := by
  refine List.flatMap_congr fun e he => ?_
  cases e with
  | polled y events => rfl
  | carried y m =>
    simp only [heardAt, heardBy, carriedTo]
    by_cases hy : y = x.other
    · obtain ⟨c, hc, hparams, hlabel⟩ := hwired.onTheWay y m (carried_mem hstep he)
      have hhandler := handler_other hopen hc
      rw [handler, ← hwired.channels, ← handler, hparams, hlabel] at hhandler
      obtain rfl : x = y.other := by rw [hy, Side.other_other]
      rw [hhandler, if_pos hy, if_pos hy]
      cases y with
      | a => rfl
      | b => by_cases hpose : m.params = .forStream .pose <;> simp [BackPose, hpose]
    · rw [if_neg hy, if_neg hy, ite_self]

theorem run_heard (hopen : BothOpen announced)
    (hruns : Runs (step ids) (start ids announced) hs os p) (x : Side) :
    messages (os.flatMap (polledBy x) ++ (p x).pending) = os.flatMap (heardBy ids x) := by
  have hstep : ∀ p h p' o, Wired ids announced p → step ids p h = some (p', o) →
      o.flatMap (fun e => messages (polledBy x e)) ++ messages (p' x).pending =
        messages (p x).pending ++ o.flatMap (heardBy ids x) := by
    intro p h p' o hwired hstep
    have hpending := (step_moves hstep x).pending
    rw [heardAt_eq hopen hwired hstep, messages, List.filter_append, List.filter_flatMap]
      at hpending
    exact hpending
  have hfifo := hruns.fifo (fun _ _ _ _ => step_wired) hstep (start_wired ids announced)
  rw [start_eq ids announced x] at hfifo
  rw [messages, List.filter_append, List.filter_flatMap]
  exact hfifo

/-- Lists put together from parts are equal only if the parts are, where one part is a sublist of
the other. -/
theorem flatMap_eq_iff {α β : Type} {f g : α → List β} {l : List α}
    (hsub : ∀ a ∈ l, (f a).Sublist (g a)) : l.flatMap f = l.flatMap g ↔ ∀ a ∈ l, f a = g a := by
  refine ⟨fun heq => ?_, List.flatMap_congr⟩
  induction l with
  | nil => simp
  | cons a l ih =>
    obtain ⟨ha, hl⟩ := List.forall_mem_cons.mp hsub
    have hlength := congrArg List.length heq
    simp only [List.flatMap_cons, List.length_append] at hlength
    have hrest := (List.Sublist.flatMap_right l hl).length_le
    have hhead : f a = g a := ha.eq_of_length_le (by omega)
    rw [List.flatMap_cons, List.flatMap_cons, hhead, List.append_cancel_left_eq] at heq
    exact List.forall_mem_cons.mpr ⟨hhead, ih hl heq⟩

theorem heardBy_eq_iff {e : Outcome} :
    (∀ x, heardBy ids x e = carriedTo ids x e) ↔ ¬ BackPose e := by
  constructor
  · intro hheard hpose
    cases e with
    | polled y events => exact hpose
    | carried y m =>
      cases y with
      | a => exact hpose
      | b =>
        have ha := hheard .a
        rw [heardBy, if_pos hpose] at ha
        cases ha
  · intro hpose x
    rw [heardBy, if_neg hpose]

theorem step_backPose (hstep : step ids p h = some (p', o)) :
    (∀ e ∈ o, ¬ BackPose e) ↔ ¬ CarriesBackPose p h := by
  rcases step_cases hstep with ⟨y, i, m, rfl, hi, rfl, -⟩ | ⟨y, rfl, rfl, -⟩ | ⟨hcarry, rfl, -⟩
  · rw [List.forall_mem_singleton]
    cases y with
    | a => exact Iff.rfl
    | b => simp [BackPose, CarriesBackPose, hi]
  · rw [List.forall_mem_singleton]
    exact Iff.rfl
  · have hnone : ¬ CarriesBackPose p h := by
      intro hpose
      cases h with
      | carry y i => exact hcarry y i rfl
      | _ => exact hpose
    exact ⟨fun _ => hnone, fun _ e he => nomatch he⟩

theorem delivers_iff (hopen : BothOpen announced)
    (hruns : Runs (step ids) (start ids announced) hs os p) (x : Side) :
    Delivers ids x p os ↔ os.flatMap (heardBy ids x) = os.flatMap (carriedTo ids x) := by
  have hheard := run_heard hopen hruns x
  constructor
  · rintro ⟨hpushed, -⟩
    rw [← hpushed, hheard]
  · intro heq
    refine ⟨hheard.trans heq, ?_⟩
    intro q polled hpoll
    cases hpoll
    rw [List.flatMap_append, List.flatMap_singleton, polledBy, if_pos rfl]
    exact hheard.trans heq

/-- In every run of the pair, whatever the two ends send: everything carried to an end is pushed
there and returned by its next poll, for both ends, exactly when no pose that the answering end
sent is carried. -/
theorem channels_deliver_iff (hopen : BothOpen announced)
    (hruns : Runs (step ids) (start ids announced) hs os p) :
    (∀ x, Delivers ids x p os) ↔
      Each (step ids) (fun p h => ¬ CarriesBackPose p h) (start ids announced) hs := by
  rw [← hruns.outputs_iff_each (fun _ _ _ _ => step_backPose)]
  have hsub : ∀ x, ∀ e ∈ os, (heardBy ids x e).Sublist (carriedTo ids x e) := by
    intro x e _
    rw [heardBy]
    split
    · exact List.nil_sublist _
    · exact List.Sublist.refl _
  calc (∀ x, Delivers ids x p os)
      ↔ ∀ x, ∀ e ∈ os, heardBy ids x e = carriedTo ids x e :=
        forall_congr' fun x => (delivers_iff hopen hruns x).trans (flatMap_eq_iff (hsub x))
    _ ↔ ∀ e ∈ os, ∀ x, heardBy ids x e = carriedTo ids x e :=
        ⟨fun h e he x => h x e he, fun h x e he => h e he x⟩
    _ ↔ ∀ e ∈ os, ¬ BackPose e := forall₂_congr fun _ _ => heardBy_eq_iff

def oneBackPose : List Happening :=
  [.send .b alice (.bytes [7]) (.forStream .pose), .carry .b 0, .poll .a]

/-- A pose of the answering end is carried, and neither pushed nor returned. -/
theorem back_pose_not_delivered :
    ∃ p os, Runs (step Pair.sampleIds)
        (start Pair.sampleIds ["sutera-data", "sutera-data-unordered"]) oneBackPose os p ∧
      os.flatMap (carriedTo Pair.sampleIds .a) = [.received bob (.bytes [7])] ∧
      os.flatMap (polledBy .a) = [] ∧ (p .a).pending = [] ∧ ¬ Delivers Pair.sampleIds .a p os := by
  have hrun : (run (step Pair.sampleIds)
      (start Pair.sampleIds ["sutera-data", "sutera-data-unordered"]) oneBackPose).map (fun r =>
        (r.2.flatMap (carriedTo Pair.sampleIds .a), r.2.flatMap (polledBy .a),
          (r.1 .a).pending)) = some ([.received bob (.bytes [7])], [], []) := by decide +kernel
  obtain ⟨⟨p, os⟩, hr, hos⟩ := Option.map_eq_some_iff.mp hrun
  simp only [Prod.mk.injEq] at hos
  obtain ⟨hcarried, hpolled, hpending⟩ := hos
  refine ⟨p, os, run_sound hr, hcarried, hpolled, hpending, fun h => ?_⟩
  have hpushed := h.pushed
  rw [hcarried, hpolled, hpending] at hpushed
  cases hpushed

def bothWays : List Happening := [
  .send .a bob (.bytes [1]) (.forStream .pose),
  .send .a alice (.bytes [2]) (.forStream .controlJoin),
  .send .b alice (.bytes [3]) (.forStream .chat),
  .send .b alice (.bytes [4]) (.forStream .pose),
  .carry .a 1, .carry .b 0, .poll .b, .carry .a 0, .lose .b 0, .failure .a, .poll .a, .poll .b]

theorem channels_deliver_iff_both_ways :
    ∃ p os, Runs (step Pair.sampleIds)
        (start Pair.sampleIds ["sutera-data-unordered", "sutera-data"]) bothWays os p ∧
      os.flatMap (polledBy .a) = [.received bob (.bytes [3]), .failure bob] ∧
      os.flatMap (polledBy .b) = [.received alice (.bytes [2]), .received alice (.bytes [1])] ∧
      ((∀ x, Delivers Pair.sampleIds x p os) ↔
        Each (step Pair.sampleIds) (fun p h => ¬ CarriesBackPose p h)
          (start Pair.sampleIds ["sutera-data-unordered", "sutera-data"]) bothWays) ∧
      ∀ x, Delivers Pair.sampleIds x p os := by
  have hrun : (run (step Pair.sampleIds)
      (start Pair.sampleIds ["sutera-data-unordered", "sutera-data"]) bothWays).map (fun r =>
        (r.2.flatMap (polledBy .a), r.2.flatMap (polledBy .b), r.2.all (¬ BackPose ·))) =
      some ([.received bob (.bytes [3]), .failure bob],
        [.received alice (.bytes [2]), .received alice (.bytes [1])], true) := by decide +kernel
  obtain ⟨⟨p, os⟩, hr, hos⟩ := Option.map_eq_some_iff.mp hrun
  simp only [Prod.mk.injEq, List.all_eq_true, decide_eq_true_iff] at hos
  obtain ⟨ha, hb, hkept⟩ := hos
  have hruns := run_sound hr
  have hiff := channels_deliver_iff (.swap _ _ _) hruns
  have heach := (hruns.outputs_iff_each (fun _ _ _ _ => step_backPose)).mp hkept
  exact ⟨p, os, hruns, ha, hb, hiff, hiff.mpr heach⟩

end RealPair

end Syncer
end Bakopa
