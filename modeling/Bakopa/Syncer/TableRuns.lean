import Bakopa.Lib.Seniority
import Bakopa.Syncer.TransportInbox

/-!
# Bakopa.Syncer.TableRuns

A `ParticipantTable` after any calls on it.

* `listing`       — the order is the listing of the participants by their latest join.
* `handedOut`     — the sessions are handed out one after another.
* `presence_runs` — the events about a participant are a run of `Presence` without failures.
-/

namespace Bakopa
namespace Syncer

open Lib Lib.Machine

inductive TableCall where
  | applyJoin (p : ParticipantId)
  | applyLeave (p : ParticipantId)
  | applyPendingPeerEvent (event : PendingPeerEvent)

/-- What a call returned, and the table it left. -/
structure Applied where
  call : TableCall
  events : List SyncerEvent
  table : ParticipantTable

section Table

variable [UuidCrate]

/-- The join or leave that a call is; an event with a malformed id is neither. -/
def TableCall.op : TableCall → Option PresenceOp
  | .applyJoin p => some (.join p)
  | .applyLeave p => some (.leave p)
  | .applyPendingPeerEvent event =>
    match ParticipantId.fromStr event.participantId, event.kind with
    | none, _ => none
    | some p, .joined => some (.join p)
    | some p, .left => some (.leave p)

def TableCall.isJoin (c : TableCall) : Bool :=
  match c.op with
  | some (.join _) => true
  | _ => false

def Applied.handed (a : Applied) : List (ParticipantId × UInt64) :=
  match a.call.op with
  | some (.join p) => ((a.table.sessions.lookup p).map fun id => (p, id)).toList
  | _ => []

def Applied.ops (p : ParticipantId) (a : Applied) : List Presence.Op :=
  a.call.op.toList.flatMap (PresenceOp.about p)

def Applied.reports (p : ParticipantId) (a : Applied) : List Presence.Report :=
  a.events.flatMap (SyncerEvent.about p)

namespace ParticipantTable

def call (t : ParticipantTable) : TableCall → ParticipantTable × List SyncerEvent
  | .applyJoin p => t.applyJoin p
  | .applyLeave p => t.applyLeave p
  | .applyPendingPeerEvent event => t.applyPendingPeerEvent event

def step : Machine ParticipantTable TableCall Applied
  | t, c => some ((t.call c).1, [⟨c, (t.call c).2, (t.call c).1⟩])

variable {t t' : ParticipantTable} {c : TableCall} {cs : List TableCall} {os o : List Applied}
  {p q : ParticipantId} {i : Nat} {id : UInt64}

theorem call_cases (t : ParticipantTable) (c : TableCall) :
    (∃ p, c.op = some (.join p) ∧ t.call c = t.applyJoin p) ∨
    (∃ p, c.op = some (.leave p) ∧ t.call c = t.applyLeave p) ∨
    (c.op = none ∧ ∃ raw, t.call c = (t, [.error (.invalidParticipantId raw)])) := by
  cases c with
  | applyJoin p => exact .inl ⟨p, rfl, rfl⟩
  | applyLeave p => exact .inr (.inl ⟨p, rfl, rfl⟩)
  | applyPendingPeerEvent event =>
    simp only [TableCall.op, call, applyPendingPeerEvent]
    cases hparse : ParticipantId.fromStr event.participantId with
    | none => exact .inr (.inr ⟨rfl, _, rfl⟩)
    | some p =>
      cases hkind : event.kind with
      | joined => exact .inl ⟨p, rfl, rfl⟩
      | left => exact .inr (.inl ⟨p, rfl, rfl⟩)

theorem exists_run (t : ParticipantTable) (cs : List TableCall) :
    ∃ os t', Runs step t cs os t' := by
  induction cs generalizing t with
  | nil => exact ⟨[], t, .nil⟩
  | cons c cs ih =>
    obtain ⟨os, t', hruns⟩ := ih (t.call c).1
    exact ⟨_, t', .cons rfl hruns⟩

/-- The `i`-th call is a join of `p`, and no later one is. -/
def LatestJoin (cs : List TableCall) (p : ParticipantId) (i : Nat) : Prop :=
  cs[i]?.bind TableCall.op = some (.join p) ∧
    ∀ j, i < j → cs[j]?.bind TableCall.op ≠ some (.join p)

/-- Since when each participant is in the table: since its latest join, unless it left. -/
def since (cs : List TableCall) : Since ParticipantId :=
  cs.zipIdx.foldl (fun since (c, i) =>
    match c.op with
    | some (.join p) => since.enter p i
    | some (.leave p) => since.leave p
    | _ => since) Since.none

theorem since_append (cs : List TableCall) (c : TableCall) :
    since (cs ++ [c]) =
      match c.op with
      | some (.join p) => (since cs).enter p cs.length
      | some (.leave p) => (since cs).leave p
      | _ => since cs := by
  rw [since, List.zipIdx_append, List.foldl_append, List.zipIdx_singleton, List.foldl_cons,
    List.foldl_nil, Nat.zero_add]
  rfl

theorem since_join (hc : c.op = some (.join p)) :
    since (cs ++ [c]) = (since cs).enter p cs.length := by
  rw [since_append, hc]

theorem since_leave (hc : c.op = some (.leave p)) : since (cs ++ [c]) = (since cs).leave p := by
  rw [since_append, hc]

theorem since_error (hc : c.op = none) : since (cs ++ [c]) = since cs := by
  rw [since_append, hc]

theorem LatestJoin.append (h : LatestJoin cs p i) (hc : c.op ≠ some (.join p)) :
    LatestJoin (cs ++ [c]) p i := by
  obtain ⟨hjoin, hlater⟩ := h
  have hi : i < cs.length := by
    by_contra hi
    rw [List.getElem?_eq_none (by omega)] at hjoin
    cases hjoin
  refine ⟨by rwa [List.getElem?_append_left hi], fun j hj => ?_⟩
  by_cases hjlen : j < cs.length
  · rw [List.getElem?_append_left hjlen]
    exact hlater j hj
  · rw [List.getElem?_append_right (by omega)]
    cases hk : j - cs.length with
    | zero => exact hc
    | succ k => simp

theorem latestJoin_last (hc : c.op = some (.join p)) : LatestJoin (cs ++ [c]) p cs.length := by
  refine ⟨by simpa using hc, fun j hj => ?_⟩
  rw [List.getElem?_eq_none (by simp; omega)]
  simp

theorem latestJoin_of_since (h : since cs p = some i) : LatestJoin cs p i := by
  induction cs using List.reverseRecOn generalizing i with
  | nil => cases h
  | append_singleton cs c ih =>
    rcases new.call_cases c with ⟨q, hop, -⟩ | ⟨q, hop, -⟩ | ⟨hop, -⟩
    · rw [since_join hop] at h
      by_cases hpq : p = q
      · subst hpq
        rw [Since.enter_self, Option.some.injEq] at h
        exact h ▸ latestJoin_last hop
      · rw [Since.enter_of_ne hpq] at h
        exact (ih h).append (by rw [hop]; simpa using Ne.symm hpq)
    · rw [since_leave hop] at h
      by_cases hpq : p = q
      · subst hpq
        rw [Since.leave_self] at h
        cases h
      · rw [Since.leave_of_ne hpq] at h
        exact (ih h).append (by rw [hop]; simp)
    · rw [since_error hop] at h
      exact (ih h).append (by rw [hop]; simp)

theorem since_lt (h : since cs p = some i) : i < cs.length := by
  obtain ⟨hjoin, -⟩ := latestJoin_of_since h
  by_contra hi
  rw [List.getElem?_eq_none (by omega)] at hjoin
  cases hjoin

section Order

variable {since : Since ParticipantId} {n : Nat}

omit [UuidCrate]

theorem listing_erase (h : Listing since t.participants) (p : ParticipantId) :
    Listing (since.leave p) (t.participants.erase p) := by
  have hfilter : t.participants.erase p = t.participants.filter (· ≠ p) := by
    rw [t.nodup_participants.erase_eq_filter]
    refine List.filter_congr fun q _ => ?_
    by_cases hqp : q = p <;> simp [hqp]
  rw [hfilter]
  exact h.leave p

theorem listing_applyJoin (h : Listing since t.participants)
    (hlt : ∀ q i, since q = some i → i < n) :
    Listing (since.enter p n) (t.applyJoin p).1.participants := by
  have henter : (since.leave p).enter p n = since.enter p n := Function.update_idem ..
  rw [participants_applyJoin, ← henter]
  refine (listing_erase h p).enter ?_ ?_
  · rintro ⟨i, hi⟩
    rw [Since.leave_self] at hi
    cases hi
  · intro q i hi
    by_cases hqp : q = p
    · rw [hqp, Since.leave_self] at hi
      cases hi
    · rw [Since.leave_of_ne hqp] at hi
      exact hlt q i hi

theorem listing_applyLeave (h : Listing since t.participants) :
    Listing (since.leave p) (t.applyLeave p).1.participants := by
  rw [participants_applyLeave]
  exact listing_erase h p

end Order

theorem listing (hruns : Runs step new cs os t) : Listing (since cs) t.participants := by
  have hnil : Listing (since []) new.participants := Listing.nil
  refine hruns.history (I := fun t cs _ => Listing (since cs) t.participants) hnil ?_
  intro t cs os c t' o _ ih hstep
  cases hstep
  rcases t.call_cases c with ⟨p, hop, hcall⟩ | ⟨p, hop, hcall⟩ | ⟨hop, raw, hcall⟩
  · rw [hcall, since_join hop]
    exact listing_applyJoin ih fun _ _ => since_lt
  · rw [hcall, since_leave hop]
    exact listing_applyLeave ih
  · rw [hcall, since_error hop]
    exact ih

def joins (cs : List TableCall) : Nat := cs.countP TableCall.isJoin

/-- The `k`-th join is handed the `k`-th session, counted from 1; whoever is in the table has one
that was handed to it. -/
structure HandedOut (cs : List TableCall) (os : List Applied) (t : ParticipantTable) : Prop where
  next : t.nextSession = UInt64.ofNat (joins cs + 1)
  ids : (os.flatMap Applied.handed).map Prod.snd =
    (List.range (joins cs)).map fun k => UInt64.ofNat (k + 1)
  current : ∀ p id, t.sessions.lookup p = some id → (p, id) ∈ os.flatMap Applied.handed

theorem joins_append (cs : List TableCall) (c : TableCall) :
    joins (cs ++ [c]) = joins cs + if c.isJoin then 1 else 0 := by
  rw [joins, List.countP_append, List.countP_singleton]
  rfl

theorem HandedOut.join (h : HandedOut cs os t) (hop : c.op = some (.join p))
    {events : List SyncerEvent} :
    HandedOut (cs ++ [c]) (os ++ [⟨c, events, (t.applyJoin p).1⟩]) (t.applyJoin p).1 := by
  have hjoins : joins (cs ++ [c]) = joins cs + 1 := by
    rw [joins_append, TableCall.isJoin, hop, if_pos rfl]
  have hhanded : Applied.handed ⟨c, events, (t.applyJoin p).1⟩ = [(p, t.nextSession)] := by
    simp [Applied.handed, hop, lookup_applyJoin]
  refine ⟨?_, ?_, fun q id hid => ?_⟩
  · rw [hjoins, nextSession_applyJoin, h.next, ← UInt64.ofNat_one, ← UInt64.ofNat_add]
  · rw [List.flatMap_append, List.map_append, h.ids, List.flatMap_singleton, hhanded, hjoins,
      List.range_succ, List.map_append, h.next]
    rfl
  · rw [List.flatMap_append, List.mem_append, List.flatMap_singleton, hhanded, List.mem_singleton]
    rw [lookup_applyJoin] at hid
    split at hid
    · rename_i hqp
      cases hid
      exact .inr (by rw [hqp])
    · exact .inl (h.current q id hid)

theorem HandedOut.other (h : HandedOut cs os t) (hjoin : c.isJoin = false)
    {events : List SyncerEvent} (hnext : t'.nextSession = t.nextSession)
    (hcurrent : ∀ q id, t'.sessions.lookup q = some id → t.sessions.lookup q = some id) :
    HandedOut (cs ++ [c]) (os ++ [⟨c, events, t'⟩]) t' := by
  have hjoins : joins (cs ++ [c]) = joins cs := by
    rw [joins_append, hjoin, if_neg Bool.false_ne_true, Nat.add_zero]
  have hc : Applied.handed ⟨c, events, t'⟩ = [] := by
    unfold Applied.handed
    split
    · rename_i p hp
      rw [TableCall.isJoin, hp] at hjoin
      cases hjoin
    · rfl
  have hhanded : (os ++ [Applied.mk c events t']).flatMap Applied.handed =
      os.flatMap Applied.handed := by
    rw [List.flatMap_append, List.flatMap_singleton, hc, List.append_nil]
  refine ⟨?_, ?_, fun q id hid => ?_⟩
  · rw [hnext, hjoins, h.next]
  · rw [hhanded, hjoins, h.ids]
  · rw [hhanded]
    exact h.current q id (hcurrent q id hid)

theorem handedOut (hruns : Runs step new cs os t) : HandedOut cs os t := by
  have hnil : HandedOut [] [] new := ⟨rfl, rfl, fun p id hid => by cases hid⟩
  refine hruns.history (I := fun t cs os => HandedOut cs os t) hnil ?_
  intro t cs os c t' o _ ih hstep
  cases hstep
  rcases t.call_cases c with ⟨p, hop, hcall⟩ | ⟨p, hop, hcall⟩ | ⟨hop, raw, hcall⟩
  · rw [hcall]
    exact ih.join hop
  · rw [hcall]
    refine ih.other (by rw [TableCall.isJoin, hop]) nextSession_applyLeave fun q id hid => ?_
    rw [lookup_applyLeave] at hid
    split at hid
    · cases hid
    · exact hid
  · rw [hcall]
    exact ih.other (by rw [TableCall.isJoin, hop]) rfl fun _ _ hid => hid

section Fresh

variable (hruns : Runs step new cs os t)

include hruns

theorem handed_nodup (hjoins : joins cs < 2 ^ 64) :
    ((os.flatMap Applied.handed).map Prod.snd).Nodup := by
  rw [(handedOut hruns).ids]
  refine (List.nodup_range).map_on fun k hk l hl heq => ?_
  rw [List.mem_range] at hk hl
  have hnat := congrArg UInt64.toNat heq
  rw [UInt64.toNat_ofNat', UInt64.toNat_ofNat', Nat.mod_eq_of_lt (by omega),
    Nat.mod_eq_of_lt (by omega)] at hnat
  omega

theorem session_inj (hjoins : joins cs < 2 ^ 64) (hp : t.sessions.lookup p = some id)
    (hq : t.sessions.lookup q = some id) : p = q := by
  have hcurrent := (handedOut hruns).current
  have heq := List.inj_on_of_nodup_map (handed_nodup hruns hjoins) (hcurrent p id hp)
    (hcurrent q id hq) rfl
  exact congrArg Prod.fst heq

theorem session_lt (hjoins : joins cs < 2 ^ 64 - 1) (hp : t.sessions.lookup p = some id) :
    id < t.nextSession := by
  have h := handedOut hruns
  have hid : id ∈ (os.flatMap Applied.handed).map Prod.snd :=
    List.mem_map_of_mem (h.current p id hp)
  rw [h.ids, List.mem_map] at hid
  obtain ⟨k, hk, rfl⟩ := hid
  rw [List.mem_range] at hk
  rw [h.next, UInt64.lt_iff_toNat_lt, UInt64.toNat_ofNat', UInt64.toNat_ofNat',
    Nat.mod_eq_of_lt (by omega), Nat.mod_eq_of_lt (by omega)]
  omega

end Fresh

omit [UuidCrate] in
theorem status_new (p : ParticipantId) : status ∅ new p = Presence.fresh := by
  simp [status, new, participants, Presence.fresh]

theorem step_presence (hstep : step t c = some (t', o)) (p : ParticipantId) :
    Runs Presence.step (status ∅ t p) (o.flatMap (Applied.ops p)) (o.flatMap (Applied.reports p))
      (status ∅ t' p) := by
  cases hstep
  simp only [List.flatMap_singleton, Applied.ops, Applied.reports]
  rcases t.call_cases c with ⟨q, hop, hcall⟩ | ⟨q, hop, hcall⟩ | ⟨hop, raw, hcall⟩
  · rw [hcall, hop, Option.toList_some, List.flatMap_singleton]
    exact PresenceOp.apply_runs ∅ t (.join q) p
  · rw [hcall, hop, Option.toList_some, List.flatMap_singleton]
    exact PresenceOp.apply_runs ∅ t (.leave q) p
  · rw [hcall, hop]
    exact .nil

/-- The events about a participant are those of the abstract machine, for the calls about it. -/
theorem presence_runs (hruns : Runs step new cs os t) (p : ParticipantId) :
    Runs Presence.step Presence.fresh (os.flatMap (Applied.ops p)) (os.flatMap (Applied.reports p))
      (status ∅ t p) := by
  rw [← status_new p]
  exact hruns.simulates (fun _ _ _ _ _ hstep => step_presence hstep p) (fun _ _ => trivial)

theorem no_fail (os : List Applied) (p : ParticipantId) :
    .fail ∉ os.flatMap (Applied.ops p) := by
  rw [List.mem_flatMap]
  rintro ⟨a, -, ha⟩
  rw [Applied.ops] at ha
  rcases new.call_cases a.call with ⟨q, hop, -⟩ | ⟨q, hop, -⟩ | ⟨hop, -⟩
  · rw [hop] at ha
    by_cases hqp : q = p <;> simp [PresenceOp.about, hqp] at ha
  · rw [hop] at ha
    by_cases hqp : q = p <;> simp [PresenceOp.about, hqp] at ha
  · rw [hop] at ha
    cases ha

/-- What holds of a table after the calls `cs`, that did `os`. -/
structure TableSound (cs : List TableCall) (os : List Applied) (t : ParticipantTable) : Prop where
  consistent : t.Consistent
  joinOrder : t.participants.Pairwise fun p q =>
    ∃ i j, LatestJoin cs p i ∧ LatestJoin cs q j ∧ i < j
  distinct : ∀ p q id, t.sessions.lookup p = some id → t.sessions.lookup q = some id → p = q
  handed : ∀ p id, t.sessions.lookup p = some id → (p, id) ∈ os.flatMap Applied.handed
  neverReused : ((os.flatMap Applied.handed).map Prod.snd).Nodup
  /-- `next_session` is 0 after `2 ^ 64 - 1` joins. -/
  below : joins cs < 2 ^ 64 - 1 → ∀ p id, t.sessions.lookup p = some id → id < t.nextSession
  alternating : ∀ p, Presence.Alternating (os.flatMap (Applied.reports p))
  registered : ∀ p,
    t.isRegistered p = true ↔ (os.flatMap (Applied.reports p)).getLast? = some .joined

/-- After any calls on a new table, fewer than `2 ^ 64` of them joins, it is sound. -/
theorem table_sound (hruns : Runs step new cs os t) (hjoins : joins cs < 2 ^ 64) :
    TableSound cs os t where
  consistent := t.consistent
  joinOrder := by
    refine (listing hruns).sorted.imp ?_
    rintro p q ⟨i, j, hp, hq, hij⟩
    exact ⟨i, j, latestJoin_of_since hp, latestJoin_of_since hq, hij⟩
  distinct _ _ _ := session_inj hruns hjoins
  handed := (handedOut hruns).current
  neverReused := handed_nodup hruns hjoins
  below hfewer _ _ := session_lt hruns hfewer
  alternating p := Presence.alternating (presence_runs hruns p) (no_fail os p)
  registered p := by
    rw [← Presence.registered_iff_last (presence_runs hruns p), isRegistered_iff]
    simp [status]

theorem joins_replicate (n : Nat) (p : ParticipantId) :
    joins (List.replicate n (.applyJoin p)) = n := by
  simp [joins, List.countP_replicate, TableCall.isJoin, TableCall.op]

theorem lookup_of_last_join (hruns : Runs step new (cs ++ [.applyJoin p]) os t) :
    ∃ id, t.sessions.lookup p = some id := by
  obtain ⟨t', _, _, -, hlast, -⟩ := hruns.split_last
  cases hlast
  exact ⟨t'.nextSession, by simp [call, lookup_applyJoin]⟩

end ParticipantTable

end Table

namespace ParticipantTable

/-- `2 ^ 64 - 1` joins: the one session held is not below the next one, that is 0. -/
theorem session_not_below :
    let _ := hyphenated
    ∃ os t id, Runs step new (List.replicate (2 ^ 64 - 1) (.applyJoin ⟨1⟩)) os t ∧
      joins (List.replicate (2 ^ 64 - 1) (.applyJoin ⟨1⟩)) < 2 ^ 64 ∧
      t.sessions.lookup ⟨1⟩ = some id ∧ ¬ id < t.nextSession := by
  intro _
  obtain ⟨os, t, hruns⟩ := exists_run new (List.replicate (2 ^ 64 - 1) (.applyJoin ⟨1⟩))
  have hjoins := joins_replicate (2 ^ 64 - 1) ⟨1⟩
  have hnext := (handedOut hruns).next
  rw [hjoins] at hnext
  have hzero : t.nextSession = 0 := hnext.trans (by decide)
  have hlast : ∃ id, t.sessions.lookup ⟨1⟩ = some id := by
    obtain ⟨n, hn⟩ : ∃ n, 2 ^ 64 - 1 = n + 1 := ⟨2 ^ 64 - 2, by omega⟩
    rw [hn, List.replicate_succ'] at hruns
    exact lookup_of_last_join hruns
  obtain ⟨id, hid⟩ := hlast
  exact ⟨os, t, id, hruns, by omega, hid, by rw [hzero]; exact UInt64.not_lt_zero⟩

def someone : ParticipantId := ⟨1⟩

def someoneElse : ParticipantId := ⟨2⟩

def comingsAndGoings : List TableCall := [
  .applyJoin someone,
  .applyPendingPeerEvent ⟨"00000000-0000-0000-0000-000000000002", none, none, .joined⟩,
  .applyPendingPeerEvent ⟨"nobody", none, none, .joined⟩,
  .applyJoin someone,
  .applyLeave someoneElse,
  .applyLeave someoneElse]

theorem table_sound_rejoin :
    let _ := hyphenated
    ∃ os t, Runs step new comingsAndGoings os t ∧ t.participants = [someone] ∧
      os.flatMap (Applied.reports someone) = [.joined, .left, .joined] ∧
      os.flatMap (Applied.reports someoneElse) = [.joined, .left] ∧
      os.flatMap Applied.handed = [(someone, 1), (someoneElse, 2), (someone, 3)] ∧
      TableSound comingsAndGoings os t := by
  intro _
  have hrun : (run step new comingsAndGoings).map (fun r =>
      (r.1.participants, r.2.flatMap (Applied.reports someone),
        r.2.flatMap (Applied.reports someoneElse), r.2.flatMap Applied.handed)) =
      some ([someone], [.joined, .left, .joined], [.joined, .left],
        [(someone, 1), (someoneElse, 2), (someone, 3)]) := by decide +kernel
  obtain ⟨⟨t, os⟩, hr, hos⟩ := Option.map_eq_some_iff.mp hrun
  simp only [Prod.mk.injEq] at hos
  obtain ⟨hparticipants, hone, hother, hhanded⟩ := hos
  exact ⟨os, t, run_sound hr, hparticipants, hone, hother, hhanded,
    table_sound (run_sound hr) (by decide +kernel)⟩

end ParticipantTable

end Syncer
end Bakopa
