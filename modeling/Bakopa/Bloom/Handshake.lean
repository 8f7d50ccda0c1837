import Bakopa.Lib.Chunks

/-!
# Bakopa.Bloom.Handshake

How `bloom/ws/src/server.rs` reads the head of the HTTP request a connection starts with, and what
it answers.

`read_handshake_request` looks at its buffer after every read, and at the size of it before every
read. So a head is let in when the read that completes it begins below `MAX_HANDSHAKE_SIZE`
(`readLoop_head`): up to that size a head always is, and from 1024 bytes above it on never. In
between it depends on the reads, and `chunking_agrees_iff` says that nothing else does.
-/

namespace Bakopa
namespace Bloom

open Lib

/-- What the server uses of tungstenite and of the `http` crate. -/
class Tungstenite where
  Request : Type
  Response : Type
  Error : Type
  /-- `Request::try_parse`: the head at the start of the buffer and its size, once it is there. -/
  tryParse : List UInt8 → Except Error (Option (Nat × Request))
  /-- `uri().path()` -/
  path : Request → String
  /-- `headers().get(name)`, as a string. -/
  header : Request → String → Option String
  createResponse : Request → Except Error Response

/-- A verdict on a buffer is a verdict on its bytes, whatever follows them. -/
class LawfulTryParse [Tungstenite] : Prop where
  size_pos {buf : List UInt8} {size : Nat} {request : Tungstenite.Request} :
    Tungstenite.tryParse buf = .ok (some (size, request)) → 0 < size
  size_le {buf : List UInt8} {size : Nat} {request : Tungstenite.Request} :
    Tungstenite.tryParse buf = .ok (some (size, request)) → size ≤ buf.length
  ok_take {buf : List UInt8} {size : Nat} {request : Tungstenite.Request} :
    Tungstenite.tryParse buf = .ok (some (size, request)) →
      Tungstenite.tryParse (buf.take size) = .ok (some (size, request))
  ok_append {buf : List UInt8} {size : Nat} {request : Tungstenite.Request}
    (more : List UInt8) : Tungstenite.tryParse buf = .ok (some (size, request)) →
      Tungstenite.tryParse (buf ++ more) = .ok (some (size, request))
  error_append {buf : List UInt8} {e : Tungstenite.Error} (more : List UInt8) :
    Tungstenite.tryParse buf = .error e → ∃ e', Tungstenite.tryParse (buf ++ more) = .error e'

def maxHandshakeSize : Nat := 8 * 1024

def readSize : Nat := 1024

inductive Ending where
  | closed
  | failed
deriving DecidableEq, Repr

structure TcpStream where
  reads : List (Chunk UInt8 readSize)
  ending : Ending

def TcpStream.unread (stream : TcpStream) : List UInt8 := joined stream.reads

section Handshake

variable [Tungstenite]

inductive HandshakeError where
  | bail (message : String)
  | io
  | parse (e : Tungstenite.Error)

/-- The loop of `read_handshake_request`, from a buffer on. -/
def readLoop (ending : Ending) : List (Chunk UInt8 readSize) → List UInt8 →
    TcpStream × Except HandshakeError (Tungstenite.Request × List UInt8)
  | [], buf =>
    if maxHandshakeSize ≤ buf.length then
      (⟨[], ending⟩, .error (.bail "handshake request too large"))
    else
      match ending with
      | .closed => (⟨[], ending⟩, .error (.bail "connection closed before handshake"))
      | .failed => (⟨[], ending⟩, .error .io)
  | chunk :: reads, buf =>
    if maxHandshakeSize ≤ buf.length then
      (⟨chunk :: reads, ending⟩, .error (.bail "handshake request too large"))
    else
      match Tungstenite.tryParse (buf ++ chunk.items) with
      | .error e => (⟨reads, ending⟩, .error (.parse e))
      | .ok (some (size, req)) => (⟨reads, ending⟩, .ok (req, (buf ++ chunk.items).drop size))
      | .ok none => readLoop ending reads (buf ++ chunk.items)

/-- The request, and the tail of what was read; the stream is left with what was not. -/
def readHandshakeRequest (stream : TcpStream) :
    TcpStream × Except HandshakeError (Tungstenite.Request × List UInt8) :=
  readLoop stream.ending stream.reads []

def eqIgnoreAsciiCase (s t : List Char) : Bool := s.map Char.toLower = t.map Char.toLower

def hasUpgradeHeaders (req : Tungstenite.Request) : Bool :=
  let connectionOk :=
    match Tungstenite.header req "Connection" with
    | some h => (h.toList.splitOnP fun c => c = ' ' || c = ',').any
        (eqIgnoreAsciiCase "upgrade".toList)
    | none => false
  let upgradeOk :=
    match Tungstenite.header req "Upgrade" with
    | some h => eqIgnoreAsciiCase h.toList "websocket".toList
    | none => false
  connectionOk && upgradeOk

inductive Answer where
  | notFound
  | upgradeRequired
  /-- The WebSocket stream that follows starts with these bytes. -/
  | switching (response : Tungstenite.Response) (stream : List UInt8)

/-- What `handle_connection` answers to a request, which `rest` follows on the stream. -/
def respond (request : Tungstenite.Request) (rest : List UInt8) : Except HandshakeError Answer :=
  if Tungstenite.path request ≠ "/ws" then .ok .notFound
  else if !hasUpgradeHeaders request then .ok .upgradeRequired
  else
    match Tungstenite.createResponse request with
    | .error e => .error (.parse e)
    | .ok response => .ok (.switching response rest)

/-- The start of `handle_connection`, as far as the client can tell. -/
def answer (stream : TcpStream) : Except HandshakeError Answer :=
  match readHandshakeRequest stream with
  | (_, .error e) => .error e
  | (stream, .ok (request, tail)) => respond request (tail ++ stream.unread)

variable [LawfulTryParse] {bytes buf : List UInt8} {size : Nat} {req : Tungstenite.Request}
  {ending : Ending} {reads : List (Chunk UInt8 readSize)}

theorem tryParse_short (h : Tungstenite.tryParse bytes = .ok (some (size, req))) {rest : List UInt8}
    (hbytes : buf ++ rest = bytes) (hshort : buf.length < size) :
    Tungstenite.tryParse buf = .ok none := by
  cases hbuf : Tungstenite.tryParse buf with
  | error e =>
    obtain ⟨e', he⟩ := LawfulTryParse.error_append rest hbuf
    rw [hbytes, h] at he
    cases he
  | ok verdict =>
    cases verdict with
    | none => rfl
    | some head =>
      obtain ⟨size', req'⟩ := head
      have hsame := LawfulTryParse.ok_append rest hbuf
      rw [hbytes, h] at hsame
      cases hsame
      have hle := LawfulTryParse.size_le hbuf
      omega

theorem tryParse_long (h : Tungstenite.tryParse bytes = .ok (some (size, req))) {rest : List UInt8}
    (hbytes : buf ++ rest = bytes) (hlong : size ≤ buf.length) :
    Tungstenite.tryParse buf = .ok (some (size, req)) := by
  have hhead := LawfulTryParse.ok_take h
  rw [← hbytes, List.take_append_of_le_length hlong] at hhead
  have hbuf := LawfulTryParse.ok_append (buf.drop size) hhead
  rwa [List.take_append_drop] at hbuf

/-- A head is let in exactly when the read that completes it begins below the limit. -/
theorem readLoop_head (ending : Ending) (buf : List UInt8)
    (h : Tungstenite.tryParse bytes = .ok (some (size, req)))
    (hbytes : buf ++ joined reads = bytes) (hshort : buf.length < size) :
    if before size buf.length reads < maxHandshakeSize then
      ∃ tail rest, readLoop ending reads buf = (⟨rest, ending⟩, .ok (req, tail)) ∧
        tail ++ joined rest = bytes.drop size
    else ∃ stream e, readLoop ending reads buf = (stream, .error e) := by
  induction reads generalizing buf with
  | nil =>
    have hle := LawfulTryParse.size_le h
    rw [joined_nil, List.append_nil] at hbytes
    rw [hbytes] at hshort
    omega
  | cons chunk reads ih =>
    rw [joined_cons, ← List.append_assoc] at hbytes
    have hlength : (buf ++ chunk.items).length = buf.length + chunk.items.length :=
      List.length_append
    by_cases hfull : maxHandshakeSize ≤ buf.length
    · have hbefore : buf.length ≤ before size buf.length (chunk :: reads) := le_before
      rw [if_neg (by omega)]
      exact ⟨_, _, by rw [readLoop, if_pos hfull]⟩
    · by_cases hlong : size ≤ buf.length + chunk.items.length
      · have hcomplete : size ≤ (buf ++ chunk.items).length := by omega
        rw [before_cons_of_le hlong, if_pos (Nat.not_le.mp hfull)]
        refine ⟨(buf ++ chunk.items).drop size, reads, ?_, ?_⟩
        · rw [readLoop, if_neg hfull, tryParse_long h hbytes hcomplete]
        · rw [← hbytes, List.drop_append_of_le_length hcomplete]
      · rw [before_cons_of_lt (Nat.not_le.mp hlong)]
        have hrest := ih (buf ++ chunk.items) hbytes (by omega)
        rw [readLoop, if_neg hfull, tryParse_short h hbytes (by omega), ← hlength]
        exact hrest

theorem readLoop_headless (ending : Ending) (buf : List UInt8)
    (h : ∀ size req, Tungstenite.tryParse bytes ≠ .ok (some (size, req)))
    (hbytes : buf ++ joined reads = bytes) :
    ∃ stream e, readLoop ending reads buf = (stream, .error e) := by
  induction reads generalizing buf with
  | nil =>
    simp only [readLoop]
    split
    · exact ⟨_, _, rfl⟩
    · cases ending with
      | closed => exact ⟨_, _, rfl⟩
      | failed => exact ⟨_, _, rfl⟩
  | cons chunk reads ih =>
    rw [joined_cons, ← List.append_assoc] at hbytes
    simp only [readLoop]
    split
    · exact ⟨_, _, rfl⟩
    · cases hbuf : Tungstenite.tryParse (buf ++ chunk.items) with
      | error e => exact ⟨_, _, rfl⟩
      | ok verdict =>
        cases verdict with
        | none => exact ih (buf ++ chunk.items) hbytes
        | some head =>
          obtain ⟨size, req⟩ := head
          have hhead := LawfulTryParse.ok_append (joined reads) hbuf
          rw [hbytes] at hhead
          exact absurd hhead (h size req)

/-! ## Two ways to split a stream -/

/-- Both succeed with one request and leave the same stream to be read, or both fail. -/
def Agree (x y : TcpStream × Except HandshakeError (Tungstenite.Request × List UInt8)) : Prop :=
  match x.2, y.2 with
  | .ok (request, tail), .ok (request', tail') =>
    request = request' ∧ tail ++ x.1.unread = tail' ++ y.1.unread
  | .error _, .error _ => True
  | .ok _, .error _ | .error _, .ok _ => False

/-- The outcome does not depend on how the stream is split into reads. -/
def Agrees (bytes : List UInt8) (ending : Ending) : Prop :=
  ∀ reads reads', joined reads = bytes → joined reads' = bytes →
    Agree (readHandshakeRequest ⟨reads, ending⟩) (readHandshakeRequest ⟨reads', ending⟩)

theorem read_head (ending : Ending)
    (h : Tungstenite.tryParse bytes = .ok (some (size, req))) (hreads : joined reads = bytes) :
    if before size 0 reads < maxHandshakeSize then
      ∃ tail rest, readHandshakeRequest ⟨reads, ending⟩ = (⟨rest, ending⟩, .ok (req, tail)) ∧
        tail ++ joined rest = bytes.drop size
    else ∃ stream e, readHandshakeRequest ⟨reads, ending⟩ = (stream, .error e) :=
  readLoop_head ending [] h hreads (LawfulTryParse.size_pos h)

theorem agrees_of_head (h : Tungstenite.tryParse bytes = .ok (some (size, req)))
    (hsame : ∀ reads reads' : List (Chunk UInt8 readSize), joined reads = bytes →
      joined reads' = bytes →
      (before size 0 reads < maxHandshakeSize ↔ before size 0 reads' < maxHandshakeSize)) :
    Agrees bytes ending := by
  intro reads reads' hreads hreads'
  have hfirst := read_head ending h hreads
  have hsecond := read_head ending h hreads'
  have hiff := hsame reads reads' hreads hreads'
  by_cases hin : before size 0 reads < maxHandshakeSize
  · rw [if_pos hin] at hfirst
    rw [if_pos (hiff.mp hin)] at hsecond
    obtain ⟨tail, rest, hread, hleft⟩ := hfirst
    obtain ⟨tail', rest', hread', hleft'⟩ := hsecond
    rw [hread, hread']
    exact ⟨rfl, hleft.trans hleft'.symm⟩
  · rw [if_neg hin] at hfirst
    rw [if_neg fun hin' => hin (hiff.mpr hin')] at hsecond
    obtain ⟨stream, e, hread⟩ := hfirst
    obtain ⟨stream', e', hread'⟩ := hsecond
    rw [hread, hread']
    trivial

/-- In reads of 1024 bytes each, the last of which would begin at the limit, a head is refused; in
the same reads after one of 1023 bytes it is let in. -/
theorem not_agrees_of_head (h : Tungstenite.tryParse bytes = .ok (some (size, req)))
    (hover : maxHandshakeSize < size) (hunder : size < maxHandshakeSize + readSize) :
    ¬ Agrees bytes ending := by
  have hsize : size ≤ bytes.length := LawfulTryParse.size_le h
  have hlimit : maxHandshakeSize = 8 * readSize := rfl
  have hread : readSize = 1024 := rfl
  have hsteps_eq : ∀ j, readSize * j = 1024 * j := fun _ => rfl
  obtain ⟨reads, hreads, hsteps⟩ := exists_cut (m := readSize) (by decide) bytes
  obtain ⟨rest, hrest, hsteps'⟩ := exists_cut (m := readSize) (by decide) (bytes.drop 1023)
  have hfirst : (bytes.take 1023).length = 1023 := by
    rw [List.length_take]
    omega
  have hdropped : (bytes.drop 1023).length = bytes.length - 1023 := List.length_drop
  let chunk : Chunk UInt8 readSize := ⟨bytes.take 1023, by omega, by omega⟩
  have hreads' : joined (chunk :: rest) = bytes := by
    rw [joined_cons, hrest, List.take_append_drop]
  have hout : ¬ before size 0 reads < maxHandshakeSize := by
    obtain ⟨j, hj⟩ := hsteps size 0 (by omega) (by omega)
    rw [hsteps_eq] at hj
    have hle : size ≤ before size 0 reads + readSize := le_before_add (by rw [hreads]; omega)
    omega
  have hin : before size 0 (chunk :: rest) < maxHandshakeSize := by
    have hchunk : chunk.items.length = 1023 := hfirst
    rw [before_cons_of_lt (by omega), hchunk]
    obtain ⟨j, hj⟩ := hsteps' size (0 + 1023) (by omega) (by omega)
    rw [hsteps_eq] at hj
    have hlt : before size (0 + 1023) rest < size := before_lt (by omega)
    omega
  intro hagrees
  have hboth := hagrees reads (chunk :: rest) hreads hreads'
  have hrefused := read_head ending h hreads
  have hlet := read_head ending h hreads'
  rw [if_neg hout] at hrefused
  rw [if_pos hin] at hlet
  obtain ⟨stream, e, hread⟩ := hrefused
  obtain ⟨tail, rest', hread', -⟩ := hlet
  rw [hread, hread'] at hboth
  exact hboth

theorem agrees_of_far (hfar : ∀ size req, Tungstenite.tryParse bytes = .ok (some (size, req)) →
    size ≤ maxHandshakeSize ∨ maxHandshakeSize + readSize ≤ size) : Agrees bytes ending := by
  by_cases hhead : ∃ size req, Tungstenite.tryParse bytes = .ok (some (size, req))
  · obtain ⟨size, req, h⟩ := hhead
    refine agrees_of_head h fun reads reads' hreads hreads' => ?_
    have hsize : size ≤ bytes.length := LawfulTryParse.size_le h
    have hlt : before size 0 reads < size := before_lt (LawfulTryParse.size_pos h)
    have hlt' : before size 0 reads' < size := before_lt (LawfulTryParse.size_pos h)
    have hle : size ≤ before size 0 reads + readSize := le_before_add (by rw [hreads]; omega)
    have hle' : size ≤ before size 0 reads' + readSize := le_before_add (by rw [hreads']; omega)
    have hcase := hfar size req h
    omega
  · have hnone : ∀ size req, Tungstenite.tryParse bytes ≠ .ok (some (size, req)) :=
      fun size req h => hhead ⟨size, req, h⟩
    intro reads reads' hreads hreads'
    obtain ⟨stream, e, hread⟩ := readLoop_headless ending [] hnone hreads
    obtain ⟨stream', e', hread'⟩ := readLoop_headless ending [] hnone hreads'
    rw [readHandshakeRequest, readHandshakeRequest, hread, hread']
    trivial

/-- The outcome does not depend on the splitting, unless the stream starts with a complete head of
more than `MAX_HANDSHAKE_SIZE` bytes that fits in when the last read starts below that size. -/
theorem chunking_agrees_iff (bytes : List UInt8) (ending : Ending) :
    Agrees bytes ending ↔ ∀ size req, Tungstenite.tryParse bytes = .ok (some (size, req)) →
      size ≤ maxHandshakeSize ∨ maxHandshakeSize + readSize ≤ size := by
  constructor
  · intro hagrees size req h
    by_contra hnear
    rw [not_or] at hnear
    exact not_agrees_of_head h (Nat.not_le.mp hnear.1) (Nat.not_le.mp hnear.2) hagrees
  · exact agrees_of_far

/-! ## The answer -/

omit [LawfulTryParse] in
theorem respond_eq_switching {request : Tungstenite.Request} {rest stream : List UInt8}
    {response : Tungstenite.Response}
    (h : respond request rest = .ok (.switching response stream)) :
    Tungstenite.path request = "/ws" ∧ hasUpgradeHeaders request = true ∧
      Tungstenite.createResponse request = .ok response ∧ stream = rest := by
  unfold respond at h
  split at h
  · cases h
  · rename_i hpath
    split at h
    · cases h
    · rename_i hupgrade
      split at h
      · cases h
      · rename_i hresponse
        cases h
        exact ⟨not_not.mp hpath, by simpa using hupgrade, hresponse, rfl⟩

theorem answer_of_head (ending : Ending)
    (h : Tungstenite.tryParse (joined reads) = .ok (some (size, req))) :
    if before size 0 reads < maxHandshakeSize then
      answer ⟨reads, ending⟩ = respond req ((joined reads).drop size)
    else ∃ e, answer ⟨reads, ending⟩ = .error e := by
  have hread := read_head ending h rfl
  unfold answer
  split
  · rename_i hin
    rw [if_pos hin] at hread
    obtain ⟨tail, rest, heq, hleft⟩ := hread
    rw [heq]
    exact congrArg (respond req) hleft
  · rename_i hout
    rw [if_neg hout] at hread
    obtain ⟨stream, e, heq⟩ := hread
    rw [heq]
    exact ⟨e, rfl⟩

theorem answer_of_headless (ending : Ending)
    (h : ∀ size req, Tungstenite.tryParse (joined reads) ≠ .ok (some (size, req))) :
    ∃ e, answer ⟨reads, ending⟩ = .error e := by
  obtain ⟨stream, e, heq⟩ := readLoop_headless ending [] h rfl
  refine ⟨e, ?_⟩
  rw [answer, readHandshakeRequest, heq]

/-- However the stream is split into reads: a head within the limit is answered by what it says, a
stream without a head or with one that is larger by a read is refused, and whoever is upgraded has
asked for it and loses no byte after the head. -/
theorem handshake_answered (reads : List (Chunk UInt8 readSize)) (ending : Ending) :
    (∀ size req, Tungstenite.tryParse (joined reads) = .ok (some (size, req)) →
      size ≤ maxHandshakeSize →
        answer ⟨reads, ending⟩ = respond req ((joined reads).drop size)) ∧
    ((∀ size req, Tungstenite.tryParse (joined reads) = .ok (some (size, req)) →
        maxHandshakeSize + readSize ≤ size) →
      ∃ e, answer ⟨reads, ending⟩ = .error e) ∧
    ∀ response stream, answer ⟨reads, ending⟩ = .ok (.switching response stream) →
      ∃ size req, Tungstenite.tryParse (joined reads) = .ok (some (size, req)) ∧
        Tungstenite.path req = "/ws" ∧ hasUpgradeHeaders req = true ∧
        Tungstenite.createResponse req = .ok response ∧
        stream = (joined reads).drop size := by
  refine ⟨fun size req h hsize => ?_, fun hfar => ?_, fun response stream h => ?_⟩
  · have hlt : before size 0 reads < size := before_lt (LawfulTryParse.size_pos h)
    have hanswer := answer_of_head ending h
    rwa [if_pos (by omega)] at hanswer
  · by_cases hhead : ∃ size req, Tungstenite.tryParse (joined reads) = .ok (some (size, req))
    · obtain ⟨size, req, h⟩ := hhead
      have hle : size ≤ before size 0 reads + readSize :=
        le_before_add (by have := LawfulTryParse.size_le h; omega)
      have hsize := hfar size req h
      have hanswer := answer_of_head ending h
      rwa [if_neg (by omega)] at hanswer
    · exact answer_of_headless ending fun size req h => hhead ⟨size, req, h⟩
  · by_cases hhead : ∃ size req, Tungstenite.tryParse (joined reads) = .ok (some (size, req))
    · obtain ⟨size, req, hparse⟩ := hhead
      have hanswer := answer_of_head ending hparse
      split at hanswer
      · rw [hanswer] at h
        exact ⟨size, req, hparse, respond_eq_switching h⟩
      · obtain ⟨e, he⟩ := hanswer
        rw [he] at h
        cases h
    · obtain ⟨e, he⟩ := answer_of_headless ending fun size req h => hhead ⟨size, req, h⟩
      rw [he] at h
      cases h

end Handshake

def blankLine : List UInt8 := [13, 10, 13, 10]

/-- A head ends with the first blank line. -/
def headSize : List UInt8 → Option Nat
  | [] => none
  | x :: rest => if (x :: rest).take 4 = blankLine then some 4 else (headSize rest).map (· + 1)

def headOf (buf : List UInt8) : Except Unit (Option (Nat × List UInt8)) :=
  match headSize buf with
  | some size => .ok (some (size, buf.take size))
  | none => .ok none

/-- A parser that looks for the end of the head only. -/
@[reducible] def blankLineHttp : Tungstenite where
  Request := List UInt8
  Response := Unit
  Error := Unit
  tryParse := headOf
  path _ := "/ws"
  header _ _ := none
  createResponse _ := .error ()

theorem headSize_bounds {buf : List UInt8} {size : Nat} (h : headSize buf = some size) :
    4 ≤ size ∧ size ≤ buf.length := by
  induction buf generalizing size with
  | nil => cases h
  | cons x rest ih =>
    rw [headSize] at h
    split at h
    · rename_i hend
      cases h
      have hlength := congrArg List.length hend
      rw [List.length_take] at hlength
      have hfour : blankLine.length = 4 := rfl
      omega
    · obtain ⟨size', hrest, rfl⟩ := Option.map_eq_some_iff.mp h
      obtain ⟨hge, hle⟩ := ih hrest
      rw [List.length_cons]
      omega

theorem headSize_of_take {buf buf' : List UInt8} {size : Nat} (h : headSize buf = some size)
    (hsame : buf'.take size = buf.take size) : headSize buf' = some size := by
  induction buf generalizing buf' size with
  | nil => cases h
  | cons x rest ih =>
    have hge := (headSize_bounds h).1
    have hfour : buf'.take 4 = (x :: rest).take 4 := by
      have htake := congrArg (List.take 4) hsame
      rwa [List.take_take, List.take_take, Nat.min_eq_left hge] at htake
    cases buf' with
    | nil => simp at hfour
    | cons y rest' =>
      rw [headSize] at h ⊢
      rw [hfour]
      split at h
      · rename_i hend
        rw [if_pos hend]
        exact h
      · rename_i hmore
        obtain ⟨size', hrest, rfl⟩ := Option.map_eq_some_iff.mp h
        rw [if_neg hmore]
        rw [List.take_succ_cons, List.take_succ_cons, List.cons.injEq] at hsame
        rw [ih hrest hsame.2]
        rfl

theorem headOf_iff {buf : List UInt8} {size : Nat} {req : List UInt8} :
    headOf buf = .ok (some (size, req)) ↔ headSize buf = some size ∧ req = buf.take size := by
  unfold headOf
  cases headSize buf with
  | none => simp
  | some n =>
    simp only [Except.ok.injEq, Option.some.injEq, Prod.mk.injEq]
    constructor
    · rintro ⟨rfl, rfl⟩
      exact ⟨rfl, rfl⟩
    · rintro ⟨rfl, rfl⟩
      exact ⟨rfl, rfl⟩

theorem blankLineHttp_lawful : @LawfulTryParse blankLineHttp := by
  let _ := blankLineHttp
  refine ⟨?_, ?_, ?_, ?_, ?_⟩
  · intro buf size request h
    have hge := (headSize_bounds (headOf_iff.mp h).1).1
    omega
  · intro buf size request h
    exact (headSize_bounds (headOf_iff.mp h).1).2
  · intro buf size request h
    obtain ⟨hsize, rfl⟩ := headOf_iff.mp h
    have htake : (buf.take size).take size = buf.take size := by
      rw [List.take_take, Nat.min_self]
    exact headOf_iff.mpr ⟨headSize_of_take hsize htake, htake.symm⟩
  · intro buf size request more h
    obtain ⟨hsize, rfl⟩ := headOf_iff.mp h
    have htake : (buf ++ more).take size = buf.take size :=
      List.take_append_of_le_length (headSize_bounds hsize).2
    exact headOf_iff.mpr ⟨headSize_of_take hsize htake, htake.symm⟩
  · intro buf e more h
    have herror : headOf buf = .error e := h
    unfold headOf at herror
    split at herror
    · cases herror
    · cases herror

/-! A request with a header of `n` bytes. -/

def ascii (s : String) : List UInt8 := s.toList.map fun c => c.toNat.toUInt8

/-- The header is `X: aaa` and so on. -/
def requestOf (n : Nat) : List UInt8 :=
  ascii "GET /ws HTTP/1.1" ++ 13 :: 10 :: (88 :: 58 :: 32 :: List.replicate n 97 ++ blankLine)

theorem headSize_cons_of_ne {x : UInt8} (hx : x ≠ 13) (l : List UInt8) :
    headSize (x :: l) = (headSize l).map (· + 1) := by
  rw [headSize, if_neg]
  intro hend
  rw [List.take_succ_cons, blankLine, List.cons.injEq] at hend
  exact hx hend.1

theorem headSize_append {l : List UInt8} (hl : 13 ∉ l) {rest : List UInt8} {size : Nat}
    (h : headSize rest = some size) : headSize (l ++ rest) = some (l.length + size) := by
  induction l with
  | nil => rw [List.nil_append, h, List.length_nil, Nat.zero_add]
  | cons x l ih =>
    rw [List.mem_cons, not_or] at hl
    rw [List.cons_append, headSize_cons_of_ne (Ne.symm hl.1), ih hl.2, Option.map_some,
      List.length_cons]
    congr 1
    omega

theorem headSize_requestOf (n : Nat) : headSize (requestOf n) = some (25 + n) := by
  have hheader : 13 ∉ (88 : UInt8) :: 58 :: 32 :: List.replicate n 97 := by
    simp [List.mem_replicate]
  have hend : headSize blankLine = some 4 := rfl
  have hfields := headSize_append hheader hend
  have hline : 13 ∉ ascii "GET /ws HTTP/1.1" := by decide
  have hbreak : headSize (13 :: 10 :: (88 :: 58 :: 32 :: List.replicate n 97 ++ blankLine)) =
      some (9 + n) := by
    rw [headSize, if_neg (by simp [blankLine]), headSize_cons_of_ne (by decide), hfields]
    simp only [Option.map_some, List.length_cons, List.length_replicate, Option.some.injEq]
    omega
  rw [requestOf, headSize_append hline hbreak]
  have hlength : (ascii "GET /ws HTTP/1.1").length = 16 := rfl
  rw [hlength]
  congr 1
  omega

/-- A head of 8200 bytes. -/
theorem near_limit_depends :
    let _ := blankLineHttp
    LawfulTryParse ∧ ¬ Agrees (requestOf 8175) .closed := by
  intro _
  have hlawful : LawfulTryParse := blankLineHttp_lawful
  have hhead : Tungstenite.tryParse (requestOf 8175) =
      .ok (some (8200, (requestOf 8175).take 8200)) :=
    headOf_iff.mpr ⟨headSize_requestOf 8175, rfl⟩
  exact ⟨hlawful, not_agrees_of_head hhead (by decide) (by decide)⟩

/-- A head of 30 bytes. -/
theorem chunking_agrees_iff_short :
    let _ := blankLineHttp
    Agrees (requestOf 5) .closed := by
  intro _
  have hlawful : LawfulTryParse := blankLineHttp_lawful
  refine (chunking_agrees_iff (requestOf 5) .closed).mpr fun size req h => .inl ?_
  have hsize := (headOf_iff.mp h).1
  rw [headSize_requestOf, Option.some.injEq] at hsize
  rw [← hsize]
  decide

theorem handshake_answered_short :
    let _ := blankLineHttp
    ∀ (reads : List (Chunk UInt8 readSize)) (ending : Ending), joined reads = requestOf 5 →
      answer ⟨reads, ending⟩ = .ok .upgradeRequired := by
  intro _ reads ending hreads
  have hlawful : LawfulTryParse := blankLineHttp_lawful
  have hhead : Tungstenite.tryParse (joined reads) =
      .ok (some (30, (requestOf 5).take 30)) := by
    rw [hreads]
    exact headOf_iff.mpr ⟨headSize_requestOf 5, rfl⟩
  rw [(handshake_answered reads ending).1 30 _ hhead (by decide)]
  rfl

end Bloom
end Bakopa
