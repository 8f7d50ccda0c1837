import Mathlib.Data.List.Forall2
import Mathlib.Data.List.Induction
import Mathlib.Data.String.Basic
import Bakopa.Syncer.Messages

/-!
# Bakopa.Syncer.JsonText

The text of `serde_json` as a concrete `SerdeJson`, so that runs on real messages can be evaluated:
the compact form that `to_vec` writes, in UTF-8, and a reader for it.

A float stands by its bits (`~` and a number), which is not JSON: how `serde_json` prints one is
not modelled. `serdeText_envelope` is the round trip.

* `text`, `parseValue` — the writer and the reader of a value. The reader's fuel bounds both the
  depth and the length of lists; the length of the text is enough.
* `parseValue_text` — a written value is read back, by induction on `Lossless`.
-/

namespace Bakopa
namespace Syncer
namespace JsonText

/-- Reads a prefix of the text, and gives the rest. -/
abbrev Parser (α : Type) := List Char → Option (α × List Char)

/-! ## Numbers -/

def digitChar (d : Nat) : Char := Char.ofNat (48 + d)

/-- The decimal digits of a number below `10 ^ width`. -/
def digits : Nat → Nat → List Char
  | 0, _ => []
  | width + 1, n => if n < 10 then [digitChar n] else digits width (n / 10) ++ [digitChar (n % 10)]

/-- Every `u64` has at most 20 digits. -/
def natText (n : Nat) : List Char := digits 20 n

def ofDigits (cs : List Char) : Nat := cs.foldl (fun acc c => 10 * acc + (c.toNat - 48)) 0

def parseNat : Parser Nat := fun cs =>
  match cs.takeWhile Char.isDigit with
  | [] => none
  | ds => some (ofDigits ds, cs.dropWhile Char.isDigit)

/-- No digit follows. -/
def Ends (rest : List Char) : Prop := ∀ c ∈ rest.head?, c.isDigit = false

theorem digitChar_spec : ∀ d < 10, (digitChar d).isDigit = true ∧ (digitChar d).toNat - 48 = d := by
  decide

theorem isDigit_of_mem_digits {width n : Nat} {c : Char} (h : c ∈ digits width n) :
    c.isDigit = true := by
  induction width generalizing n with
  | zero => cases h
  | succ width ih =>
    simp only [digits] at h
    split at h
    · rename_i hn
      rw [List.mem_singleton.mp h]
      exact (digitChar_spec n hn).1
    · rcases List.mem_append.mp h with h | h
      · exact ih h
      · rw [List.mem_singleton.mp h]
        exact (digitChar_spec _ (by omega)).1

theorem ofDigits_digits {width n : Nat} (h : n < 10 ^ width) : ofDigits (digits width n) = n := by
  induction width generalizing n with
  | zero => simp only [Nat.pow_zero] at h; simp [digits, ofDigits]; omega
  | succ width ih =>
    simp only [digits]
    split
    · rename_i hn
      simp [ofDigits, (digitChar_spec n hn).2]
    · have hdiv : n / 10 < 10 ^ width := by
        rw [Nat.pow_succ] at h
        omega
      have hih := ih hdiv
      unfold ofDigits at hih
      simp only [ofDigits, List.foldl_append, hih, List.foldl_cons, List.foldl_nil,
        (digitChar_spec (n % 10) (by omega)).2]
      omega

theorem digits_ne_nil {width n : Nat} : digits (width + 1) n ≠ [] := by
  simp only [digits]
  split <;> simp

theorem isDigit_of_mem_natText {n : Nat} {c : Char} (h : c ∈ natText n) : c.isDigit = true :=
  isDigit_of_mem_digits h

theorem parseNat_natText {n : Nat} {rest : List Char} (hn : n < 10 ^ 20) (h : Ends rest) :
    parseNat (natText n ++ rest) = some (n, rest) := by
  have hall : ∀ c ∈ natText n, c.isDigit = true := fun c hc => isDigit_of_mem_natText hc
  have htake : rest.takeWhile Char.isDigit = [] ∧ rest.dropWhile Char.isDigit = rest := by
    cases rest with
    | nil => exact ⟨rfl, rfl⟩
    | cons c rest =>
      have hc : c.isDigit = false := h c rfl
      simp [hc]
  unfold parseNat
  rw [List.takeWhile_append_of_pos hall, List.dropWhile_append_of_pos hall, htake.1, htake.2,
    List.append_nil]
  split
  · rename_i hnil
    exact absurd hnil digits_ne_nil
  · rw [natText, ofDigits_digits hn]

/-! ## Strings -/

def hexDigit (d : Nat) : Char := if d < 10 then Char.ofNat (48 + d) else Char.ofNat (87 + d)

def hexValue (c : Char) : Nat := if c.isDigit then c.toNat - 48 else c.toNat - 87

/-- The escapes of `serde_json`, and their letters. -/
def escapes : List (Char × Char) :=
  [('"', '"'), ('\\', '\\'), ('\x08', 'b'), ('\t', 't'), ('\n', 'n'), ('\x0c', 'f'), ('\r', 'r')]

def escape (c : Char) : List Char :=
  match escapes.lookup c with
  | some letter => ['\\', letter]
  | none =>
    if c.toNat < 32 then ['\\', 'u', '0', '0', hexDigit (c.toNat / 16), hexDigit (c.toNat % 16)]
    else [c]

def quote (s : String) : List Char := '"' :: (s.toList.flatMap escape ++ ['"'])

def unescapes : List (Char × Char) := escapes.map Prod.swap

/-- The inside of a string, and its closing quote. -/
def parseString : Parser (List Char)
  | '\\' :: 'u' :: '0' :: '0' :: a :: b :: rest =>
    (parseString rest).map fun (cs, rest) =>
      (Char.ofNat (16 * hexValue a + hexValue b) :: cs, rest)
  | '\\' :: letter :: rest =>
    match unescapes.lookup letter with
    | some c => (parseString rest).map fun (cs, rest) => (c :: cs, rest)
    | none => none
  | '"' :: rest => some ([], rest)
  | c :: rest => (parseString rest).map fun (cs, rest) => (c :: cs, rest)
  | [] => none

theorem hexValue_hexDigit : ∀ d < 16, hexValue (hexDigit d) = d := by decide

theorem mem_of_lookup {l : List (Char × Char)} {c letter : Char}
    (h : l.lookup c = some letter) : (c, letter) ∈ l := by
  induction l with
  | nil => cases h
  | cons x l ih =>
    rw [List.lookup_cons] at h
    split at h
    · rename_i hc
      rw [beq_iff_eq] at hc
      cases h
      rw [hc]
      exact List.mem_cons_self
    · exact List.mem_cons_of_mem x (ih h)

theorem parseString_escape (c : Char) (rest : List Char) :
    parseString (escape c ++ rest) =
      (parseString rest).map fun (cs, rest) => (c :: cs, rest) := by
  unfold escape
  split
  · rename_i letter hlook
    have hmem := mem_of_lookup hlook
    simp only [escapes, List.mem_cons, Prod.mk.injEq, List.not_mem_nil, or_false] at hmem
    rcases hmem with ⟨rfl, rfl⟩ | ⟨rfl, rfl⟩ | ⟨rfl, rfl⟩ | ⟨rfl, rfl⟩ | ⟨rfl, rfl⟩ | ⟨rfl, rfl⟩ |
      ⟨rfl, rfl⟩ <;> rfl
  · rename_i hlook
    split
    · rename_i hlow
      have hhi := hexValue_hexDigit (c.toNat / 16) (by omega)
      have hlo := hexValue_hexDigit (c.toNat % 16) (by omega)
      have hc : Char.ofNat (16 * (c.toNat / 16) + c.toNat % 16) = c := by
        rw [Nat.div_add_mod]
        exact Char.ofNat_toNat c
      simp only [List.cons_append, List.nil_append, parseString, hhi, hlo, hc]
    · have hquote : c ≠ '"' := by rintro rfl; cases hlook
      have hslash : c ≠ '\\' := by rintro rfl; cases hlook
      rw [List.singleton_append, parseString.eq_def]
      split <;> simp_all

theorem parseString_quote (s : String) (rest : List Char) :
    parseString (s.toList.flatMap escape ++ '"' :: rest) = some (s.toList, rest) := by
  induction s.toList with
  | nil => rfl
  | cons c cs ih => rw [List.flatMap_cons, List.append_assoc, parseString_escape, ih]; rfl

/-! ## Lists -/

/-- The inside of an array or a map, and its closing bracket. -/
def listText (close : Char) : List (List Char) → List Char
  | [] => [close]
  | [t] => t ++ [close]
  | t :: ts => t ++ ',' :: listText close ts

def parseSeq {α : Type} (p : Parser α) (close : Char) : Nat → Parser (List α)
  | 0, _ => none
  | fuel + 1, cs =>
    match p cs with
    | some (x, c :: rest) =>
      if c = ',' then (parseSeq p close fuel rest).map fun (xs, rest) => (x :: xs, rest)
      else if c = close then some ([x], rest)
      else none
    | _ => none

def parseList {α : Type} (p : Parser α) (close : Char) (fuel : Nat) : Parser (List α)
  | c :: rest => if c = close then some ([], rest) else parseSeq p close fuel (c :: rest)
  | [] => none

/-- `p` reads `x` from the text `t`, whatever ends the value. -/
def Reads {α : Type} (p : Parser α) (x : α) (t : List Char) : Prop :=
  ∀ rest, Ends rest → p (t ++ rest) = some (x, rest)

theorem length_le_listText (close : Char) (ts : List (List Char)) :
    (∀ t ∈ ts, t.length < (listText close ts).length) ∧
    ts.length ≤ (listText close ts).length := by
  induction ts with
  | nil => simp
  | cons t ts ih =>
    cases ts with
    | nil => simp [listText]
    | cons u us =>
      obtain ⟨hmem, hlen⟩ := ih
      simp only [listText, List.length_append, List.length_cons] at hlen ⊢
      refine ⟨?_, by omega⟩
      intro v hv
      rcases List.mem_cons.mp hv with rfl | hv
      · omega
      · have := hmem v hv
        omega

theorem parseSeq_listText {α : Type} {p : Parser α} {close : Char} {xs : List α}
    {ts : List (List Char)} (hclose : close ≠ ',' ∧ close.isDigit = false)
    (h : List.Forall₂ (Reads p) xs ts) (hne : ts ≠ []) (fuel : Nat) (hfuel : ts.length ≤ fuel)
    (rest : List Char) : parseSeq p close fuel (listText close ts ++ rest) = some (xs, rest) := by
  induction h generalizing fuel with
  | nil => exact absurd rfl hne
  | @cons x t xs ts hx hxs ih =>
    cases fuel with
    | zero => simp at hfuel
    | succ fuel =>
      cases ts with
      | nil =>
        cases hxs
        have hread := hx (close :: rest) (by intro c hc; cases hc; exact hclose.2)
        simp [listText, parseSeq, hread, hclose.1]
      | cons u us =>
        have hread := hx (',' :: (listText close (u :: us) ++ rest)) (by
          intro c hc; cases hc; rfl)
        have hih := ih (by simp) fuel (by simpa using hfuel)
        simp only [listText, parseSeq, List.append_assoc, List.cons_append, hread, if_true, hih,
          Option.map_some]

theorem parseList_listText {α : Type} {p : Parser α} (close : Char) {xs : List α}
    {ts : List (List Char)} (hclose : close ≠ ',' ∧ close.isDigit = false)
    (h : List.Forall₂ (Reads p) xs ts) (hhead : ∀ t ∈ ts, ∃ c cs, t = c :: cs ∧ c ≠ close)
    (fuel : Nat) (hfuel : ts.length ≤ fuel) (rest : List Char) :
    parseList p close fuel (listText close ts ++ rest) = some (xs, rest) := by
  cases ts with
  | nil =>
    cases h
    simp [listText, parseList]
  | cons t ts =>
    have hseq := parseSeq_listText hclose h (by simp) fuel hfuel rest
    obtain ⟨c, cs, rfl, hc⟩ := hhead t List.mem_cons_self
    have hcons : ∃ cs', listText close ((c :: cs) :: ts) ++ rest = c :: cs' := by
      cases ts with
      | nil => exact ⟨_, rfl⟩
      | cons u us => exact ⟨_, rfl⟩
    obtain ⟨cs', hcs'⟩ := hcons
    rw [hcs'] at hseq ⊢
    simp only [parseList, if_neg hc, hseq]

/-! ## Values -/

mutual

def text : JsonValue → List Char
  | .null => "null".toList
  | .bool true => "true".toList
  | .bool false => "false".toList
  | .number (.posInt n) => natText n.toNat
  | .number (.negInt n) => '-' :: natText n.toInt.natAbs
  | .number (.float x) => '~' :: natText x.toNat
  | .string s => quote s
  | .array items => '[' :: listText ']' (texts items)
  | .object fields => '{' :: listText '}' (fieldTexts fields)

def texts : List JsonValue → List (List Char)
  | [] => []
  | v :: vs => text v :: texts vs

def fieldTexts : List (String × JsonValue) → List (List Char)
  | [] => []
  | (key, v) :: fields => (quote key ++ ':' :: text v) :: fieldTexts fields

end

/-- `BTreeMap::insert` -/
def insertField (key : String) (v : JsonValue) :
    List (String × JsonValue) → List (String × JsonValue)
  | [] => [(key, v)]
  | (key', v') :: fields =>
    if key < key' then (key, v) :: (key', v') :: fields
    else if key = key' then (key, v) :: fields
    else (key', v') :: insertField key v fields

def collect (fields : List (String × JsonValue)) : List (String × JsonValue) :=
  fields.foldl (fun acc f => insertField f.1 f.2 acc) []

def parseField (p : Parser JsonValue) : Parser (String × JsonValue)
  | '"' :: cs =>
    match parseString cs with
    | some (key, ':' :: rest) => (p rest).map fun (v, rest) => ((String.ofList key, v), rest)
    | _ => none
  | _ => none

def parseValue : Nat → Parser JsonValue
  | 0, _ => none
  | fuel + 1, cs =>
    match cs with
    | 'n' :: 'u' :: 'l' :: 'l' :: rest => some (.null, rest)
    | 't' :: 'r' :: 'u' :: 'e' :: rest => some (.bool true, rest)
    | 'f' :: 'a' :: 'l' :: 's' :: 'e' :: rest => some (.bool false, rest)
    | '"' :: rest => (parseString rest).map fun (cs, rest) => (.string (String.ofList cs), rest)
    | '-' :: rest =>
      (parseNat rest).map fun (n, rest) => (.number (.negInt (Int64.ofInt (-n))), rest)
    | '~' :: rest =>
      (parseNat rest).map fun (n, rest) => (.number (.float (BitVec.ofNat 64 n)), rest)
    | '[' :: rest =>
      (parseList (parseValue fuel) ']' fuel rest).map fun (items, rest) => (.array items, rest)
    | '{' :: rest =>
      (parseList (parseField (parseValue fuel)) '}' fuel rest).map fun (fields, rest) =>
        (.object (collect fields), rest)
    | cs => (parseNat cs).map fun (n, rest) => (.number (.posInt (UInt64.ofNat n)), rest)

theorem texts_eq (items : List JsonValue) : texts items = items.map text := by
  induction items with
  | nil => rfl
  | cons v vs ih => rw [texts, ih, List.map_cons]

theorem fieldTexts_eq (fields : List (String × JsonValue)) :
    fieldTexts fields = fields.map fun f => quote f.1 ++ ':' :: text f.2 := by
  induction fields with
  | nil => rfl
  | cons f fields ih => rw [fieldTexts, ih, List.map_cons]

theorem natText_head (n : Nat) : ∃ c cs, natText n = c :: cs ∧ c.isDigit = true := by
  cases h : natText n with
  | nil => exact absurd h digits_ne_nil
  | cons c cs =>
    refine ⟨c, cs, rfl, isDigit_of_mem_natText (n := n) ?_⟩
    rw [h]
    exact List.mem_cons_self

theorem text_head (v : JsonValue) : ∃ c cs, text v = c :: cs ∧ c ≠ ']' := by
  cases v with
  | null => exact ⟨'n', _, rfl, by decide⟩
  | bool b =>
    cases b with
    | true => exact ⟨'t', _, rfl, by decide⟩
    | false => exact ⟨'f', _, rfl, by decide⟩
  | number n =>
    cases n with
    | posInt n =>
      obtain ⟨c, cs, h, hc⟩ := natText_head n.toNat
      exact ⟨c, cs, h, by rintro rfl; cases hc⟩
    | negInt n => exact ⟨'-', _, rfl, by decide⟩
    | float x => exact ⟨'~', _, rfl, by decide⟩
  | string s => exact ⟨'"', _, rfl, by decide⟩
  | array items => exact ⟨'[', _, rfl, by decide⟩
  | object fields => exact ⟨'{', _, rfl, by decide⟩

theorem parseValue_digit {c : Char} (hc : c.isDigit = true) (fuel : Nat) (cs : List Char) :
    parseValue (fuel + 1) (c :: cs) =
      (parseNat (c :: cs)).map fun (n, rest) => (.number (.posInt (UInt64.ofNat n)), rest) := by
  simp only [parseValue]
  split <;> first | rfl | (rename_i h; cases h; cases hc)

theorem insertField_last {key : String} {v : JsonValue} {fields : List (String × JsonValue)}
    (h : ∀ f ∈ fields, f.1 < key) : insertField key v fields = fields ++ [(key, v)] := by
  induction fields with
  | nil => rfl
  | cons f fields ih =>
    have hlt : f.1 < key := h f List.mem_cons_self
    have hih := ih fun f' hf' => h f' (List.mem_cons_of_mem f hf')
    simp only [insertField, if_neg (lt_asymm hlt), if_neg (ne_of_gt hlt), hih, List.cons_append]

theorem collect_eq {fields : List (String × JsonValue)}
    (h : (fields.map Prod.fst).Pairwise (· < ·)) : collect fields = fields := by
  induction fields using List.reverseRecOn with
  | nil => rfl
  | append_singleton fields f ih =>
    rw [List.map_append, List.pairwise_append] at h
    obtain ⟨hfields, -, hlast⟩ := h
    have hih := ih hfields
    unfold collect at hih
    simp only [collect, List.foldl_append, hih, List.foldl_cons, List.foldl_nil]
    refine insertField_last fun f' hf' => ?_
    exact hlast f'.1 (List.mem_map_of_mem hf') f.1 (by simp)

theorem parseField_text {p : Parser JsonValue} {key : String} {v : JsonValue}
    (h : Reads p v (text v)) : Reads (parseField p) (key, v) (quote key ++ ':' :: text v) := by
  intro rest hrest
  have hkey := parseString_quote key (':' :: (text v ++ rest))
  simp only [quote, List.cons_append, List.append_assoc, List.nil_append, parseField, hkey,
    h rest hrest, Option.map_some, String.ofList_toList]

theorem parseValue_object (fields : List (String × JsonValue)) (fuel : Nat)
    (hfuel : (listText '}' (fieldTexts fields)).length ≤ fuel)
    (h : ∀ f ∈ fields, (text f.2).length ≤ fuel → Reads (parseValue fuel) f.2 (text f.2)) :
    Reads (parseValue (fuel + 1)) (.object (collect fields)) (text (.object fields)) := by
  intro rest hrest
  rw [fieldTexts_eq] at hfuel
  obtain ⟨hfields, hlen⟩ := length_le_listText '}'
    (fields.map fun f => quote f.1 ++ ':' :: text f.2)
  have hreads : List.Forall₂ (Reads (parseField (parseValue fuel))) fields
      (fields.map fun f => quote f.1 ++ ':' :: text f.2) := by
    rw [List.forall₂_map_right_iff, List.forall₂_same]
    intro f hf
    have hlt := hfields _ (List.mem_map_of_mem hf)
    rw [List.length_append, List.length_cons] at hlt
    exact parseField_text (h f hf (by omega))
  have hlist := parseList_listText '}' ⟨by decide, by decide⟩ hreads (by
    intro t ht
    obtain ⟨f, -, rfl⟩ := List.mem_map.mp ht
    exact ⟨'"', _, rfl, by decide⟩) fuel (by omega) rest
  simp only [text, fieldTexts_eq, List.cons_append, parseValue, hlist, Option.map_some]

theorem parseValue_text {v : JsonValue} (h : v.Lossless) :
    ∀ fuel, (text v).length ≤ fuel → Reads (parseValue fuel) v (text v) := by
  have pos : ∀ (v : JsonValue) fuel, (text v).length ≤ fuel → ∃ n, fuel = n + 1 := by
    intro v fuel hfuel
    obtain ⟨c, cs, hv, -⟩ := text_head v
    rw [hv, List.length_cons] at hfuel
    exact ⟨fuel - 1, by omega⟩
  induction h with
  | null => intro fuel hfuel rest hrest; obtain ⟨n, rfl⟩ := pos _ fuel hfuel; rfl
  | bool b =>
    intro fuel hfuel rest hrest
    obtain ⟨n, rfl⟩ := pos _ fuel hfuel
    cases b <;> rfl
  | uint n =>
    intro fuel hfuel rest hrest
    obtain ⟨fuel, rfl⟩ := pos _ fuel hfuel
    have hn : n.toNat < 10 ^ 20 := lt_trans n.toNat_lt (by decide)
    have hnat := parseNat_natText hn hrest
    obtain ⟨c, cs, htext, hc⟩ := natText_head n.toNat
    rw [htext, List.cons_append] at hnat
    simp only [JsonValue.uint, text, htext, List.cons_append, parseValue_digit hc, hnat,
      Option.map_some, UInt64.ofNat_toNat]
  | @negInt n hn =>
    intro fuel hfuel rest hrest
    obtain ⟨fuel, rfl⟩ := pos _ fuel hfuel
    have hneg : n.toInt < 0 := Int64.lt_iff_toInt_lt.mp hn
    have hlow := n.le_toInt
    have habs : n.toInt.natAbs < 10 ^ 20 := by omega
    have hback : -(n.toInt.natAbs : Int) = n.toInt := by omega
    simp only [text, List.cons_append, parseValue, parseNat_natText habs hrest, Option.map_some,
      hback, Int64.ofInt_toInt]
  | @float x hx =>
    intro fuel hfuel rest hrest
    obtain ⟨fuel, rfl⟩ := pos _ fuel hfuel
    have hn : x.toNat < 10 ^ 20 := lt_trans x.isLt (by decide)
    simp only [text, List.cons_append, parseValue, parseNat_natText hn hrest, Option.map_some,
      BitVec.ofNat_toNat, BitVec.setWidth_eq]
  | string s =>
    intro fuel hfuel rest hrest
    obtain ⟨fuel, rfl⟩ := pos _ fuel hfuel
    simp only [text, quote, List.cons_append, List.append_assoc, List.nil_append, parseValue,
      parseString_quote, Option.map_some, String.ofList_toList]
  | @array items _ ih =>
    intro fuel hfuel rest hrest
    obtain ⟨fuel, rfl⟩ := pos _ fuel hfuel
    simp only [text, List.length_cons, texts_eq] at hfuel
    obtain ⟨hitems, hlen⟩ := length_le_listText ']' (items.map text)
    have hreads : List.Forall₂ (Reads (parseValue fuel)) items (items.map text) := by
      rw [List.forall₂_map_right_iff, List.forall₂_same]
      intro v hv
      have := hitems (text v) (List.mem_map_of_mem hv)
      exact ih v hv fuel (by omega)
    have hlist := parseList_listText ']' ⟨by decide, by decide⟩ hreads (by
      intro t ht
      obtain ⟨v, -, rfl⟩ := List.mem_map.mp ht
      exact text_head v) fuel (by omega) rest
    simp only [text, texts_eq, List.cons_append, parseValue, hlist, Option.map_some]
  | @object fields hkeys _ ih =>
    intro fuel hfuel
    obtain ⟨fuel, rfl⟩ := pos _ fuel hfuel
    have hobject := parseValue_object fields fuel (by simpa [text] using hfuel) fun f hf hlen =>
      ih f hf fuel hlen
    rwa [collect_eq hkeys] at hobject

/-! ## The instance -/

/-- An envelope as the derived `Serialize` writes it: the fields in the order of the struct. -/
def envelopeText (env : SyncMessageEnvelope) : List Char :=
  text (.object [
    ("v", .uint env.version.toUInt64),
    ("kind", .string env.kind.asStr),
    ("body", env.body)])

def fromSlice (bytes : List UInt8) : Option JsonValue :=
  match bytes.toByteArray.utf8Decode? with
  | none => none
  | some cs =>
    match parseValue cs.size cs.toList with
    | some (v, []) => some v
    | _ => none

/-- Not finite. -/
def f32ToValue (x : F32) : JsonValue :=
  if x.extractLsb' 23 8 = BitVec.allOnes 8 then .null else .number (.float (x.zeroExtend 64))

def f32FromNumber : JsonNumber → F32
  | .float x => x.truncate 32
  | _ => 0

@[reducible] def serdeText : SerdeJson where
  fromSlice := fromSlice
  toVec env := (envelopeText env).flatMap String.utf8EncodeChar
  f32ToValue := f32ToValue
  f32FromNumber := f32FromNumber

theorem collect_envelope (version kind body : JsonValue) :
    collect [("v", version), ("kind", kind), ("body", body)] =
      [("body", body), ("kind", kind), ("v", version)] := by
  have h₁ : "kind" < "v" := by decide
  have h₂ : "body" < "kind" := by decide
  simp [collect, insertField, h₁, h₂]

theorem serdeText_envelope (env : SyncMessageEnvelope) (hbody : env.body.Lossless) :
    serdeText.fromSlice (serdeText.toVec env) = some env.toValue := by
  have htext : parseValue (envelopeText env).length (envelopeText env) =
      some (env.toValue, []) := by
    have hlen : ∃ fuel, (envelopeText env).length = fuel + 1 := ⟨_, rfl⟩
    obtain ⟨fuel, hfuel⟩ := hlen
    have hobject := parseValue_object [("v", .uint env.version.toUInt64),
      ("kind", .string env.kind.asStr), ("body", env.body)] fuel
      (by simp only [envelopeText, text, List.length_cons] at hfuel; omega) (by
        intro f hf hlen
        simp only [List.mem_cons, List.not_mem_nil, or_false] at hf
        rcases hf with rfl | rfl | rfl
        · exact parseValue_text (.uint _) fuel hlen
        · exact parseValue_text (.string _) fuel hlen
        · exact parseValue_text hbody fuel hlen)
    have hread := hobject [] (by intro c hc; cases hc)
    rw [List.append_nil, collect_envelope] at hread
    rw [hfuel]
    exact hread
  have hbytes : ((envelopeText env).flatMap String.utf8EncodeChar).toByteArray.utf8Decode? =
      some (envelopeText env).toArray := List.utf8Decode?_utf8Encode
  change fromSlice ((envelopeText env).flatMap String.utf8EncodeChar) = _
  simp only [fromSlice, hbytes, List.size_toArray, htext]

end JsonText
end Syncer
end Bakopa
