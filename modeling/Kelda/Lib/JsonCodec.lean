import Kelda.Lib.Json
import Kelda.Lib.StringMap

/-! Decoding JSON values into typed data, as the reflection of the language does
it. A value of a wrong type is skipped and decoding goes on; a type that decodes
itself may refuse a value, and then decoding stops where it is. Either way what
has been decoded so far stays in place. -/
namespace Json

open StringKeyed

/-- How decoding has gone. -/
inductive Status where
  | ok
  /-- Some value had a wrong type. -/
  | mismatch
  | stopped
deriving DecidableEq

def Status.and : Status → Status → Status
  | .ok, st => st
  | .mismatch, .stopped => .stopped
  | .mismatch, _ => .mismatch
  | .stopped, _ => .stopped

/-- Decode a value over what is there before. -/
abbrev Decoder (α : Type) := Json → α → α × Status

namespace Decoder

variable {α σ : Type}

def string : Decoder String
  | .str s, _ => (s, .ok)
  | .null, a => (a, .ok)
  | _, a => (a, .mismatch)

def bool : Decoder Bool
  | .bool b, _ => (b, .ok)
  | .null, a => (a, .ok)
  | _, a => (a, .mismatch)

/-- A literal that is an integer of 64 bits. -/
def readInt64 (literal : List Char) : Option Int :=
  (Text.readInt literal).filter (fun n => -2 ^ 63 ≤ n ∧ n < 2 ^ 63)

def int : Decoder Int
  | .num literal, a =>
    match readInt64 literal with
    | some n => (n, .ok)
    | none => (a, .mismatch)
  | .null, a => (a, .ok)
  | _, a => (a, .mismatch)

/-- A type that decodes itself. -/
def custom (read : Json → Option α) : Decoder α := fun v a =>
  match read v with
  | some a => (a, .ok)
  | none => (a, .stopped)

/-- Decode the parts of a value one after another, until one of them stops. -/
def decodeAll {β : Type} (step : β → σ → σ × Status) : List β → σ → σ × Status
  | [], s => (s, .ok)
  | b :: bs, s =>
    match step b s with
    | (s, .stopped) => (s, .stopped)
    | (s, st) => ((decodeAll step bs s).1, st.and (decodeAll step bs s).2)

/-- The elements are decoded from scratch. The last one may be incomplete. -/
def slice (zero : α) (elem : Decoder α) : Decoder (List α)
  | .arr vs, _ => decodeAll (fun v as => ((as ++ [(elem v zero).1]), (elem v zero).2)) vs []
  | .null, _ => ([], .ok)
  | _, as => (as, .mismatch)

/-- Entries are added to those that are there. One that stops is not added. -/
def map (zero : α) (elem : Decoder α) : Decoder (Finmap (fun _ : String => α))
  | .obj fs, m =>
    decodeAll (fun f m =>
      match elem f.2 zero with
      | (_, .stopped) => (m, .stopped)
      | (a, st) => (m.insert f.1 a, st)) fs m
  | .null, _ => (∅, .ok)
  | _, m => (m, .mismatch)

/-- A field of a structure. -/
structure StructField (σ : Type) where
  name : String
  decode : Decoder σ

def StructField.of (name : String) (get : σ → α) (set : α → σ → σ) (elem : Decoder α) :
    StructField σ where
  name := name
  decode := fun v s => (set (elem v (get s)).1 s, (elem v (get s)).2)

/-- Letters in upper case, with the two other characters that fold to one. -/
def foldChar (c : Char) : Char :=
  if c = Char.ofNat 0x17F then 'S' else if c = Char.ofNat 0x212A then 'K' else c.toUpper

def foldName (name : String) : List Char := name.toList.map foldChar

/-- The field of a key: one of this name, or else one of this name up to case. -/
def findField (fields : List (StructField σ)) (key : String) : Option (StructField σ) :=
  match fields.find? (fun f => f.name = key) with
  | some f => some f
  | none => fields.find? (fun f => foldName f.name = foldName key)

/-- Keys without a field are skipped. -/
def decodeField (fields : List (StructField σ)) (f : String × Json) (s : σ) : σ × Status :=
  match findField fields f.1 with
  | some field => field.decode f.2 s
  | none => (s, .ok)

def struct (fields : List (StructField σ)) : Decoder σ
  | .obj fs, s => decodeAll (decodeField fields) fs s
  | .null, s => (s, .ok)
  | _, s => (s, .mismatch)

end Decoder

/-- Why a text could not be decoded. -/
inductive UnmarshalError where
  | syntaxError
  | typeError
  | custom
deriving DecidableEq

/-- Decode a text. One that is not JSON leaves the data as it was. -/
def unmarshal {α : Type} (decode : Decoder α) (zero : α) (s : String) :
    α × Option UnmarshalError :=
  match parse s with
  | none => (zero, some .syntaxError)
  | some v =>
    match decode v zero with
    | (a, .ok) => (a, none)
    | (a, .mismatch) => (a, some .typeError)
    | (a, .stopped) => (a, some .custom)

/-- What has been decoded stays in place, whether there is an error or not. -/
theorem unmarshal_fst {α : Type} (decode : Decoder α) (zero : α) (s : String) :
    (unmarshal decode zero s).1 = (parse s).elim zero (fun v => (decode v zero).1) := by
  rw [unmarshal]
  cases parse s with
  | none => rfl
  | some v =>
      dsimp only [Option.elim]
      cases decode v zero with
      | mk a st => cases st <;> rfl

section Kept

open Decoder

variable {σ β : Type} {P : σ → Prop}

/-- What every part leaves alone is left alone. -/
theorem decodeAll_keeps {step : β → σ → σ × Status} (hStep : ∀ b s, P s → P (step b s).1)
    (bs : List β) {s : σ} (h : P s) : P (decodeAll step bs s).1 := by
  induction bs generalizing s with
  | nil => exact h
  | cons b bs ih =>
      have hFirst := hStep b s h
      rw [decodeAll]
      split
      · next s' hEq =>
          rw [hEq] at hFirst
          exact hFirst
      · next s' st hNe hEq =>
          rw [hEq] at hFirst
          exact ih hFirst

theorem struct_keeps {fields : List (StructField σ)}
    (hFields : ∀ field ∈ fields, ∀ v s, P s → P (field.decode v s).1) (v : Json) {s : σ}
    (h : P s) : P (struct fields v s).1 := by
  cases v with
  | obj fs =>
      refine decodeAll_keeps (fun f s hs => ?_) fs h
      rw [decodeField]
      split
      · next field hFind =>
          refine hFields field ?_ f.2 s hs
          rw [findField] at hFind
          split at hFind
          · next f' hName => exact Option.some.inj hFind ▸ List.mem_of_find?_eq_some hName
          · exact List.mem_of_find?_eq_some hFind
      · exact hs
  | null | bool | num | str | arr => exact h

theorem unmarshal_keeps {decode : Decoder σ} (hDecode : ∀ v s, P s → P (decode v s).1)
    {zero : σ} (h : P zero) (text : String) : P (unmarshal decode zero text).1 := by
  rw [unmarshal_fst]
  cases parse text with
  | none => exact h
  | some v => exact hDecode v zero h

end Kept

section Encoders

/-- A slice without elements is nil. -/
def ofSlice (elems : List Json) : Json := if elems.isEmpty then .null else .arr elems

def ofInt (n : Int) : Json := .num n.repr.toList

def ofMap {α : Type} (elem : α → Json) (m : Finmap (fun _ : String => α)) : Json :=
  .obj ((sortedEntries m).map (fun e => (e.1, elem e.2)))

end Encoders

/-- How a type is written and read. What is written can be printed. -/
structure Codec (α : Type) where
  zero : α
  /-- A field with such a value may be left out. -/
  isEmpty : α → Bool
  encode : α → Json
  decode : Decoder α
  printable : ∀ a, Printable (encode a)

/-- A field of a structure, with the members of an object that are written for it. -/
structure Member (σ : Type) extends Decoder.StructField σ where
  write : σ → List (String × Json)
  printable : ∀ s, ∀ f ∈ write s, Printable f.2

/-- A field that is left out if it is empty. -/
def Member.of {α σ : Type} (name : String) (get : σ → α) (set : α → σ → σ) (codec : Codec α) :
    Member σ where
  toStructField := .of name get set codec.decode
  write := fun s => if codec.isEmpty (get s) then [] else [(name, codec.encode (get s))]
  printable := by
    intro s f hf
    split_ifs at hf
    · cases hf
    · rw [List.mem_singleton.mp hf]
      exact codec.printable (get s)

namespace Codec

variable {α β σ : Type}

def string : Codec String := ⟨"", (· = ""), .str, Decoder.string, .str⟩

def bool : Codec Bool := ⟨false, (!·), .bool, Decoder.bool, .bool⟩

def int : Codec Int := ⟨0, (· = 0), ofInt, Decoder.int, fun n => .num (isLiteral_int n)⟩

def slice (elem : Codec α) : Codec (List α) where
  zero := []
  isEmpty := List.isEmpty
  encode := fun xs => ofSlice (xs.map elem.encode)
  decode := Decoder.slice elem.zero elem.decode
  printable := by
    intro xs
    rw [ofSlice]
    split_ifs
    · exact .null
    · refine .arr (fun v hv => ?_)
      obtain ⟨x, -, rfl⟩ := List.mem_map.mp hv
      exact elem.printable x

def map [DecidableEq α] (elem : Codec α) : Codec (Finmap (fun _ : String => α)) where
  zero := ∅
  isEmpty := (· = ∅)
  encode := ofMap elem.encode
  decode := Decoder.map elem.zero elem.decode
  printable := by
    refine fun m => .obj (fun f hf => ?_)
    obtain ⟨e, -, rfl⟩ := List.mem_map.mp hf
    exact elem.printable e.2

/-- A structure is never empty. -/
def struct (zero : σ) (members : List (Member σ)) : Codec σ where
  zero := zero
  isEmpty := fun _ => false
  encode := fun s => .obj (members.flatMap (fun m => m.write s))
  decode := Decoder.struct (members.map Member.toStructField)
  printable := by
    refine fun s => .obj (fun f hf => ?_)
    obtain ⟨m, -, hf⟩ := List.mem_flatMap.mp hf
    exact m.printable s f hf

/-- The same, but nothing is left out. -/
def always (codec : Codec α) : Codec α := { codec with isEmpty := fun _ => false }

end Codec

section RoundTrip

open Decoder

variable {α β σ : Type}

theorem int_ofInt {n : Int} (hMin : -2 ^ 63 ≤ n) (hMax : n < 2 ^ 63) (a : Int) :
    Decoder.int (ofInt n) a = (n, .ok) := by
  have hRange : decide (-2 ^ 63 ≤ n ∧ n < 2 ^ 63) = true := decide_eq_true ⟨hMin, hMax⟩
  simp only [ofInt, Decoder.int, readInt64, Text.readInt_repr, Option.filter, hRange, if_true]

theorem decodeAll_cons {step : β → σ → σ × Status} {b : β} {s s' : σ}
    (h : step b s = (s', .ok)) (bs : List β) :
    decodeAll step (b :: bs) s = decodeAll step bs s' := by
  rw [decodeAll, h]
  rfl

theorem slice_ofSlice {zero : α} {elem : Decoder α} {enc : β → Json} {f : β → α} {xs : List β}
    (h : ∀ x ∈ xs, elem (enc x) zero = (f x, .ok)) (prior : List α) :
    slice zero elem (ofSlice (xs.map enc)) prior = (xs.map f, .ok) := by
  have hAll : ∀ done : List α,
      decodeAll (fun v as => (as ++ [(elem v zero).1], (elem v zero).2)) (xs.map enc) done =
        (done ++ xs.map f, .ok) := by
    induction xs with
    | nil => simp [decodeAll]
    | cons x xs ih =>
        intro done
        have hFirst : (done ++ [(elem (enc x) zero).1], (elem (enc x) zero).2) =
            (done ++ [f x], .ok) := by rw [h x (List.mem_cons_self ..)]
        rw [List.map_cons, decodeAll_cons hFirst,
          ih (fun y hy => h y (List.mem_cons_of_mem _ hy)), List.append_assoc]
        rfl
  cases xs with
  | nil => rfl
  | cons x xs => exact hAll []

/-- The decoded entries of a map are the map. -/
theorem map_ofMap {zero : α} {elem : Decoder α} {enc : α → Json}
    {m : Finmap (fun _ : String => α)}
    (h : ∀ key a, m.lookup key = some a → elem (enc a) zero = (a, .ok)) :
    Decoder.map zero elem (ofMap enc m) ∅ = (m, .ok) := by
  have hAll : ∀ (es : List (String × α)) (m' : Finmap (fun _ : String => α)),
      (∀ e ∈ es, elem (enc e.2) zero = (e.2, .ok)) →
      Decoder.map zero elem (.obj (es.map (fun e => (e.1, enc e.2)))) m' =
        (es.foldl (fun m e => m.insert e.1 e.2) m', .ok) := by
    intro es
    induction es with
    | nil => exact fun _ _ => rfl
    | cons e es ih =>
        intro m' he
        rw [List.map_cons, Decoder.map, decodeAll_cons]
        · exact ih _ (fun e he' => he e (List.mem_cons_of_mem _ he'))
        · rw [he e (List.mem_cons_self ..)]
  rw [ofMap, hAll _ _ (fun e he => h e.1 e.2 (mem_sortedEntries.mp he))]
  refine congrArg (fun m => (m, Status.ok)) ?_
  apply Finmap.ext_lookup
  intro key
  apply Option.ext
  intro a
  rw [lookup_foldl_insert (nodup_sortedEntries m)]
  constructor
  · rintro ⟨e, he, rfl, rfl⟩
    exact mem_sortedEntries.mp he
  · intro hLookup
    exact ⟨(key, a), mem_sortedEntries.mpr hLookup, rfl, rfl⟩

/-- The value is read as it was written, also if it was left out. -/
structure Codec.Returns (codec : Codec α) (a : α) : Prop where
  read : codec.decode (codec.encode a) codec.zero = (a, .ok)
  empty : codec.isEmpty a = true → a = codec.zero

namespace Codec.Returns

theorem string (s : String) : Codec.string.Returns s := ⟨rfl, of_decide_eq_true⟩

theorem bool (b : Bool) : Codec.bool.Returns b := ⟨rfl, (Bool.not_eq_true' b).mp⟩

theorem int {n : Int} (h : -2 ^ 63 ≤ n ∧ n < 2 ^ 63) : Codec.int.Returns n :=
  ⟨int_ofInt h.1 h.2 0, of_decide_eq_true⟩

theorem slice {elem : Codec α} {xs : List α} (h : ∀ x ∈ xs, elem.Returns x) :
    elem.slice.Returns xs where
  read := by
    have hRead := slice_ofSlice (fun x hx => (h x hx).read) []
    rwa [List.map_id'] at hRead
  empty := List.isEmpty_iff.mp

theorem map [DecidableEq α] {elem : Codec α} {m : Finmap (fun _ : String => α)}
    (h : ∀ key a, m.lookup key = some a → elem.Returns a) : elem.map.Returns m :=
  ⟨map_ofMap (fun key a hLookup => (h key a hLookup).read), of_decide_eq_true⟩

theorem always {codec : Codec α} {a : α} (h : codec.Returns a) : codec.always.Returns a :=
  ⟨h.read, Bool.noConfusion⟩

end Codec.Returns

/-- The members that are written for some fields of a structure are decoded. -/
def Reads (members todo : List (Member σ)) (s t t' : σ) : Prop :=
  decodeAll (decodeField (members.map Member.toStructField))
    (todo.flatMap (fun m => m.write s)) t = (t', .ok)

theorem Reads.nil {members : List (Member σ)} (s t : σ) : Reads members [] s t t := rfl

theorem Reads.read {members : List (Member σ)} {zero s s' : σ}
    (h : Reads members members s zero s') :
    (Codec.struct zero members).decode ((Codec.struct zero members).encode s) zero = (s', .ok) := h

theorem Reads.returns {members : List (Member σ)} {zero s : σ}
    (h : Reads members members s zero s) : (Codec.struct zero members).Returns s :=
  ⟨h, Bool.noConfusion⟩

/-- A field is filled with what was written. One that was left out keeps its zero
value. -/
theorem Reads.field {members todo : List (Member σ)} {name : String} {get : σ → α}
    {set : α → σ → σ} {codec : Codec α} {s t t' : σ}
    (hField : findField (members.map Member.toStructField) name =
      some (.of name get set codec.decode))
    (hZero : get t = codec.zero) (hSet : set codec.zero t = t) (h : codec.Returns (get s))
    (hRest : Reads members todo s (set (get s) t) t') :
    Reads members (.of name get set codec :: todo) s t t' := by
  rw [Reads, List.flatMap_cons]
  by_cases hEmpty : codec.isEmpty (get s) = true
  · rw [h.empty hEmpty, hSet] at hRest
    simp only [Member.of, if_pos hEmpty, List.nil_append]
    exact hRest
  · have hFirst : decodeField (members.map Member.toStructField)
        (name, codec.encode (get s)) t = (set (get s) t, .ok) := by
      simp only [decodeField, hField, StructField.of, hZero, h.read]
    simp only [Member.of, if_neg hEmpty, List.cons_append, List.nil_append]
    rw [decodeAll_cons hFirst]
    exact hRest

end RoundTrip

section Refusal

open Decoder

variable {α β σ : Type}

/-- Decoding what was written is an error, whatever is there before. -/
def Codec.Refuses (codec : Codec α) (a : α) : Prop := ∀ b, (codec.decode (codec.encode a) b).2 ≠ .ok

/-- A part that is refused is not made good by the others. -/
theorem decodeAll_refuses {step : β → σ → σ × Status} {bs : List β} {b : β} (hb : b ∈ bs)
    (h : ∀ s, (step b s).2 ≠ .ok) (s : σ) : (decodeAll step bs s).2 ≠ .ok := by
  induction bs generalizing s with
  | nil => cases hb
  | cons b' bs ih =>
      have hHere : b = b' → (step b' s).2 ≠ .ok := fun hEq => hEq ▸ h s
      have hLater : b ∈ bs → ∀ s, (decodeAll step bs s).2 ≠ .ok := ih
      rw [List.mem_cons] at hb
      rw [decodeAll]
      cases hStep : step b' s with
      | mk mid st =>
          rw [hStep] at hHere
          cases st with
          | ok =>
              rcases hb with hEq | hMem
              · exact absurd rfl (hHere hEq)
              · exact hLater hMem mid
          | mismatch => cases hEnd : (decodeAll step bs mid).2 <;> simp [hEnd, Status.and]
          | stopped => simp

theorem Codec.Refuses.slice {elem : Codec α} {xs : List α} {x : α} (hx : x ∈ xs)
    (h : elem.Refuses x) : elem.slice.Refuses xs := by
  intro prior
  have hElems : xs.map elem.encode ≠ [] := List.ne_nil_of_mem (List.mem_map_of_mem hx)
  simp only [Codec.slice, ofSlice]
  rw [if_neg (by simpa using hElems), Decoder.slice]
  exact decodeAll_refuses (List.mem_map_of_mem hx) (fun _ => h elem.zero) _

theorem Codec.Refuses.map [DecidableEq α] {elem : Codec α} {m : Finmap (fun _ : String => α)}
    {key : String} {a : α} (hLookup : m.lookup key = some a) (h : elem.Refuses a) :
    elem.map.Refuses m := by
  intro prior
  have hMem : (key, elem.encode a) ∈ (sortedEntries m).map (fun e => (e.1, elem.encode e.2)) :=
    List.mem_map.mpr ⟨(key, a), mem_sortedEntries.mpr hLookup, rfl⟩
  simp only [Codec.map, ofMap, Decoder.map]
  refine decodeAll_refuses hMem (fun m' => ?_) prior
  cases hElem : elem.decode (elem.encode a) elem.zero with
  | mk a' st =>
      have hStatus := h elem.zero
      rw [hElem] at hStatus
      cases st with
      | ok => exact absurd rfl hStatus
      | mismatch => simp
      | stopped => simp

/-- Integers of more than 64 bits are refused. -/
theorem Codec.Refuses.int {n : Int} (h : ¬(-2 ^ 63 ≤ n ∧ n < 2 ^ 63)) : Codec.int.Refuses n := by
  intro a
  have hRange : decide (-2 ^ 63 ≤ n ∧ n < 2 ^ 63) = false := decide_eq_false h
  simp only [Codec.int, ofInt, Decoder.int, readInt64, Text.readInt_repr, Option.filter, hRange,
    Bool.false_eq_true, if_false]
  decide

/-- Some member that is written for these fields is refused, whatever they hold
before. -/
def Blocked (members todo : List (Member σ)) (s : σ) : Prop :=
  ∃ f ∈ todo.flatMap (fun m => m.write s),
    ∀ t, (decodeField (members.map Member.toStructField) f t).2 ≠ .ok

theorem Blocked.refuses {members : List (Member σ)} {zero s : σ} (h : Blocked members members s) :
    (Codec.struct zero members).Refuses s := by
  obtain ⟨f, hf, hRefuses⟩ := h
  exact fun t => decodeAll_refuses hf hRefuses t

theorem Blocked.skip {members todo : List (Member σ)} {s : σ} (m : Member σ)
    (h : Blocked members todo s) : Blocked members (m :: todo) s := by
  obtain ⟨f, hf, hRefuses⟩ := h
  exact ⟨f, List.mem_append_right _ hf, hRefuses⟩

theorem Blocked.field {members todo : List (Member σ)} {name : String} {get : σ → α}
    {set : α → σ → σ} {codec : Codec α} {s : σ}
    (hField : findField (members.map Member.toStructField) name =
      some (.of name get set codec.decode))
    (h : codec.Refuses (get s)) (hEmpty : codec.isEmpty (get s) = false) :
    Blocked members (.of name get set codec :: todo) s := by
  refine ⟨(name, codec.encode (get s)), List.mem_append_left _ ?_, fun t => ?_⟩
  · simp [Member.of, hEmpty]
  · rw [decodeField, hField]
    exact h (get t)

end Refusal

end Json
