import Mathlib

/-! Reading texts back. A text built from fields and separators determines its
fields when no field contains the separator that ends it. -/
namespace Text

/-- The first separator ends the first field. -/
theorem append_sep_inj {α : Type} {c : α} {a a' b b' : List α} (ha : c ∉ a) (ha' : c ∉ a')
    (h : a ++ c :: b = a' ++ c :: b') : a = a' ∧ b = b' := by
  induction a generalizing a' with
  | nil =>
      cases a' with
      | nil => exact ⟨rfl, (List.cons.inj h).2⟩
      | cons x a' => exact (ha' ((List.cons.inj h).1 ▸ List.mem_cons_self ..)).elim
  | cons x a ih =>
      cases a' with
      | nil => exact (ha ((List.cons.inj h).1 ▸ List.mem_cons_self ..)).elim
      | cons x' a' =>
          obtain ⟨rfl, hTail⟩ := List.cons.inj h
          obtain ⟨rfl, rfl⟩ := ih (fun hm => ha (List.mem_cons_of_mem _ hm))
            (fun hm => ha' (List.mem_cons_of_mem _ hm)) hTail
          exact ⟨rfl, rfl⟩

/-- The string form of `append_sep_inj`. -/
theorem string_append_sep_inj {c : Char} {a a' b b' : String} (ha : c ∉ a.toList)
    (ha' : c ∉ a'.toList)
    (h : a ++ (String.singleton c ++ b) = a' ++ (String.singleton c ++ b')) : a = a' ∧ b = b' := by
  have hLists := congrArg String.toList h
  simp only [String.toList_append, String.toList_singleton, List.singleton_append] at hLists
  obtain ⟨hA, hB⟩ := append_sep_inj ha ha' hLists
  exact ⟨String.toList_inj.mp hA, String.toList_inj.mp hB⟩

/-- The last separator starts the last field. -/
theorem string_append_last_inj {c : Char} {a a' b b' : String} (hb : c ∉ b.toList)
    (hb' : c ∉ b'.toList)
    (h : a ++ (String.singleton c ++ b) = a' ++ (String.singleton c ++ b')) : a = a' ∧ b = b' := by
  have hLists := congrArg (fun s : String => s.toList.reverse) h
  simp only [String.toList_append, String.toList_singleton, List.singleton_append,
    List.reverse_append, List.reverse_cons, List.append_assoc] at hLists
  obtain ⟨hB, hA⟩ := append_sep_inj (by simpa using hb) (by simpa using hb') hLists
  exact ⟨String.toList_inj.mp (List.reverse_inj.mp hA),
    String.toList_inj.mp (List.reverse_inj.mp hB)⟩

/-- Nonempty words without the separator are determined by the joined text. -/
theorem intercalate_inj {c : Char} {xs ys : List String}
    (hx : ∀ x ∈ xs, c ∉ x.toList ∧ x ≠ "") (hy : ∀ y ∈ ys, c ∉ y.toList ∧ y ≠ "")
    (h : (String.singleton c).intercalate xs = (String.singleton c).intercalate ys) : xs = ys := by
  have hX := String.toList_split_intercalate (fun x hm => (hx x hm).1)
  have hY := String.toList_split_intercalate (fun y hm => (hy y hm).1)
  rw [h, hY] at hX
  split_ifs at hX with hYs hXs hXs
  · rw [hYs, hXs]
  · exact ((hx "" (hX ▸ List.mem_cons_self ..)).2 rfl).elim
  · exact ((hy "" (hX ▸ List.mem_cons_self ..)).2 rfl).elim
  · exact hX.symm

/-- A joined text has only characters of its words and separators. -/
theorem notMem_intercalate {c s : Char} {xs : List String} (hs : c ≠ s)
    (hx : ∀ x ∈ xs, c ∉ x.toList) : c ∉ ((String.singleton s).intercalate xs).toList := by
  induction xs with
  | nil => simp
  | cons x xs ih =>
      have hRest := ih (fun y hm => hx y (List.mem_cons_of_mem _ hm))
      cases xs with
      | nil => simpa using hx x (List.mem_cons_self ..)
      | cons y ys =>
          rw [String.intercalate_cons_cons]
          simp only [String.toList_append, String.toList_singleton, List.mem_append,
            List.mem_singleton, not_or]
          exact ⟨⟨hx x (List.mem_cons_self ..), hs⟩, hRest⟩

/-- The words between single blanks. A doubled blank has an empty word. -/
def words (s : String) : List String := (s.toList.splitOn ' ').map String.ofList

theorem intercalate_words (s : String) : " ".intercalate (words s) = s := by
  apply String.toList_inj.mp
  rw [String.toList_intercalate, words, List.map_map]
  have hChars : String.toList ∘ String.ofList = id := funext (fun _ => String.toList_ofList)
  rw [hChars, List.map_id]
  exact List.intercalate_splitOn ' '

/-- The parts of a text between single separators. -/
def split (sep : Char) (s : String) : List String := (s.toList.splitOn sep).map String.ofList

theorem split_ne_nil (sep : Char) (s : String) : split sep s ≠ [] := by
  simp [split]

theorem notMem_of_mem_splitOn {α : Type} [DecidableEq α] {sep : α} {s part : List α}
    (h : part ∈ s.splitOn sep) : sep ∉ part := by
  induction s generalizing part with
  | nil =>
      rw [List.splitOn_nil, List.mem_singleton] at h
      rw [h]
      exact List.not_mem_nil
  | cons c s ih =>
      rw [List.splitOn_cons_eq_if_modifyHead] at h
      cases hParts : s.splitOn sep with
      | nil => exact absurd hParts (List.splitOn_ne_nil _ _)
      | cons first rest =>
          rw [hParts] at h ih
          split_ifs at h with hSep
          · rcases List.mem_cons.mp h with rfl | h
            · exact List.not_mem_nil
            · exact ih h
          · have hNe : c ≠ sep := by simpa using hSep
            rw [List.modifyHead_cons, List.mem_cons] at h
            rcases h with rfl | h
            · simp [hNe.symm, ih (List.mem_cons_self ..)]
            · exact ih (List.mem_cons_of_mem _ h)

theorem notMem_of_mem_split {sep : Char} {s part : String} (h : part ∈ split sep s) :
    sep ∉ part.toList := by
  obtain ⟨chars, hChars, rfl⟩ := List.mem_map.mp h
  rw [String.toList_ofList]
  exact notMem_of_mem_splitOn hChars

theorem split_intercalate {sep : Char} {ws : List String} (hWords : ∀ w ∈ ws, sep ∉ w.toList)
    (hSome : ws ≠ []) : split sep ((String.singleton sep).intercalate ws) = ws := by
  have hSplit : List.splitOn sep ([sep].intercalate (ws.map String.toList)) =
      ws.map String.toList := by
    apply List.splitOn_intercalate
    · intro l hl
      obtain ⟨w, hw, rfl⟩ := List.mem_map.mp hl
      exact hWords w hw
    · simpa using hSome
  rw [split, String.toList_intercalate, String.toList_singleton, hSplit, List.map_map]
  have hChars : String.ofList ∘ String.toList = id := funext (fun _ => String.ofList_toList)
  rw [hChars, List.map_id]

theorem words_intercalate {ws : List String} (hWords : ∀ w ∈ ws, ' ' ∉ w.toList)
    (hSome : ws ≠ []) : words (" ".intercalate ws) = ws :=
  split_intercalate hWords hSome

/-- Cut a text at the first separators into at most the given number of parts. -/
def splitN (sep : Char) : Nat → List Char → List (List Char)
  | 0, _ => []
  | 1, s => [s]
  | n + 2, s =>
    match s.dropWhile (· ≠ sep) with
    | [] => [s]
    | _ :: rest => s.takeWhile (· ≠ sep) :: splitN sep (n + 1) rest

theorem splitN_append {sep : Char} (n : Nat) {part rest : List Char} (h : sep ∉ part) :
    splitN sep (n + 2) (part ++ sep :: rest) = part :: splitN sep (n + 1) rest := by
  have hPart : ∀ c ∈ part, decide (c ≠ sep) = true :=
    fun c hc => decide_eq_true (fun hEq => h (hEq ▸ hc))
  rw [splitN, List.dropWhile_append_of_pos hPart, List.takeWhile_append_of_pos hPart]
  simp

/-- Decimal numerals have digits only. -/
theorem isDigit_of_mem_repr {n : Nat} {c : Char} (h : c ∈ n.repr.toList) : c.isDigit := by
  rw [Nat.toList_repr] at h
  exact Nat.isDigit_of_mem_toDigits (by omega) (by omega) h

/-- Signed numerals have digits and the minus sign only. -/
theorem isDigit_of_mem_int_repr {n : Int} {c : Char} (h : c ∈ n.repr.toList) :
    c.isDigit ∨ c = '-' := by
  rw [Int.repr_eq_if] at h
  split_ifs at h with hn
  · exact Or.inl (isDigit_of_mem_repr h)
  · rw [String.toList_append, List.mem_append] at h
    rcases h with h | h
    · exact Or.inr (by simpa using h)
    · exact Or.inl (isDigit_of_mem_repr h)

/-- Read a decimal numeral. Leading zeros are accepted. -/
def readNat (s : List Char) : Option Nat :=
  if s ≠ [] ∧ s.all Char.isDigit then some (Nat.ofDigitChars 10 s 0) else none

theorem isDigit_of_readNat {s : List Char} {n : Nat} (h : readNat s = some n) :
    ∀ c ∈ s, c.isDigit := by
  rw [readNat] at h
  split_ifs at h with hDigits
  exact fun c hc => List.all_eq_true.mp hDigits.2 c hc

/-- Read a numeral with an optional minus sign. -/
def readInt : List Char → Option Int
  | '-' :: s => (readNat s).map (fun n : Nat => -(n : Int))
  | s => (readNat s).map (fun n : Nat => (n : Int))

theorem repr_ne_nil (n : Nat) : n.repr.toList ≠ [] := by
  rw [Nat.toList_repr]
  exact Nat.toDigits_ne_nil

@[simp] theorem readNat_repr (n : Nat) : readNat n.repr.toList = some n := by
  have hDigits : n.repr.toList.all Char.isDigit = true :=
    List.all_eq_true.mpr (fun c hc => isDigit_of_mem_repr hc)
  rw [readNat, if_pos ⟨repr_ne_nil n, hDigits⟩, Nat.toList_repr,
    Nat.ofDigitChars_toDigits (by omega) (by omega)]

@[simp] theorem readInt_repr (n : Int) : readInt n.repr.toList = some n := by
  rw [Int.repr_eq_if]
  split_ifs with hn
  · have hSign : ∀ s, n.toNat.repr.toList ≠ '-' :: s := by
      intro s hEq
      have hMem : '-' ∈ n.toNat.repr.toList := hEq ▸ List.mem_cons_self ..
      exact absurd (isDigit_of_mem_repr hMem) (by decide)
    rw [readInt]
    · simp only [readNat_repr, Option.map_some, Int.toNat_of_nonneg hn]
    · exact hSign
  · rw [String.toList_append]
    change readInt ('-' :: (-n).toNat.repr.toList) = _
    rw [readInt, readNat_repr, Option.map_some, Int.toNat_of_nonneg (by omega), neg_neg]

/-- The characters of a signed numeral are no plus sign. -/
theorem plus_notMem_int_repr (n : Int) : '+' ∉ n.repr.toList := by
  intro h
  rcases isDigit_of_mem_int_repr h with hDigit | hMinus
  · exact absurd hDigit (by decide)
  · exact absurd hMinus (by decide)

/-- A signed decimal numeral of 64 bits, as package strconv reads it. -/
def atoi (s : String) : Option Int :=
  let value :=
    match s.toList with
    | '+' :: digits => (readNat digits).map Int.ofNat
    | chars => readInt chars
  value.filter (fun n => -2 ^ 63 ≤ n ∧ n < 2 ^ 63)

theorem atoi_repr {n : Int} (hMin : -2 ^ 63 ≤ n) (hMax : n < 2 ^ 63) : atoi n.repr = some n := by
  have hValue : (match n.repr.toList with
      | '+' :: digits => (readNat digits).map Int.ofNat
      | chars => readInt chars) = some n := by
    split
    · next digits hChars =>
        exact absurd (hChars ▸ List.mem_cons_self ..) (plus_notMem_int_repr n)
    · exact readInt_repr n
  have hRange : -2 ^ 63 ≤ n ∧ n < 2 ^ 63 := ⟨hMin, hMax⟩
  simp only [atoi, hValue, Option.filter, hRange, and_self, decide_true, if_true]

section Hex

/-- The value of a hexadecimal digit. -/
def hexDigit? (c : Char) : Option Nat :=
  if c.isDigit then some (c.toNat - '0'.toNat)
  else if 'a' ≤ c ∧ c ≤ 'f' then some (c.toNat - 'a'.toNat + 10)
  else if 'A' ≤ c ∧ c ≤ 'F' then some (c.toNat - 'A'.toNat + 10)
  else none

/-- The number so far, and one more digit. -/
def pushHex (n : Nat) (c : Char) : Option Nat := (hexDigit? c).map (fun d => 16 * n + d)

/-- Read a hexadecimal numeral. -/
def readHex (s : List Char) : Option Nat :=
  if s = [] then none else s.foldlM pushHex 0

/-- The literals of all bytes are read with one instance. -/
instance neZeroByte : NeZero 256 := ⟨by decide⟩

/-- The two digits of a byte. -/
def hexByte (b : Fin 256) : List Char :=
  [Nat.digitChar (b.val / 16), Nat.digitChar (b.val % 16)]

def readHexByte (s : List Char) : Option (Fin 256) :=
  match s with
  | [c, c'] => do
    let high ← hexDigit? c
    let low ← hexDigit? c'
    some (Fin.ofNat 256 (16 * high + low))
  | _ => none

theorem hexDigit?_digitChar {n : Nat} (h : n < 16) : hexDigit? (Nat.digitChar n) = some n := by
  have hAll : ∀ n, n < 16 → hexDigit? (Nat.digitChar n) = some n := by decide
  exact hAll n h

@[simp] theorem readHexByte_hexByte (b : Fin 256) : readHexByte (hexByte b) = some b := by
  have hHigh : b.val / 16 < 16 := by omega
  have hLow : b.val % 16 < 16 := by omega
  simp only [readHexByte, hexByte, hexDigit?_digitChar hHigh, hexDigit?_digitChar hLow, bind,
    Option.bind, Nat.div_add_mod, Fin.ofNat_val_eq_self]

/-- The digits of all bytes. -/
def hexText (bytes : List UInt8) : String :=
  String.ofList (bytes.flatMap (fun b => hexByte b.toFin))

theorem hexText_inj {bytes bytes' : List UInt8} (h : hexText bytes = hexText bytes') :
    bytes = bytes' := by
  have hChars := String.ofList_injective h
  clear h
  induction bytes generalizing bytes' with
  | nil =>
      cases bytes' with
      | nil => rfl
      | cons b' bytes' => cases hChars
  | cons b bytes ih =>
      cases bytes' with
      | nil => cases hChars
      | cons b' bytes' =>
          rw [List.flatMap_cons, List.flatMap_cons] at hChars
          obtain ⟨hByte, hRest⟩ := List.append_inj hChars rfl
          have hRead := congrArg readHexByte hByte
          rw [readHexByte_hexByte, readHexByte_hexByte] at hRead
          rw [UInt8.toFin_inj.mp (Option.some.inj hRead), ih hRest]

theorem isHex_of_mem_hexByte {b : Fin 256} {c : Char} (h : c ∈ hexByte b) :
    (hexDigit? c).isSome := by
  simp only [hexByte, List.mem_cons, List.not_mem_nil, or_false] at h
  rcases h with rfl | rfl
  · rw [hexDigit?_digitChar (by omega)]
    rfl
  · rw [hexDigit?_digitChar (by omega)]
    rfl

/-- Every digit of a numeral is read. -/
theorem foldlM_pushHex_toDigits (n : Nat) : (Nat.toDigits 16 n).foldlM pushHex 0 = some n := by
  induction n using Nat.strong_induction_on with
  | _ n ih =>
      rcases Nat.lt_or_ge n 16 with hn | hn
      · rw [Nat.toDigits_of_lt_base hn]
        simp [pushHex, hexDigit?_digitChar hn]
      · rw [Nat.toDigits_of_base_le (by omega) hn, List.foldlM_append, ih (n / 16) (by omega)]
        simp [pushHex, hexDigit?_digitChar (Nat.mod_lt n (by omega : 0 < 16)), Nat.div_add_mod]

@[simp] theorem readHex_toDigits (n : Nat) : readHex (Nat.toDigits 16 n) = some n := by
  rw [readHex, if_neg Nat.toDigits_ne_nil, foldlM_pushHex_toDigits]

theorem isHex_of_mem_toDigits {n : Nat} {c : Char} (h : c ∈ Nat.toDigits 16 n) :
    (hexDigit? c).isSome := by
  induction n using Nat.strong_induction_on with
  | _ n ih =>
      rcases Nat.lt_or_ge n 16 with hn | hn
      · rw [Nat.toDigits_of_lt_base hn, List.mem_singleton] at h
        rw [h, hexDigit?_digitChar hn]
        rfl
      · rw [Nat.toDigits_of_base_le (by omega) hn, List.mem_append, List.mem_singleton] at h
        rcases h with h | rfl
        · exact ih (n / 16) (by omega) h
        · rw [hexDigit?_digitChar (Nat.mod_lt n (by omega))]
          rfl

end Hex

end Text
