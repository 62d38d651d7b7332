import Mathlib.Data.List.Lex
import Mathlib.Data.List.Sort
import Mathlib.Data.Prod.Lex
import Mathlib.Data.String.Basic
import Kelda.Lib.HashMap

/-! The string slice and map helpers of package str. -/
namespace Kelda.Str

/-- The slice without the occurrences of `item`. -/
def sliceFilterOut (slice : List String) (item : String) : List String :=
  slice.filter (fun s => s ≠ item)

def sliceContains (slice : List String) (item : String) : Bool :=
  slice.any (fun s => s = item)

@[simp] theorem mem_sliceFilterOut {slice : List String} {item s : String} :
    s ∈ sliceFilterOut slice item ↔ s ∈ slice ∧ s ≠ item := by
  simp [sliceFilterOut]

@[simp] theorem sliceContains_iff {slice : List String} {item : String} :
    sliceContains slice item = true ↔ item ∈ slice := by
  simp [sliceContains]

section SliceCmp

/-- Compare slices of the same length. -/
def elementsCmp : List String → List String → Int
  | v :: x, w :: y => if v < w then -1 else if w < v then 1 else elementsCmp x y
  | _, _ => 0

/-- An arbitrary ordering of slices, by their lengths first. -/
def sliceCmp (x y : List String) : Int :=
  if x.length < y.length then -1 else if y.length < x.length then 1 else elementsCmp x y

/-- What `sliceCmp` compares. -/
def sliceRank (x : List String) : ℕ ×ₗ List String := toLex (x.length, x)

theorem elementsCmp_spec {x y : List String} (h : x.length = y.length) :
    (elementsCmp x y < 0 ↔ x < y) ∧ (elementsCmp x y = 0 ↔ x = y) := by
  induction x generalizing y with
  | nil =>
      obtain rfl := List.length_eq_zero_iff.mp h.symm
      simp [elementsCmp]
  | cons v x ih =>
      cases y with
      | nil => cases h
      | cons w y =>
          obtain ⟨hLt, hEq⟩ := ih (Nat.succ.inj h)
          rw [elementsCmp, List.cons_lt_cons_iff, List.cons.injEq]
          split_ifs with hvw hwv
          · exact ⟨by simp [hvw], by simp [hvw.ne]⟩
          · exact ⟨by simp [hwv.ne', hvw], by simp [hwv.ne']⟩
          · obtain rfl : v = w := le_antisymm (not_lt.mp hwv) (not_lt.mp hvw)
            exact ⟨by simp [hLt], by simp [hEq]⟩

theorem sliceCmp_neg_iff {x y : List String} : sliceCmp x y < 0 ↔ sliceRank x < sliceRank y := by
  rw [sliceRank, sliceRank, Prod.Lex.toLex_lt_toLex, sliceCmp]
  split_ifs with hShort hLong
  · simp [hShort]
  · simp [hShort, hLong.ne']
  · have hSame : x.length = y.length := by omega
    simp [hSame, (elementsCmp_spec hSame).1]

theorem sliceCmp_eq_zero_iff {x y : List String} :
    sliceCmp x y = 0 ↔ sliceRank x = sliceRank y := by
  rw [sliceRank, sliceRank, toLex_inj, Prod.mk.injEq, sliceCmp]
  split_ifs with hShort hLong
  · simp [hShort.ne]
  · simp [hLong.ne']
  · have hSame : x.length = y.length := by omega
    simp [hSame, (elementsCmp_spec hSame).2]

end SliceCmp

/-- The default format of a slice of strings. -/
def formatSlice (strs : List String) : String := "[" ++ " ".intercalate strs ++ "]"

section MapAsString

/-- The text of one entry. -/
def entryText (e : Σ _ : String, String) : String := e.1 ++ "=" ++ e.2

/-- The entries are sorted, so that the text does not depend on the walk. -/
def mapAsString (ord : MapOrder) (m : AList (fun _ : String => String)) : String :=
  "[" ++ " ".intercalate (((ord.walk m.entries).map entryText).insertionSort (· ≤ ·)) ++ "]"

theorem insertionSort_eq {strs sorted : List String} (hPerm : strs.Perm sorted)
    (hSorted : sorted.Pairwise (· ≤ ·)) : strs.insertionSort (· ≤ ·) = sorted := by
  apply List.Perm.eq_of_pairwise (fun a b _ _ => le_antisymm)
  · exact List.pairwise_insertionSort (· ≤ ·) strs
  · exact hSorted
  · exact (List.perm_insertionSort (· ≤ ·) strs).trans hPerm

/-- The text of a map with the given entries, in any order. -/
theorem mapAsString_eq (ord : MapOrder) {m : AList (fun _ : String => String)}
    {sorted : List String} (hPerm : (m.entries.map entryText).Perm sorted)
    (hSorted : sorted.Pairwise (· ≤ ·)) :
    mapAsString ord m = "[" ++ " ".intercalate sorted ++ "]" := by
  rw [mapAsString, insertionSort_eq (((ord.perm m.entries).map entryText).trans hPerm) hSorted]

/-- Maps with the same entries have the same text. -/
theorem mapAsString_perm (ord ord' : MapOrder) {m m' : AList (fun _ : String => String)}
    (h : m.entries.Perm m'.entries) : mapAsString ord m = mapAsString ord' m' := by
  rw [mapAsString_eq ord ((h.map entryText).trans (List.perm_insertionSort (· ≤ ·) _).symm)
    (List.pairwise_insertionSort (· ≤ ·) _), mapAsString_eq ord'
    (List.perm_insertionSort (· ≤ ·) _).symm (List.pairwise_insertionSort (· ≤ ·) _)]

end MapAsString

end Kelda.Str
