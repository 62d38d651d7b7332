import Mathlib

/-! Tables whose entries have priorities. Of the entries that apply, one of the
highest priority is taken; which one is left open. -/
namespace Priority

variable {α : Type} {priority : α → Int} {l : List α} {a : α}

/-- The entries of highest priority. -/
def best (priority : α → Int) (l : List α) : List α :=
  l.filter (fun a => l.all (fun b => priority b ≤ priority a))

theorem mem_best : a ∈ best priority l ↔ a ∈ l ∧ ∀ b ∈ l, priority b ≤ priority a := by
  simp [best]

/-- An entry above all others is among the best. -/
theorem mem_best_of_le (ha : a ∈ l) (h : ∀ b ∈ l, priority b ≤ priority a) :
    a ∈ best priority l :=
  mem_best.mpr ⟨ha, h⟩

/-- Some entry is best, unless there is none. -/
theorem best_eq_nil : best priority l = [] ↔ l = [] := by
  constructor
  · intro h
    by_contra hne
    obtain ⟨b, hb⟩ := List.exists_mem_of_ne_nil l hne
    obtain ⟨a, ha, hMax⟩ := Set.exists_max_image {b | b ∈ l} priority l.finite_toSet ⟨b, hb⟩
    have hBest := mem_best_of_le ha hMax
    rw [h] at hBest
    cases hBest
  · rintro rfl
    rfl

/-- A rule for taking one of several entries. -/
structure Choice (α : Type) where
  choose : List α → Option α
  mem : ∀ {l a}, choose l = some a → a ∈ l
  total : ∀ {l}, choose l = none → l = []

/-- Take the first one. -/
def Choice.first : Choice α where
  choose := List.head?
  mem := List.mem_of_mem_head?
  total := List.head?_eq_none_iff.mp

end Priority
