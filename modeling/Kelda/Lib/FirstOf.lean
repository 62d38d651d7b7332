import Mathlib.Data.Finset.Insert
import Mathlib.Data.List.Nodup

/-! Lists that are collected without repeating a key. Of all elements with one
key the first is kept; a set of the keys says which have been seen. -/
namespace FirstOf

variable {α κ : Type} [DecidableEq κ] {key : α → κ}

/-- The elements kept so far with their keys, and one more element. -/
def keep (key : α → κ) : List α × Finset κ → α → List α × Finset κ
  | (kept, seen), a => if key a ∈ seen then (kept, seen) else (kept ++ [a], insert (key a) seen)

/-- What has been kept of a list. -/
structure Kept (key : α → κ) (xs : List α) (st : List α × Finset κ) : Prop where
  seen : ∀ k, k ∈ st.2 ↔ k ∈ st.1.map key
  nodup : (st.1.map key).Nodup
  subset : st.1 ⊆ xs
  covers : ∀ x ∈ xs, key x ∈ st.1.map key

omit [DecidableEq κ] in
theorem Kept.nil : Kept key [] ([], ∅) where
  seen := fun k => by simp
  nodup := List.nodup_nil
  subset := List.nil_subset _
  covers := fun x hx => by cases hx

theorem Kept.step {xs : List α} {st : List α × Finset κ} (h : Kept key xs st) (a : α) :
    Kept key (xs ++ [a]) (keep key st a) := by
  obtain ⟨kept, seen⟩ := st
  have hOld : ∀ x ∈ xs, x ∈ xs ++ [a] := fun x => List.mem_append_left _
  by_cases hSeen : key a ∈ seen
  · rw [keep, if_pos hSeen]
    have hCovered : key a ∈ kept.map key := (h.seen _).mp hSeen
    refine ⟨h.seen, h.nodup, fun x hx => hOld x (h.subset hx), fun x hx => ?_⟩
    rcases List.mem_append.mp hx with hx | hx
    · exact h.covers x hx
    · rwa [List.mem_singleton.mp hx]
  · rw [keep, if_neg hSeen]
    have hNew : key a ∉ kept.map key := fun hMem => hSeen ((h.seen _).mpr hMem)
    have hKeys : (kept ++ [a]).map key = kept.map key ++ [key a] := by simp
    constructor
    · intro k
      rw [hKeys, Finset.mem_insert, List.mem_append, List.mem_singleton, h.seen k, or_comm]
    · rw [hKeys, List.nodup_append_comm, List.singleton_append]
      exact List.nodup_cons.mpr ⟨hNew, h.nodup⟩
    · exact List.append_subset.mpr ⟨fun x hx => hOld x (h.subset hx), List.subset_append_right ..⟩
    · intro x hx
      rw [hKeys, List.mem_append]
      rcases List.mem_append.mp hx with hx | hx
      · exact Or.inl (h.covers x hx)
      · rw [List.mem_singleton.mp hx]
        exact Or.inr (List.mem_singleton_self _)

theorem foldl_kept (key : α → κ) (xs : List α) : Kept key xs (xs.foldl (keep key) ([], ∅)) := by
  induction xs using List.reverseRecOn with
  | nil => exact Kept.nil
  | append_singleton xs a ih =>
      rw [List.foldl_append, List.foldl_cons, List.foldl_nil]
      exact ih.step a

/-- What is kept stays. -/
theorem mem_foldl_keep {x : α} (xs : List α) {st : List α × Finset κ} (h : x ∈ st.1) :
    x ∈ (xs.foldl (keep key) st).1 := by
  induction xs generalizing st with
  | nil => exact h
  | cons a xs ih =>
      apply ih
      rw [keep]
      split
      · exact h
      · exact List.mem_append_left _ h

/-- The first element is always kept. -/
theorem head_mem_foldl_keep (x : α) (xs : List α) :
    x ∈ ((x :: xs).foldl (keep key) ([], ∅)).1 := by
  apply mem_foldl_keep xs
  rw [keep, if_neg (Finset.notMem_empty _)]
  exact List.mem_singleton_self x

end FirstOf
