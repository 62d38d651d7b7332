import Mathlib.Data.Fintype.Card
import Mathlib.Data.List.FinRange
import Mathlib.Data.List.Perm.Subperm
import Mathlib.Data.List.Sort

/-! Lists read by position, lists in which one element is replaced, and loops
that may fail. -/
namespace Lists

variable {α κ : Type*}

section Positions

theorem get_perm {l : List α} {is js : List (Fin l.length)}
    (h : (is ++ js).Perm (List.finRange l.length)) : (is.map l.get ++ js.map l.get).Perm l := by
  have hMap := h.map l.get
  rwa [List.map_append, List.map_get_finRange] at hMap

theorem card_positions (l : List α) (p : α → Prop) [DecidablePred p] :
    (Finset.univ.filter (fun i : Fin l.length => p (l.get i))).card = l.countP p := by
  rw [← List.toFinset_finRange, (List.nodup_finRange _).card_eq_countP]
  conv_rhs => rw [← List.map_get_finRange l, List.countP_map]
  rfl

theorem append_filter_notMem_perm {n : Nat} {used : List (Fin n)} (h : used.Nodup) :
    (used ++ (List.finRange n).filter (· ∉ used)).Perm (List.finRange n) := by
  refine (List.perm_ext_iff_of_nodup ?_ (List.nodup_finRange n)).mpr (fun i => ?_)
  · refine List.nodup_append'.mpr ⟨h, (List.nodup_finRange n).filter _, ?_⟩
    intro i hi hf
    simp [hi] at hf
  · simp [em]

end Positions

section Order

/-- A list that has distinct elements of another one can be put in front of the
rest. -/
theorem exists_front {l front : List α} (hNodup : front.Nodup) (hSub : front ⊆ l) :
    ∃ rest, l.Perm (front ++ rest) := by
  obtain ⟨front', hPerm, hSublist⟩ := List.subperm_of_subset hNodup hSub
  obtain ⟨rest, hRest⟩ := hSublist.exists_perm_append
  exact ⟨rest, hRest.trans (hPerm.append_right rest)⟩

theorem rel_of_idxOf_lt [DecidableEq α] {r : α → α → Prop} {l : List α} (h : l.Pairwise r)
    {a b : α} (hb : b ∈ l) (hLt : l.idxOf a < l.idxOf b) : r a b := by
  have hIdx := List.idxOf_lt_length_iff.mpr hb
  have hRel := List.pairwise_iff_getElem.mp h _ _ (hLt.trans hIdx) hIdx hLt
  rwa [List.getElem_idxOf, List.getElem_idxOf] at hRel

/-- A list of one element, repeated, has no other order. -/
theorem eq_of_perm_of_const {xs ys : List α} (hPerm : xs.Perm ys)
    (hConst : ∀ x ∈ xs, ∀ y ∈ xs, x = y) : xs = ys := by
  cases xs with
  | nil => exact (List.nil_perm.mp hPerm).symm
  | cons x xs =>
      have hRep : x :: xs = List.replicate (x :: xs).length x :=
        List.eq_replicate_of_mem (fun y hy => hConst y hy x (List.mem_cons_self ..))
      rw [hRep] at hPerm ⊢
      exact (List.perm_replicate.mp hPerm.symm).symm

/-- Sorting looks only at an element and a later one, in this order. -/
theorem insertionSort_congr {r s : α → α → Prop} [DecidableRel r] [DecidableRel s]
    {l : List α} (h : l.Pairwise (fun a b => r a b ↔ s a b)) :
    l.insertionSort r = l.insertionSort s := by
  have hInsert : ∀ (a : α) (l : List α), (∀ b ∈ l, r a b ↔ s a b) →
      l.orderedInsert r a = l.orderedInsert s a := by
    intro a l hl
    induction l with
    | nil => rfl
    | cons b l ih =>
        rw [List.orderedInsert_cons, List.orderedInsert_cons,
          ih (fun c hc => hl c (List.mem_cons_of_mem _ hc))]
        simp only [hl b (List.mem_cons_self ..)]
  induction l with
  | nil => rfl
  | cons a l ih =>
      obtain ⟨hFirst, hRest⟩ := List.pairwise_cons.mp h
      rw [List.insertionSort_cons, List.insertionSort_cons, ih hRest]
      exact hInsert a _ (fun b hb => hFirst b ((List.mem_insertionSort s).mp hb))

end Order

section Replaced

variable {f : α → κ} {l : List α} {i : Nat} {b b' : α}

/-- The elements of a list with keys of their own, after one is replaced. -/
theorem mem_set_iff (hNodup : (l.map f).Nodup) (hb : l[i]? = some b) {x : α} :
    x ∈ l.set i b' ↔ x = b' ∨ (x ∈ l ∧ f x ≠ f b) := by
  induction l generalizing i with
  | nil => cases hb
  | cons a l ih =>
      rw [List.map_cons, List.nodup_cons] at hNodup
      have hFirst : ∀ y ∈ l, f y ≠ f a := fun y hy hEq =>
        hNodup.1 (hEq ▸ List.mem_map_of_mem hy)
      cases i with
      | zero =>
          obtain rfl : a = b := Option.some.inj hb
          rw [List.set_cons_zero, List.mem_cons, List.mem_cons]
          refine or_congr_right ⟨fun hx => ⟨.inr hx, hFirst x hx⟩, fun hx => ?_⟩
          exact hx.1.resolve_left (fun hEq => hx.2 (congrArg f hEq))
      | succ i =>
          have hbMem : b ∈ l := List.mem_of_getElem? hb
          rw [List.set_cons_succ, List.mem_cons, ih hNodup.2 hb, List.mem_cons]
          constructor
          · rintro (rfl | rfl | ⟨hx, hNe⟩)
            · exact .inr ⟨.inl rfl, (hFirst b hbMem).symm⟩
            · exact .inl rfl
            · exact .inr ⟨.inr hx, hNe⟩
          · rintro (rfl | ⟨rfl | hx, hNe⟩)
            · exact .inr (.inl rfl)
            · exact .inl rfl
            · exact .inr (.inr ⟨hx, hNe⟩)

theorem map_set_of_eq (hb : l[i]? = some b) (hKey : f b' = f b) : (l.set i b').map f = l.map f := by
  have hGet : (l.map f)[i]? = some (f b) := by
    rw [List.getElem?_map, hb]
    rfl
  obtain ⟨hi, hEq⟩ := List.getElem?_eq_some_iff.mp hGet
  rw [List.map_set, hKey, ← hEq, List.set_getElem_self]

end Replaced

end Lists

namespace Except

variable {ε α β δ ρ σ : Type}

/-- A computation that succeeds has succeeded in its first part. -/
theorem exists_of_bind_eq_ok {x : Except ε α} {f : α → Except ε β} {b : β}
    (h : (x >>= f) = .ok b) : ∃ a, x = .ok a ∧ f a = .ok b := by
  cases x with
  | error e => cases h
  | ok a => exact ⟨a, rfl, h⟩

/-- A loop with a result and a state in which the result has no part in what
happens to the state. -/
theorem foldlM_with_result {step : ρ × σ → δ → Except ε (ρ × σ)}
    {next : σ → δ → Except ε σ} {note : ρ → δ → ρ}
    (h : ∀ r s d, step (r, s) d = (next s d).map (fun s' => (note r d, s'))) (ds : List δ) (r : ρ)
    (s : σ) : ds.foldlM step (r, s) = (ds.foldlM next s).map (fun s' => (ds.foldl note r, s')) := by
  induction ds generalizing r s with
  | nil => rfl
  | cons d ds ih =>
      rw [List.foldlM_cons, List.foldlM_cons, h]
      cases next s d with
      | error e => rfl
      | ok s' => exact ih (note r d) s'

end Except
