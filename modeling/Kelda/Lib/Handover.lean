import Mathlib

/-! Keys that change hands. Each key has at most one holder. A move gives up one key
of its owner and takes another; giving up a key detaches it from whoever holds it
at that time. -/
namespace Handover

variable {κ δ : Type}

structure Move (κ δ : Type) where
  owner : δ
  old : Option κ
  new : Option κ

section Moves

variable [DecidableEq κ]

def release (holder : κ → Option δ) : Option κ → κ → Option δ
  | some k => Function.update holder k none
  | none => holder

def take (holder : κ → Option δ) (owner : δ) : Option κ → κ → Option δ
  | some k => Function.update holder k (some owner)
  | none => holder

/-- A move between equal keys does nothing. -/
def Move.apply (holder : κ → Option δ) (m : Move κ δ) : κ → Option δ :=
  if m.old = m.new then holder else take (release holder m.old) m.owner m.new

/-- The moves one after another. -/
def run (holder : κ → Option δ) (ms : List (Move κ δ)) : κ → Option δ :=
  ms.foldl Move.apply holder

section Apply

variable {holder : κ → Option δ} {m : Move κ δ} {k : κ}

theorem apply_new (hMove : m.old ≠ m.new) (hNew : m.new = some k) :
    m.apply holder k = some m.owner := by
  rw [Move.apply, if_neg hMove, hNew, take, Function.update_self]

theorem apply_old (hNew : m.new ≠ some k) (hOld : m.old = some k) : m.apply holder k = none := by
  have hMove : m.old ≠ m.new := fun hEq => hNew (hEq ▸ hOld)
  rw [Move.apply, if_neg hMove, hOld, release]
  cases h : m.new with
  | none => rw [take, Function.update_self]
  | some k' =>
      have hNe : k ≠ k' := fun hEq => hNew (hEq ▸ h)
      rw [take, Function.update_of_ne hNe, Function.update_self]

/-- A move changes nothing about other keys. -/
theorem apply_other (hOther : m.old = m.new ∨ (m.old ≠ some k ∧ m.new ≠ some k)) :
    m.apply holder k = holder k := by
  rw [Move.apply]
  split_ifs with hEq
  · rfl
  · obtain ⟨hOld, hNew⟩ := hOther.resolve_left hEq
    have hRelease : release holder m.old k = holder k := by
      cases h : m.old with
      | none => rfl
      | some k' =>
          have hNe : k ≠ k' := fun hEq => hOld (hEq ▸ h)
          rw [release, Function.update_of_ne hNe]
    cases h : m.new with
    | none => exact hRelease
    | some k' =>
        have hNe : k ≠ k' := fun hEq => hNew (hEq ▸ h)
        rw [take, Function.update_of_ne hNe, hRelease]

end Apply

section Run

variable {holder : κ → Option δ} {ms : List (Move κ δ)} {k : κ}

theorem run_append (ms' : List (Move κ δ)) :
    run holder (ms ++ ms') = run (run holder ms) ms' :=
  List.foldl_append

theorem run_cons (m : Move κ δ) : run holder (m :: ms) = run (m.apply holder) ms := rfl

theorem run_other (h : ∀ m ∈ ms, m.old = m.new ∨ (m.old ≠ some k ∧ m.new ≠ some k)) :
    run holder ms k = holder k := by
  induction ms generalizing holder with
  | nil => rfl
  | cons m ms ih =>
      rw [run_cons, ih (fun m' hm' => h m' (List.mem_cons_of_mem _ hm')),
        apply_other (h m (List.mem_cons_self ..))]

/-- A key that nobody takes stays without a holder. -/
theorem run_eq_none (hNone : holder k = none) (hNew : ∀ m ∈ ms, m.new ≠ some k) :
    run holder ms k = none := by
  induction ms generalizing holder with
  | nil => exact hNone
  | cons m ms ih =>
      rw [run_cons]
      refine ih ?_ (fun m' hm' => hNew m' (List.mem_cons_of_mem _ hm'))
      have hNew' := hNew m (List.mem_cons_self ..)
      by_cases hOld : m.old = some k
      · exact apply_old hNew' hOld
      · rw [apply_other (Or.inr ⟨hOld, hNew'⟩), hNone]

end Run

end Moves

/-- The moves start from keys that their owners hold, and no two of them take the
same key. -/
structure Valid (holder : κ → Option δ) (ms : List (Move κ δ)) : Prop where
  owners : (ms.map Move.owner).Nodup
  held : ∀ m ∈ ms, ∀ k, m.old = some k → holder k = some m.owner
  news : ∀ m ∈ ms, ∀ m' ∈ ms, ∀ k, m.new = some k → m'.new = some k → m.owner = m'.owner

/-- Each owner holds its new key and nothing else. -/
def Exact (holder : κ → Option δ) (ms : List (Move κ δ)) : Prop :=
  ∀ m ∈ ms, ∀ k, holder k = some m.owner ↔ m.new = some k

/-- A relation between the elements of a list in their order. -/
theorem pairwise_iff_splits {α : Type} {R : α → α → Prop} {l : List α} :
    l.Pairwise R ↔ ∀ x a y b z, l = x ++ a :: (y ++ b :: z) → R a b := by
  constructor
  · rintro h x a y b z rfl
    have hAfter := (List.pairwise_cons.mp (List.pairwise_append.mp h).2.1).1
    exact hAfter b (List.mem_append_right _ (List.mem_cons_self ..))
  · intro h
    induction l with
    | nil => exact List.Pairwise.nil
    | cons a l ih =>
        refine List.Pairwise.cons (fun b hb => ?_) (ih (fun x a' y b z hl => ?_))
        · obtain ⟨y, z, rfl⟩ := List.append_of_mem hb
          exact h [] a y b z rfl
        · exact h (a :: x) a' y b z (by rw [hl, List.cons_append])

namespace Valid

variable {holder : κ → Option δ} {ms : List (Move κ δ)} {m m' : Move κ δ} {k : κ}

theorem eq_of_owner (h : Valid holder ms) (hm : m ∈ ms) (hm' : m' ∈ ms)
    (hEq : m.owner = m'.owner) : m = m' :=
  List.inj_on_of_nodup_map h.owners hm hm' hEq

theorem eq_of_old (h : Valid holder ms) (hm : m ∈ ms) (hm' : m' ∈ ms) (hOld : m.old = some k)
    (hOld' : m'.old = some k) : m = m' :=
  h.eq_of_owner hm hm' (Option.some.inj ((h.held m hm k hOld).symm.trans (h.held m' hm' k hOld')))

theorem eq_of_new (h : Valid holder ms) (hm : m ∈ ms) (hm' : m' ∈ ms) (hNew : m.new = some k)
    (hNew' : m'.new = some k) : m = m' :=
  h.eq_of_owner hm hm' (h.news m hm m' hm' k hNew hNew')

/-- No other move takes the key of a move. -/
theorem new_ne (h : Valid holder ms) {before after : List (Move κ δ)}
    (hSplit : ms = before ++ m :: after) (hNew : m.new = some k) :
    ∀ m' ∈ after, m'.new ≠ some k := by
  intro m' hm' hNew'
  have hNodup : (before ++ m :: after).Nodup := hSplit ▸ h.owners.of_map
  have hEq : m = m' := h.eq_of_new (hSplit ▸ List.mem_append_right _ (List.mem_cons_self ..))
    (hSplit ▸ List.mem_append_right _ (List.mem_cons_of_mem _ hm')) hNew hNew'
  exact (List.nodup_cons.mp (List.nodup_append'.mp hNodup).2.1).1 (hEq ▸ hm')

variable [DecidableEq κ]

/-- A key that is taken, and not given up by a later move, is held by its taker. -/
theorem run_new (h : Valid holder ms) {before after : List (Move κ δ)}
    (hSplit : ms = before ++ m :: after) (hNew : m.new = some k)
    (hLater : ∀ m' ∈ after, m'.old ≠ some k) : run holder ms k = some m.owner := by
  have hm : m ∈ ms := hSplit ▸ List.mem_append_right _ (List.mem_cons_self ..)
  by_cases hIdle : m.old = m.new
  · rw [← h.held m hm k (hIdle.trans hNew)]
    apply run_other
    intro m' hm'
    by_cases hSame : m' = m
    · exact Or.inl (hSame ▸ hIdle)
    · right
      exact ⟨fun hOld => hSame (h.eq_of_old hm' hm hOld (hIdle.trans hNew)),
        fun hNew' => hSame (h.eq_of_new hm' hm hNew' hNew)⟩
  · rw [hSplit, run_append, run_cons, run_other, apply_new hIdle hNew]
    intro m' hm'
    exact Or.inr ⟨hLater m' hm', h.new_ne hSplit hNew m' hm'⟩

/-- A key that is given up, and not taken by a later move, has no holder. -/
theorem run_old {before after : List (Move κ δ)} (hSplit : ms = before ++ m :: after)
    (hOld : m.old = some k) (hNew : m.new ≠ some k) (hLater : ∀ m' ∈ after, m'.new ≠ some k) :
    run holder ms k = none := by
  rw [hSplit, run_append, run_cons]
  exact run_eq_none (apply_old hNew hOld) hLater

/-- A key of an owner that no move gives up or takes stays with it. -/
theorem run_kept (h : Valid holder ms) (hm : m ∈ ms) (hHeld : holder k = some m.owner)
    (hOld : m.old ≠ some k) (hNew : ∀ m' ∈ ms, m'.new ≠ some k) :
    run holder ms k = some m.owner := by
  rw [run_other, hHeld]
  intro m' hm'
  refine Or.inr ⟨fun hOld' => hOld ?_, hNew m' hm'⟩
  have hOwner := (h.held m' hm' k hOld').symm.trans hHeld
  rw [← h.eq_of_owner hm' hm (Option.some.inj hOwner)]
  exact hOld'

/-- The moves have their effect exactly if no key is taken before it is given up,
and every key that an owner holds is given up by it or taken by some move. -/
theorem exact_run_iff (h : Valid holder ms) :
    Exact (run holder ms) ms ↔
      ms.Pairwise (fun m m' => ∀ k, m.new = some k → m'.old ≠ some k) ∧
        ∀ m ∈ ms, ∀ k, holder k = some m.owner → m.old ≠ some k → ∃ m' ∈ ms, m'.new = some k := by
  constructor
  · intro hExact
    constructor
    · rw [pairwise_iff_splits]
      intro before m mid m' after hSplit k hNew hOld
      have hm : m ∈ ms := hSplit ▸ List.mem_append_right _ (List.mem_cons_self ..)
      have hHeld := (hExact m hm k).mpr hNew
      have hLater := h.new_ne hSplit hNew
      have hSplit' : ms = (before ++ m :: mid) ++ m' :: after := by
        rw [hSplit, List.append_assoc, List.cons_append]
      rw [run_old hSplit' hOld (hLater m' (List.mem_append_right _ (List.mem_cons_self ..)))
        (fun m'' hm'' => hLater m''
          (List.mem_append_right _ (List.mem_cons_of_mem _ hm'')))] at hHeld
      cases hHeld
    · intro m hm k hHeld hOld
      by_contra hNone
      have hNew : ∀ m' ∈ ms, m'.new ≠ some k := fun m' hm' hEq => hNone ⟨m', hm', hEq⟩
      exact hNew m hm ((hExact m hm k).mp (h.run_kept hm hHeld hOld hNew))
  · rintro ⟨hOrder, hAll⟩ m hm k
    have hTaken : ∀ m' ∈ ms, m'.new = some k → run holder ms k = some m'.owner := by
      intro m' hm' hNew
      obtain ⟨before, after, hSplit⟩ := List.append_of_mem hm'
      apply h.run_new hSplit hNew
      intro later hLater
      rw [hSplit] at hOrder
      have hAfter := (List.pairwise_cons.mp (List.pairwise_append.mp hOrder).2.1).1
      exact hAfter later hLater k hNew
    constructor
    · intro hHolds
      by_cases hNew : ∃ m' ∈ ms, m'.new = some k
      · obtain ⟨m', hm', hNew⟩ := hNew
        rw [hTaken m' hm' hNew] at hHolds
        rw [← h.eq_of_owner hm' hm (Option.some.inj hHolds)]
        exact hNew
      · have hNobody : ∀ m' ∈ ms, m'.new ≠ some k := fun m' hm' hEq => hNew ⟨m', hm', hEq⟩
        by_cases hOld : ∃ m' ∈ ms, m'.old = some k
        · obtain ⟨m', hm', hOld⟩ := hOld
          obtain ⟨before, after, hSplit⟩ := List.append_of_mem hm'
          rw [run_old hSplit hOld (hNobody m' hm') (fun m'' hm'' => hNobody m''
            (hSplit ▸ List.mem_append_right _ (List.mem_cons_of_mem _ hm'')))] at hHolds
          cases hHolds
        · have hNotOld : ∀ m' ∈ ms, m'.old ≠ some k := fun m' hm' hEq => hOld ⟨m', hm', hEq⟩
          rw [run_other (fun m' hm' => Or.inr ⟨hNotOld m' hm', hNobody m' hm'⟩)] at hHolds
          exact absurd (hAll m hm k hHolds (hNotOld m hm)) hNew
    · exact hTaken m hm

end Valid

end Handover
