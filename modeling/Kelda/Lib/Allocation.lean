import Mathlib

/-! Handing out values of a pool to the keys of a table. A value may be open,
which means that its key still wants another one; an attempt goes over the open
keys and gives each a value that is not in use, without looking whether it is
open itself. Attempts are repeated a number of times. -/
namespace Allocation

section Assign

variable {κ α : Type} [DecidableEq κ] {t : List (κ × α)} {k : κ} {a : α} {e : κ × α}

/-- Give a key a new value. -/
def assign (t : List (κ × α)) (k : κ) (a : α) : List (κ × α) :=
  t.map (fun e => if e.1 = k then (k, a) else e)

variable (t k a) in
theorem map_fst_assign : (assign t k a).map Prod.fst = t.map Prod.fst := by
  rw [assign, List.map_map]
  apply List.map_congr_left
  intro e _
  by_cases h : e.1 = k <;> simp [h]

/-- An entry is the new one, or an old one of another key. -/
theorem mem_assign (h : e ∈ assign t k a) : e = (k, a) ∨ (e ∈ t ∧ e.1 ≠ k) := by
  obtain ⟨old, hOld, rfl⟩ := List.mem_map.mp h
  split_ifs with hKey
  · exact Or.inl rfl
  · exact Or.inr ⟨hOld, hKey⟩

theorem mem_assign_of_ne (h : e ∈ t) (hKey : e.1 ≠ k) : e ∈ assign t k a :=
  List.mem_map.mpr ⟨e, h, if_neg hKey⟩

theorem mem_assign_self (a : α) (h : k ∈ t.map Prod.fst) : (k, a) ∈ assign t k a := by
  obtain ⟨e, he, rfl⟩ := List.mem_map.mp h
  exact List.mem_map.mpr ⟨e, he, if_pos rfl⟩

theorem assign_of_notMem (h : k ∉ t.map Prod.fst) : assign t k a = t := by
  conv_rhs => rw [← List.map_id t]
  apply List.map_congr_left
  intro e he
  exact if_neg (fun hKey : e.1 = k => h (hKey ▸ List.mem_map_of_mem he))

end Assign

section OpenKeys

variable {κ α : Type} {isOpen : α → Bool} {t : List (κ × α)} {ks : List κ}

/-- The keys that want another value. -/
def openKeys (isOpen : α → Bool) (t : List (κ × α)) : List κ :=
  (t.filter (fun e => isOpen e.2)).map Prod.fst

theorem mem_openKeys (hNodup : (t.map Prod.fst).Nodup) {e : κ × α} (he : e ∈ t) :
    e.1 ∈ openKeys isOpen t ↔ isOpen e.2 = true := by
  constructor
  · intro hMem
    obtain ⟨e', he', hKey⟩ := List.mem_map.mp hMem
    obtain ⟨hOld, hOpen⟩ := List.mem_filter.mp he'
    rwa [List.inj_on_of_nodup_map hNodup hOld he hKey] at hOpen
  · exact fun hOpen => List.mem_map.mpr ⟨e, List.mem_filter.mpr ⟨he, hOpen⟩, rfl⟩

/-- The values of some kind are distinct if each is that of one key. -/
theorem nodup_values_iff (hNodup : (t.map Prod.fst).Nodup) :
    ((t.map Prod.snd).filter isOpen).Nodup ↔
      ∀ e ∈ t, isOpen e.2 = true → ∀ e' ∈ t, e.2 = e'.2 → e.1 = e'.1 := by
  rw [List.filter_map, List.nodup_map_iff_inj_on (hNodup.of_map.filter _)]
  constructor
  · intro h e he hOpen e' he' hEq
    have hOpen' : isOpen e'.2 = true := hEq ▸ hOpen
    have hSame := h e (List.mem_filter.mpr ⟨he, hOpen⟩) e'
      (List.mem_filter.mpr ⟨he', hOpen'⟩) hEq
    rw [hSame]
  · intro h e he e' he' hEq
    obtain ⟨hMem, hOpen⟩ := List.mem_filter.mp he
    have hMem' := (List.mem_filter.mp he').1
    exact List.inj_on_of_nodup_map hNodup hMem hMem' (h e hMem hOpen e' hMem' hEq)

theorem nodup_openKeys (hNodup : (t.map Prod.fst).Nodup) : (openKeys isOpen t).Nodup :=
  hNodup.sublist (List.filter_sublist.map _)

theorem notMem_iff_closed (hNodup : (t.map Prod.fst).Nodup) (hks : ks.Perm (openKeys isOpen t))
    {e : κ × α} (he : e ∈ t) : e.1 ∉ ks ↔ isOpen e.2 = false := by
  rw [hks.mem_iff, mem_openKeys hNodup he, Bool.not_eq_true]

end OpenKeys

section UsedBy

variable {κ α : Type} [DecidableEq α] {special : Finset α} {isOpen : α → Bool} {t : List (κ × α)}
  {a : α}

/-- The values that are not handed out: special ones, and those of keys that
want no other. -/
def usedBy (special : Finset α) (isOpen : α → Bool) (t : List (κ × α)) : Finset α :=
  special ∪ ((t.filter (fun e => !isOpen e.2)).map Prod.snd).toFinset

theorem mem_usedBy :
    a ∈ usedBy special isOpen t ↔ a ∈ special ∨ ∃ e ∈ t, isOpen e.2 = false ∧ e.2 = a := by
  simp [usedBy]

end UsedBy

variable {κ α : Type} {pool special : Finset α}

/-- A source of values, by the number of the draw and the values in use. It
fails only if the whole pool is in use. -/
structure Picker (pool : Finset α) where
  pick : Nat → Finset α → Option α
  fresh : ∀ {n used a}, pick n used = some a → a ∈ pool ∧ a ∉ used
  exhausted : ∀ {n used}, pick n used = none → pool ⊆ used

structure State (κ α : Type) where
  table : List (κ × α)
  used : Finset α
  draws : Nat

/-- How far an attempt on a table has come: some of the keys are still
pending, the others have got values of the pool that were not in use. -/
structure Progress (pool used₀ : Finset α) (start : List (κ × α)) (keys pending : List κ)
    (s : State κ α) : Prop where
  sameKeys : s.table.map Prod.fst = start.map Prod.fst
  usedStart : used₀ ⊆ s.used
  pendingKeys : ∀ k ∈ pending, k ∈ keys
  kept : ∀ e ∈ s.table, e.1 ∈ pending ∨ e.1 ∉ keys → e ∈ start
  given : ∀ e ∈ s.table, e.1 ∈ keys → e.1 ∉ pending → e.2 ∈ pool ∧ e.2 ∉ used₀
  used : ∀ e ∈ s.table, e.1 ∉ pending → e.2 ∈ s.used
  distinct : ∀ e ∈ s.table, ∀ e' ∈ s.table, e.1 ∈ keys → e.1 ∉ pending → e'.1 ∉ pending →
    e.2 = e'.2 → e.1 = e'.1

theorem Progress.served_or_kept {used₀ : Finset α} {t : List (κ × α)} {ks rest : List κ}
    {s : State κ α} (h : Progress pool used₀ t ks rest s) {e : κ × α}
    (he : e ∈ s.table) : (e.1 ∈ ks ∧ e.1 ∉ rest) ∨ e ∈ t := by
  by_cases hServed : e.1 ∈ ks ∧ e.1 ∉ rest
  · exact Or.inl hServed
  · refine Or.inr (h.kept e he ?_)
    by_cases hRest : e.1 ∈ rest
    · exact Or.inl hRest
    · exact Or.inr (fun hKey => hServed ⟨hKey, hRest⟩)

section Attempt

variable [DecidableEq κ] [DecidableEq α] {p : Picker pool} {used₀ : Finset α}
  {start : List (κ × α)} {keys : List κ} {s s' : State κ α} {ok : Bool}

/-- Give each of some keys a new value, until the pool is exhausted. -/
def assignAll (p : Picker pool) : List κ → State κ α → State κ α × Bool
  | [], s => (s, true)
  | k :: ks, s =>
    match p.pick s.draws s.used with
    | none => ({ s with draws := s.draws + 1 }, false)
    | some a => assignAll p ks ⟨assign s.table k a, insert a s.used, s.draws + 1⟩

/-- Keys after others are served only if those were. -/
theorem assignAll_append (p : Picker pool) (ks ks' : List κ) (s : State κ α) :
    assignAll p (ks ++ ks') s =
      if (assignAll p ks s).2 then assignAll p ks' (assignAll p ks s).1 else assignAll p ks s := by
  induction ks generalizing s with
  | nil => rfl
  | cons k ks ih =>
      rw [List.cons_append, assignAll, assignAll]
      cases p.pick s.draws s.used with
      | none => rfl
      | some a => exact ih _

/-- A value that is not in use keeps the values distinct. -/
theorem Progress.assign {k : κ} {ks : List κ} (h : Progress pool used₀ start keys (k :: ks) s)
    (hk : k ∉ ks) {a : α} (ha : a ∈ pool) (hFresh : a ∉ s.used) :
    Progress pool used₀ start keys ks
      ⟨Allocation.assign s.table k a, insert a s.used, s.draws + 1⟩ where
  sameKeys := (map_fst_assign _ _ _).trans h.sameKeys
  usedStart := h.usedStart.trans (Finset.subset_insert _ _)
  pendingKeys := fun k' hk' => h.pendingKeys k' (List.mem_cons_of_mem _ hk')
  kept := by
    intro e he hKey
    rcases mem_assign he with rfl | ⟨hOld, -⟩
    · have hKeys := h.pendingKeys k (List.mem_cons_self ..)
      exact (hKey.elim hk (fun hNot => hNot hKeys)).elim
    · exact h.kept e hOld (hKey.imp_left (List.mem_cons_of_mem _))
  given := by
    intro e he hKey hPending
    rcases mem_assign he with rfl | ⟨hOld, hne⟩
    · exact ⟨ha, fun hUsed => hFresh (h.usedStart hUsed)⟩
    · exact h.given e hOld hKey (by simp [hne, hPending])
  used := by
    intro e he hPending
    rcases mem_assign he with rfl | ⟨hOld, hne⟩
    · exact Finset.mem_insert_self _ _
    · exact Finset.mem_insert_of_mem (h.used e hOld (by simp [hne, hPending]))
  distinct := by
    -- all other values are in use, so the new one is none of them
    have hOther : ∀ e ∈ s.table, e.1 ≠ k → e.1 ∉ ks → e.2 ≠ a := by
      rintro e he hne hPending rfl
      exact hFresh (h.used e he (by simp [hne, hPending]))
    intro e he e' he' hKey hPending hPending' hEq
    rcases mem_assign he with rfl | ⟨hOld, hne⟩ <;> rcases mem_assign he' with rfl | ⟨hOld', hne'⟩
    · rfl
    · exact (hOther e' hOld' hne' hPending' hEq.symm).elim
    · exact (hOther e hOld hne hPending hEq).elim
    · exact h.distinct e hOld e' hOld' hKey (by simp [hne, hPending]) (by simp [hne', hPending'])
        hEq

/-- An attempt either serves all keys or leaves some pending. -/
theorem Progress.assignAll {ks : List κ} (h : Progress pool used₀ start keys ks s)
    (hNodup : ks.Nodup) (hRun : assignAll p ks s = (s', ok)) :
    ∃ rest, Progress pool used₀ start keys rest s' ∧ (ok = true → rest = []) := by
  induction ks generalizing s with
  | nil =>
      cases hRun
      exact ⟨[], h, fun _ => rfl⟩
  | cons k ks ih =>
      obtain ⟨hk, hNodup⟩ := List.nodup_cons.mp hNodup
      rw [Allocation.assignAll] at hRun
      cases hPick : p.pick s.draws s.used with
      | none =>
          rw [hPick] at hRun
          cases hRun
          exact ⟨k :: ks, ⟨h.sameKeys, h.usedStart, h.pendingKeys, h.kept, h.given, h.used,
            h.distinct⟩, fun hOk => by cases hOk⟩
      | some a =>
          rw [hPick] at hRun
          obtain ⟨hPool, hFresh⟩ := p.fresh hPick
          exact ih (h.assign hk hPool hFresh) hNodup hRun

/-- With enough values left, an attempt serves all keys. -/
theorem assignAll_of_room {ks : List κ} (hRoom : ks.length ≤ (pool \ s.used).card) :
    (assignAll p ks s).2 = true := by
  induction ks generalizing s with
  | nil => rfl
  | cons k ks ih =>
      rw [List.length_cons] at hRoom
      rw [assignAll]
      cases hPick : p.pick s.draws s.used with
      | none =>
          have hNone : pool \ s.used = ∅ := Finset.sdiff_eq_empty_iff_subset.mpr (p.exhausted hPick)
          rw [hNone, Finset.card_empty] at hRoom
          omega
      | some a =>
          obtain ⟨hPool, hFresh⟩ := p.fresh hPick
          have hMem : a ∈ pool \ s.used := Finset.mem_sdiff.mpr ⟨hPool, hFresh⟩
          have hLess : pool \ insert a s.used = (pool \ s.used).erase a := by
            rw [Finset.sdiff_insert]
          refine ih ?_
          rw [hLess, Finset.card_erase_of_mem hMem]
          omega

/-- An entry whose key is not served again stays. -/
theorem mem_assignAll {ks : List κ} {e : κ × α} (he : e ∈ s.table) (hKey : e.1 ∉ ks) :
    e ∈ (assignAll p ks s).1.table := by
  induction ks generalizing s with
  | nil => exact he
  | cons k ks ih =>
      rw [List.mem_cons, not_or] at hKey
      rw [assignAll]
      cases p.pick s.draws s.used with
      | none => exact he
      | some a => exact ih (mem_assign_of_ne he hKey.1) hKey.2

/-- The first key of an attempt gets the value that comes first. -/
theorem mem_assignAll_pick {ks : List κ} {x : α} (hPick : p.pick s.draws s.used = some x)
    (hRun : assignAll p ks s = (s', ok)) (hNodup : ks.Nodup) (hNe : ks ≠ [])
    (hKeys : ∀ k ∈ ks, k ∈ s.table.map Prod.fst) : ∃ e ∈ s'.table, e.2 = x := by
  cases ks with
  | nil => exact (hNe rfl).elim
  | cons k ks =>
      have hTable : s' = (assignAll p (k :: ks) s).1 := by rw [hRun]
      have hMem : (k, x) ∈ assign s.table k x := mem_assign_self x (hKeys k (List.mem_cons_self ..))
      rw [assignAll, hPick] at hTable
      refine ⟨(k, x), ?_, rfl⟩
      rw [hTable]
      exact mem_assignAll hMem (List.nodup_cons.mp hNodup).1

end Attempt

section Rounds

variable [DecidableEq α]

/-- What attempts keep: only keys that wanted a value have got another one, and
a value that needs no other is nobody else's. -/
structure Kept (pool special : Finset α) (isOpen : α → Bool) (t₀ t : List (κ × α)) : Prop where
  nodup : (t₀.map Prod.fst).Nodup
  sameKeys : t.map Prod.fst = t₀.map Prod.fst
  closed : ∀ e ∈ t₀, isOpen e.2 = false → e ∈ t
  origin : ∀ e ∈ t, e ∈ t₀ ∨
    (e.1 ∈ openKeys isOpen t₀ ∧ e.2 ∈ pool ∧ e.2 ∉ usedBy special isOpen t₀)
  distinct : ∀ e ∈ t, e.1 ∈ openKeys isOpen t₀ → isOpen e.2 = false →
    ∀ e' ∈ t, e.2 = e'.2 → e.1 = e'.1

/-- Every key that wanted a value has got one of its own. -/
def Complete (pool special : Finset α) (isOpen : α → Bool) (t₀ t : List (κ × α)) : Prop :=
  ∀ e ∈ t, e.1 ∈ openKeys isOpen t₀ → e.2 ∈ pool ∧ e.2 ∉ usedBy special isOpen t₀ ∧
    ∀ e' ∈ t, e.2 = e'.2 → e.1 = e'.1

/-- At most so many attempts, each in some order of the open keys, until there
are none. The first flag is that of the last attempt, the second that of the
end. -/
inductive Attempts [DecidableEq κ] (special : Finset α) (isOpen : α → Bool) (p : Picker pool) :
    Nat → Bool → List (κ × α) → Nat → List (κ × α) → Bool → Prop where
  | done (ok : Bool) (t : List (κ × α)) (n : Nat) : Attempts special isOpen p 0 ok t n t ok
  | nothing {i : Nat} {ok : Bool} {t : List (κ × α)} {n : Nat} (h : openKeys isOpen t = []) :
      Attempts special isOpen p (i + 1) ok t n t true
  | attempt {i : Nat} {ok ok' r : Bool} {t t' : List (κ × α)} {n : Nat} {s : State κ α}
      (ks : List κ) (hks : ks.Perm (openKeys isOpen t)) (hOpen : openKeys isOpen t ≠ [])
      (hRun : assignAll p ks ⟨t, usedBy special isOpen t, n⟩ = (s, ok'))
      (hRest : Attempts special isOpen p i ok' s.table s.draws t' r) :
      Attempts special isOpen p (i + 1) ok t n t' r

variable {isOpen : α → Bool} {t t' t₀ : List (κ × α)} {ks rest : List κ} {s : State κ α} {n : Nat}

theorem Kept.refl (hNodup : (t.map Prod.fst).Nodup) : Kept pool special isOpen t t where
  nodup := hNodup
  sameKeys := rfl
  closed := fun _ he _ => he
  origin := fun _ he => Or.inl he
  distinct := by
    intro e he hKey hClosed
    rw [mem_openKeys hNodup he, hClosed] at hKey
    cases hKey

/-- An attempt starts with all open keys pending. -/
theorem Progress.start (hNodup : (t.map Prod.fst).Nodup) (hks : ks.Perm (openKeys isOpen t)) :
    Progress pool (usedBy special isOpen t) t ks ks ⟨t, usedBy special isOpen t, n⟩ where
  sameKeys := rfl
  usedStart := Finset.Subset.refl _
  pendingKeys := fun _ hk => hk
  kept := fun _ he _ => he
  given := fun _ _ hKey hPending => (hPending hKey).elim
  used := fun e he hPending =>
    mem_usedBy.mpr (Or.inr ⟨e, he, (notMem_iff_closed hNodup hks he).mp hPending, rfl⟩)
  distinct := fun _ _ _ _ hKey hPending => (hPending hKey).elim

namespace Kept

variable (h : Kept pool special isOpen t₀ t)

include h

theorem nodup_after : (t.map Prod.fst).Nodup :=
  h.sameKeys ▸ h.nodup

/-- Values in use stay in use. -/
theorem usedBy_subset : usedBy special isOpen t₀ ⊆ usedBy special isOpen t := by
  intro a ha
  rcases mem_usedBy.mp ha with hSpecial | ⟨e, he, hClosed, rfl⟩
  · exact mem_usedBy.mpr (Or.inl hSpecial)
  · exact mem_usedBy.mpr (Or.inr ⟨e, h.closed e he hClosed, hClosed, rfl⟩)

/-- A key that wants a value has wanted one from the start. -/
theorem openKeys_subset {k : κ} (hk : k ∈ openKeys isOpen t) : k ∈ openKeys isOpen t₀ := by
  obtain ⟨e, he, rfl⟩ := List.mem_map.mp hk
  obtain ⟨hMem, hOpen⟩ := List.mem_filter.mp he
  rcases h.origin e hMem with hOld | ⟨hKey, -⟩
  · exact (mem_openKeys h.nodup hOld).mpr hOpen
  · exact hKey

/-- One attempt keeps what the attempts before it kept. -/
theorem attempt (hks : ks.Perm (openKeys isOpen t))
    (hProgress : Progress pool (usedBy special isOpen t) t ks rest s) :
    Kept pool special isOpen t₀ s.table where
  nodup := h.nodup
  sameKeys := hProgress.sameKeys.trans h.sameKeys
  closed := by
    intro e he hClosed
    have hOld := h.closed e he hClosed
    have hKey : e.1 ∉ ks := (notMem_iff_closed h.nodup_after hks hOld).mpr hClosed
    have hMem : e.1 ∈ s.table.map Prod.fst := hProgress.sameKeys ▸ List.mem_map_of_mem hOld
    obtain ⟨e', he', hEq⟩ := List.mem_map.mp hMem
    have hOld' := hProgress.kept e' he' (Or.inr (hEq ▸ hKey))
    rwa [List.inj_on_of_nodup_map h.nodup_after hOld hOld' hEq.symm]
  origin := by
    intro e he
    rcases hProgress.served_or_kept he with ⟨hKey, hRest⟩ | hOld
    · obtain ⟨hPool, hFresh⟩ := hProgress.given e he hKey hRest
      exact Or.inr ⟨h.openKeys_subset (hks.mem_iff.mp hKey), hPool,
        fun hUsed => hFresh (h.usedBy_subset hUsed)⟩
    · exact h.origin e hOld
  distinct := by
    intro e he hKey hClosed e' he' hEq
    rcases hProgress.served_or_kept he with ⟨hServed, hRest⟩ | hOld
    · refine hProgress.distinct e he e' he' hServed hRest (fun hRest' => ?_) hEq
      have hOld' := hProgress.kept e' he' (Or.inl hRest')
      exact (notMem_iff_closed h.nodup_after hks hOld').mpr (hEq ▸ hClosed)
        (hProgress.pendingKeys _ hRest')
    · have hNot : e.1 ∉ ks := (notMem_iff_closed h.nodup_after hks hOld).mpr hClosed
      rcases hProgress.served_or_kept he' with ⟨hServed', hRest'⟩ | hOld'
      · exact (hProgress.distinct e' he' e he hServed' hRest'
          (fun hRest => hNot (hProgress.pendingKeys _ hRest)) hEq.symm).symm
      · exact h.distinct e hOld hKey hClosed e' hOld' hEq

theorem value {e : κ × α} (he : e ∈ t) (hKey : e.1 ∈ openKeys isOpen t₀)
    (hClosed : isOpen e.2 = false) :
    e.2 ∈ pool ∧ e.2 ∉ usedBy special isOpen t₀ := by
  rcases h.origin e he with hOld | ⟨-, hValue⟩
  · rw [mem_openKeys h.nodup hOld, hClosed] at hKey
    cases hKey
  · exact hValue

/-- If no value is open any more, all keys have got theirs. -/
theorem complete (hClosed : ∀ e ∈ t, isOpen e.2 = false) : Complete pool special isOpen t₀ t := by
  intro e he hKey
  obtain ⟨hPool, hFresh⟩ := h.value he hKey (hClosed e he)
  exact ⟨hPool, hFresh, h.distinct e he hKey (hClosed e he)⟩

/-- An attempt that leaves nothing pending serves all keys. -/
theorem complete_attempt (hks : ks.Perm (openKeys isOpen t))
    (hProgress : Progress pool (usedBy special isOpen t) t ks [] s) :
    Complete pool special isOpen t₀ s.table := by
  intro e he hKey
  by_cases hServed : e.1 ∈ ks
  · obtain ⟨hPool, hFresh⟩ := hProgress.given e he hServed (by simp)
    refine ⟨hPool, fun hUsed => hFresh (h.usedBy_subset hUsed), fun e' he' hEq => ?_⟩
    exact hProgress.distinct e he e' he' hServed (by simp) (by simp) hEq
  · have hOld := hProgress.kept e he (Or.inr hServed)
    have hClosed := (notMem_iff_closed h.nodup_after hks hOld).mp hServed
    have hAfter := h.attempt hks hProgress
    obtain ⟨hPool, hFresh⟩ := hAfter.value he hKey hClosed
    exact ⟨hPool, hFresh, hAfter.distinct e he hKey hClosed⟩

end Kept

/-- Attempts keep what they should, and if the last one served all its keys,
every key has its value. -/
theorem Attempts.outcome [DecidableEq κ] {p : Picker pool} {i : Nat} {ok r : Bool}
    (h : Attempts special isOpen p i ok t n t' r) (hKept : Kept pool special isOpen t₀ t)
    (hOk : i = 0 → ok = true → Complete pool special isOpen t₀ t) :
    Kept pool special isOpen t₀ t' ∧ (r = true → Complete pool special isOpen t₀ t') := by
  induction h with
  | done ok t n => exact ⟨hKept, hOk rfl⟩
  | @nothing i ok t n hNone =>
      refine ⟨hKept, fun _ => hKept.complete (fun e he => ?_)⟩
      have hKey : e.1 ∉ openKeys isOpen t := by simp [hNone]
      rwa [mem_openKeys hKept.nodup_after he, Bool.not_eq_true] at hKey
  | @attempt i ok ok' r t t' n s ks hks hOpen hRun hRest ih =>
      have hNodup : ks.Nodup := hks.nodup_iff.mpr (nodup_openKeys hKept.nodup_after)
      obtain ⟨rest, hProgress, hDone⟩ :=
        (Progress.start hKept.nodup_after hks).assignAll hNodup hRun
      refine ih (hKept.attempt hks hProgress) (fun _ hOk' => ?_)
      rw [hDone hOk'] at hProgress
      exact hKept.complete_attempt hks hProgress

/-- If the values that need no other were distinct and not special before, all
values are so afterwards. -/
theorem Complete.distinct (h : Complete pool special isOpen t₀ t)
    (hKept : Kept pool special isOpen t₀ t)
    (hStart : ∀ e ∈ t₀, isOpen e.2 = false → e.2 ∉ special ∧ ∀ e' ∈ t₀, e.2 = e'.2 → e.1 = e'.1)
    {e : κ × α} (he : e ∈ t) : e.2 ∉ special ∧ ∀ e' ∈ t, e.2 = e'.2 → e.1 = e'.1 := by
  have hOld : ∀ e ∈ t, e.1 ∉ openKeys isOpen t₀ → e ∈ t₀ ∧ isOpen e.2 = false := by
    intro e he hKey
    have hMem := (hKept.origin e he).resolve_right (fun hNew => hKey hNew.1)
    rw [mem_openKeys hKept.nodup hMem, Bool.not_eq_true] at hKey
    exact ⟨hMem, hKey⟩
  by_cases hKey : e.1 ∈ openKeys isOpen t₀
  · obtain ⟨-, hFresh, hDistinct⟩ := h e he hKey
    exact ⟨fun hSpecial => hFresh (mem_usedBy.mpr (Or.inl hSpecial)), hDistinct⟩
  · obtain ⟨hMem, hClosed⟩ := hOld e he hKey
    refine ⟨(hStart e hMem hClosed).1, fun e' he' hEq => ?_⟩
    by_cases hKey' : e'.1 ∈ openKeys isOpen t₀
    · exact ((h e' he' hKey').2.2 e he hEq.symm).symm
    · exact (hStart e hMem hClosed).2 e' (hOld e' he' hKey').1 hEq

/-- If all keys that wanted a value have got their own, there were at least as
many values that were not in use. -/
theorem Complete.room [DecidableEq κ] (h : Complete pool special isOpen t₀ t)
    (hKept : Kept pool special isOpen t₀ t) :
    (openKeys isOpen t₀).length ≤ (pool \ usedBy special isOpen t₀).card := by
  rw [← List.toFinset_card_of_nodup (nodup_openKeys hKept.nodup)]
  refine Finset.card_le_card_of_forall_subsingleton (fun k a => (k, a) ∈ t) ?_ ?_
  · intro k hk
    rw [List.mem_toFinset] at hk
    obtain ⟨e, he, rfl⟩ := List.mem_map.mp hk
    have hKey : e.1 ∈ t.map Prod.fst :=
      hKept.sameKeys ▸ List.mem_map_of_mem (List.mem_filter.mp he).1
    obtain ⟨⟨k, a⟩, hMem, hEq⟩ := List.mem_map.mp hKey
    obtain ⟨hPool, hFresh, -⟩ := h (k, a) hMem (hEq ▸ hk)
    exact ⟨a, Finset.mem_sdiff.mpr ⟨hPool, hFresh⟩, hEq ▸ hMem⟩
  · rintro a - k ⟨hk, hMem⟩ k' ⟨-, hMem'⟩
    exact (h (k, a) hMem (List.mem_toFinset.mp hk)).2.2 (k', a) hMem' rfl

/-- Open values that an attempt has given out are distinct and not in use. -/
theorem Complete.again (h : Complete pool special isOpen t t')
    (hKept : Kept pool special isOpen t t') :
    Complete pool special isOpen t' t' := by
  intro e he hOpen
  obtain ⟨hPool, hFresh, hDistinct⟩ := h e he (hKept.openKeys_subset hOpen)
  refine ⟨hPool, fun hUsed => ?_, hDistinct⟩
  rcases mem_usedBy.mp hUsed with hSpecial | ⟨e', he', hClosed, hEq⟩
  · exact hFresh (mem_usedBy.mpr (Or.inl hSpecial))
  · rw [mem_openKeys hKept.nodup_after he, ← hEq, hClosed] at hOpen
    cases hOpen

end Rounds

section Unlucky

variable [DecidableEq κ] [DecidableEq α] {isOpen : α → Bool} {p : Picker pool}
  {t t' : List (κ × α)} {ks : List κ} {s : State κ α} {i n : Nat} {ok r : Bool} {x : α}

/-- Some keys want a value, and there are values for all of them. -/
structure Wanting (pool special : Finset α) (isOpen : α → Bool) (t : List (κ × α)) : Prop where
  nodup : (t.map Prod.fst).Nodup
  some_open : openKeys isOpen t ≠ []
  room : (openKeys isOpen t).length ≤ (pool \ usedBy special isOpen t).card

/-- An attempt with such a source leaves room for another one. -/
theorem Wanting.assignAll (h : Wanting pool special isOpen t)
    (hPick : ∀ n used, x ∉ used → p.pick n used = some x) (hSpecial : x ∉ special)
    (hx : isOpen x = true) (hks : ks.Perm (openKeys isOpen t))
    (hRun : assignAll p ks ⟨t, usedBy special isOpen t, n⟩ = (s, ok)) :
    ok = true ∧ Wanting pool special isOpen s.table ∧ ∃ e ∈ s.table, e.2 = x := by
  have hNodup : ks.Nodup := hks.nodup_iff.mpr (nodup_openKeys h.nodup)
  have hOk : ok = true := by
    have hAll := assignAll_of_room (p := p) (s := ⟨t, usedBy special isOpen t, n⟩)
      (hks.length_eq ▸ h.room)
    rwa [hRun] at hAll
  obtain ⟨rest, hProgress, hDone⟩ := (Progress.start h.nodup hks).assignAll hNodup hRun
  rw [hDone hOk] at hProgress
  have hKept := (Kept.refl h.nodup).attempt hks hProgress
  have hComplete := (Kept.refl h.nodup).complete_attempt hks hProgress
  have hFresh : x ∉ usedBy special isOpen t := by
    rw [mem_usedBy]
    rintro (hMem | ⟨e, -, hClosed, rfl⟩)
    · exact hSpecial hMem
    · rw [hx] at hClosed
      cases hClosed
  have hKeys : ∀ k ∈ ks, k ∈ t.map Prod.fst := fun k hk =>
    (List.filter_sublist.map Prod.fst).subset (hks.mem_iff.mp hk)
  obtain ⟨e, he, hValue⟩ := mem_assignAll_pick (hPick n _ hFresh) hRun hNodup
    (fun hNil => h.some_open (hNil ▸ hks).nil_eq.symm) hKeys
  refine ⟨hOk, ⟨hKept.nodup_after, fun hNone => ?_,
    (hComplete.again hKept).room (Kept.refl hKept.nodup_after)⟩, e, he, hValue⟩
  have hKey := (mem_openKeys hKept.nodup_after he).mpr (hValue ▸ hx)
  rw [hNone] at hKey
  cases hKey

/-- A source that answers with one open value while that is not in use spoils
every attempt: each succeeds, and leaves a key with this value. -/
theorem Attempts.unlucky (hPick : ∀ n used, x ∉ used → p.pick n used = some x)
    (hSpecial : x ∉ special) (hx : isOpen x = true)
    (h : Attempts special isOpen p i ok t n t' r) (hWanting : Wanting pool special isOpen t)
    (hStart : i = 0 → ok = true ∧ ∃ e ∈ t, e.2 = x) : r = true ∧ ∃ e ∈ t', e.2 = x := by
  induction h with
  | done ok t n => exact hStart rfl
  | nothing hNone => exact (hWanting.some_open hNone).elim
  | attempt ks hks _ hRun _ ih =>
      obtain ⟨hOk, hAgain, hMem⟩ := hWanting.assignAll hPick hSpecial hx hks hRun
      exact ih hAgain (fun _ => ⟨hOk, hMem⟩)

end Unlucky

end Allocation
