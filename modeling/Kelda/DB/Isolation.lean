import Mathlib.Data.Finset.Max
import Mathlib.Data.Fintype.Defs
import Mathlib.Data.String.Basic
import Kelda.DB.Trigger

/-! Transactions take their mutexes in the order of the table names. So the
thread that holds the last of all mutexes that are held does not wait for
another thread, and no state is a deadlock. -/
namespace Kelda.DB

section Order

/-- Resources are taken in increasing order of their keys. Then the holder of
the last one waits for nothing that is held. -/
theorem exists_unblocked {R P K : Type} [Fintype R] [LinearOrder K] (key : R → K)
    (owner : R → Option P) (waitsFor : P → Option R)
    (hOrder : ∀ r p r', owner r = some p → waitsFor p = some r' → key r < key r') {r : R} {p : P}
    (hOwned : owner r = some p) :
    ∃ r p, owner r = some p ∧ ∀ r', waitsFor p = some r' → owner r' = none := by
  obtain ⟨last, hLast, hMax⟩ := Finset.exists_max_image
    (Finset.univ.filter (fun r => (owner r).isSome)) key ⟨r, by simp [hOwned]⟩
  obtain ⟨holder, hHolder⟩ := Option.isSome_iff_exists.mp (Finset.mem_filter.mp hLast).2
  refine ⟨last, holder, hHolder, fun r' hWaits => ?_⟩
  have hAbove := hOrder last holder r' hHolder hWaits
  by_contra hHeld
  have hBelow := hMax r' (by simpa [Option.isSome_iff_ne_none] using hHeld)
  exact absurd hBelow (not_le.mpr hAbove)

instance : Fintype TableType where
  elems := {.blueprint, .machine, .container, .minion, .connection, .loadBalancer, .etcd,
    .placement, .image, .hostname}
  complete := by
    intro tt
    cases tt <;> simp

theorem TableType.name_injective : Function.Injective TableType.name := by
  intro tt tt' h
  cases tt <;> cases tt' <;> first | rfl | simp [TableType.name] at h

/-- A mutex that is taken later has a larger name. -/
theorem name_lt_of_lockOrder {tables locked todo : List TableType} {tt tt' : TableType}
    (h : locked ++ tt :: todo = lockOrder tables) (hMem : tt' ∈ locked) : tt'.name < tt.name := by
  have hTotal : Std.Total (fun tt tt' : TableType => tt.name ≤ tt'.name) :=
    ⟨fun tt tt' => le_total tt.name tt'.name⟩
  have hTrans : IsTrans TableType (fun tt tt' => tt.name ≤ tt'.name) :=
    ⟨fun _ _ _ hab hbc => hab.trans hbc⟩
  have hSorted : (lockOrder tables).Pairwise (fun tt tt' => tt.name ≤ tt'.name) :=
    List.pairwise_insertionSort _ _
  have hNodup := nodup_lockOrder tables
  rw [← h, List.pairwise_append] at hSorted
  rw [← h, List.nodup_append] at hNodup
  apply lt_of_le_of_ne (hSorted.2.2 tt' hMem tt (List.mem_cons_self ..))
  intro hName
  exact hNodup.2.2 tt' hMem tt (List.mem_cons_self ..) (TableType.name_injective hName)

end Order

namespace System

variable {ι : Type} {tables : ι → List TableType} {s : System ι} {i : ι}

/-- The mutex that a thread is about to take. -/
def waitsFor : Phase ι → Option TableType
  | .locking _ (tt :: _) => some tt
  | _ => none

/-- A thread only waits for a mutex whose table comes after those it holds. -/
theorem Locks.waits_in_order (h : Locks (fun i => Call.txn (tables i)) s) {tt tt' : TableType}
    (hOwned : s.owner tt = some i) (hWaits : waitsFor (s.phase i) = some tt') :
    tt.name < tt'.name := by
  have hOK := h.phase i
  have hHeld := (h.owner i tt).mp hOwned
  cases hPhase : s.phase i with
  | locking locked todo =>
      rw [hPhase] at hOK hHeld hWaits
      cases todo with
      | nil => cases hWaits
      | cons tt todo =>
          cases hWaits
          exact name_lt_of_lockOrder hOK hHeld
  | _ =>
      rw [hPhase] at hWaits
      cases hWaits

variable [DecidableEq ι]

/-- A thread that is not waiting for a mutex that is held can go on. -/
theorem exists_step_of_free (h : Locks (fun i => Call.txn (tables i)) s)
    (hUnfinished : s.phase i ≠ .done)
    (hFree : ∀ tt, waitsFor (s.phase i) = some tt → s.owner tt = none) :
    ∃ a s', Step (fun i => Call.txn (tables i)) s i a s' := by
  cases hPhase : s.phase i with
  | locking locked todo =>
      cases todo with
      | nil => exact ⟨_, _, Step.enter hPhase⟩
      | cons tt todo => exact ⟨_, _, Step.lock hPhase (hFree tt (by rw [hPhase]; rfl))⟩
  | body => exact ⟨_, _, Step.finishTxn rfl hPhase⟩
  | registered => exact ⟨_, _, Step.finishTrigger hPhase⟩
  | alerting todo =>
      cases todo with
      | nil => exact ⟨_, _, Step.release hPhase⟩
      | cons tt todo => exact ⟨_, _, Step.alert hPhase (List.mem_cons_self ..)⟩
  | visiting tt pending todo =>
      cases pending with
      | nil => exact ⟨_, _, Step.nextTable hPhase⟩
      | cons j pending => exact ⟨_, _, Step.visit hPhase (List.mem_cons_self ..)⟩
  | unlocking rest =>
      cases rest with
      | nil => exact ⟨_, _, Step.leaveTxn rfl hPhase⟩
      | cons tt rest => exact ⟨_, _, Step.unlock hPhase (List.mem_cons_self ..)⟩
  | sending =>
      have hOK := h.phase i
      rw [hPhase] at hOK
      obtain ⟨tables', ticks, hCall⟩ := hOK
      cases hCall
  | done => exact (hUnfinished hPhase).elim

theorem Locks.exists_step (h : Locks (fun i => Call.txn (tables i)) s)
    (hUnfinished : s.phase i ≠ .done) :
    ∃ k a s', s.phase k ≠ .done ∧ Step (fun i => Call.txn (tables i)) s k a s' := by
  by_cases hFree : ∀ tt, waitsFor (s.phase i) = some tt → s.owner tt = none
  · obtain ⟨a, s', hStep⟩ := exists_step_of_free h hUnfinished hFree
    exact ⟨i, a, s', hUnfinished, hStep⟩
  · simp only [not_forall] at hFree
    obtain ⟨tt, -, hHeld⟩ := hFree
    obtain ⟨holder, hHolder⟩ := Option.ne_none_iff_exists'.mp hHeld
    obtain ⟨tt', k, hOwned, hUnblocked⟩ := exists_unblocked TableType.name s.owner
      (fun k => waitsFor (s.phase k)) (fun _ _ _ hOwned hWaits => h.waits_in_order hOwned hWaits)
      hHolder
    have hBusy : s.phase k ≠ .done := by
      intro hDone
      have hMem := (h.owner k tt').mp hOwned
      rw [hDone] at hMem
      cases hMem
    obtain ⟨a, s', hStep⟩ := exists_step_of_free h hBusy hUnblocked
    exact ⟨k, a, s', hBusy, hStep⟩

/-- Transactions are free of deadlock, isolated from each other, and leave no
mutex locked. -/
theorem transactions_isolated {s₀ : System ι} (hInit : Initial (fun i => Call.txn (tables i)) s₀)
    (hRun : Run (fun i => Call.txn (tables i)) anyStep s₀ s) :
    ((∃ i, s.phase i ≠ .done) →
      ∃ k a s', s.phase k ≠ .done ∧ Step (fun i => Call.txn (tables i)) s k a s') ∧
    (∀ i j tt, i ≠ j → tt ∈ tables i → tt ∈ tables j → ¬(s.phase i = .body ∧ s.phase j = .body)) ∧
    ((∀ i, s.phase i = .done) → ∀ tt, s.owner tt = none) := by
  have hLocks : Locks (fun i => Call.txn (tables i)) s :=
    hRun.invariant (Locks.initial hInit) (fun s i a s' h _ hStep => h.step hStep)
  refine ⟨fun ⟨i, hUnfinished⟩ => hLocks.exists_step hUnfinished, ?_, ?_⟩
  · rintro i j tt hne hi hj ⟨hBodyI, hBodyJ⟩
    have hHeldI : tt ∈ held (fun i => Call.txn (tables i)) i (s.phase i) := by
      simpa [hBodyI, held, Call.tables] using hi
    have hHeldJ : tt ∈ held (fun i => Call.txn (tables i)) j (s.phase j) := by
      simpa [hBodyJ, held, Call.tables] using hj
    exact hne (hLocks.unique hHeldI hHeldJ)
  · intro hDone tt
    cases hOwner : s.owner tt with
    | none => rfl
    | some i =>
        have hMem := (hLocks.owner i tt).mp hOwner
        rw [hDone i] at hMem
        cases hMem

/-- Two transactions that name the same tables in opposite orders. -/
def crossing : Bool → List TableType
  | false => [.container, .machine, .container]
  | true => [.machine, .container]

def crossingStart : System Bool where
  db := Database.empty
  owner := fun _ => none
  triggers := fun _ => []
  token := fun _ => false
  stopped := fun _ => false
  ticking := fun _ => false
  phase := fun i => .locking [] (lockOrder (crossing i))

/-- The one has taken its first mutex, for which the other one waits. -/
theorem transactions_isolated_crossing : ∃ s,
    Run (fun i => Call.txn (crossing i)) anyStep crossingStart s ∧
      s.owner .container = some false ∧
      ∃ k a s', s.phase k ≠ .done ∧ Step (fun i => Call.txn (crossing i)) s k a s' := by
  have hInit : Initial (fun i => Call.txn (crossing i)) crossingStart :=
    ⟨fun _ => rfl, fun _ => rfl, fun _ => rfl, fun _ => rfl, fun _ => rfl, fun _ => rfl,
      fun _ => rfl⟩
  have hOrder : lockOrder (crossing false) = [.container, .machine] := by decide +kernel
  have hPhase : crossingStart.phase false = .locking [] [.container, .machine] :=
    congrArg (Phase.locking []) hOrder
  have hRun : Run (fun i => Call.txn (crossing i)) anyStep crossingStart crossingStart :=
    Relation.ReflTransGen.refl
  have hRun := hRun.snoc (Step.lock hPhase rfl) trivial
  refine ⟨_, hRun, rfl, (transactions_isolated hInit hRun).1 ⟨false, ?_⟩⟩
  simp

end System

end Kelda.DB
