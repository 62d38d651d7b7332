import Kelda.DB.Trigger

/-! Notifications of changes. Next to the tables it is noted what a consumer has
been told: which triggers watch a table that has changed since their last
receive, and which transactions have changed anything. JoinNotifiers merges
triggers: one goroutine for each of them forwards its tokens to a channel. -/
namespace Kelda.DB

/-- The tables that a trigger is made for. -/
def Call.watched : Call → List TableType
  | .trigger tables _ => tables
  | .txn _ => []

namespace System

variable {ι : Type}

/-- Trigger has put itself into the tables. -/
def registered : Phase ι → Bool
  | .locking _ _ | .body => false
  | _ => true

/-- The table that an action changes: a row is inserted or removed, or a row is
committed that is not the stored one. -/
def changes (s : System ι) : Action ι → Option TableType
  | .insert tt => some tt
  | .remove tt _ => some tt
  | .commit tt r => if r ∈ s.db.rows tt then none else some tt
  | _ => none

/-- An action changes a table that the trigger watches. -/
def changesFor (calls : ι → Call) (s : System ι) (a : Action ι) (j : ι) : Bool :=
  registered (s.phase j) && (s.changes a).any (· ∈ (calls j).watched)

end System

/-- The threads on a database, with what has been observed of them. -/
structure Observed (ι : Type) where
  sys : System ι
  /-- A table that the trigger watches has changed since it was registered and
  since the last receive from it. -/
  dirty : ι → Bool
  /-- The transaction has changed a table. -/
  wrote : ι → Bool
  /-- JoinNotifiers has been called. -/
  joined : Bool
  /-- Whether the channel of JoinNotifiers, which has capacity one, holds a token. -/
  channel : Bool
  /-- The forwarding goroutine has received a token and not delivered it. -/
  carrying : Nat → Bool
  /-- A table that one of the joined triggers watches has changed since it was
  registered and since the last receive from the channel. -/
  dirtyJoined : Bool

namespace Observed

open Kelda.DB.System

variable {ι : Type} [DecidableEq ι]

/-- Nothing has happened. -/
structure Initial (calls : ι → Call) (o : Observed ι) : Prop where
  sys : System.Initial calls o.sys
  dirty : ∀ j, o.dirty j = false
  wrote : ∀ i, o.wrote i = false
  joined : o.joined = false
  carrying : ∀ k, o.carrying k = false
  dirtyJoined : o.dirtyJoined = false

/-- Whether an action is a receive from the trigger. -/
def isReceive : Action ι → Bool
  | .receive => true
  | _ => false

/-- What is observed of one action of thread `i`. -/
def after (calls : ι → Call) (notifiers : List ι) (o : Observed ι) (i : ι) (a : Action ι)
    (s' : System ι) : Observed ι :=
  { o with
    sys := s'
    dirty := fun j => (o.dirty j || changesFor calls o.sys a j) && !(isReceive a && j = i)
    wrote := fun k => o.wrote k || (k = i && (o.sys.changes a).isSome)
    dirtyJoined := o.dirtyJoined || notifiers.any (changesFor calls o.sys a) }

/-- The steps of the threads, of the forwarding goroutines and of the consumer of
the joined channel. The goroutines are the only receivers of joined triggers. -/
inductive Step (calls : ι → Call) (notifiers : List ι) (o : Observed ι) : Observed ι → Prop where
  | call {i : ι} {a : Action ι} {s' : System ι} (hStep : System.Step calls o.sys i a s')
      (hOwn : isReceive a = true → o.joined = true → i ∉ notifiers) :
      Step calls notifiers o (o.after calls notifiers i a s')
  | join (hNew : o.joined = false) (hTriggers : ∀ j ∈ notifiers, o.sys.phase j = .done) :
      Step calls notifiers o { o with joined := true, channel := true }
  | take {k : Nat} {j : ι} {s' : System ι} (hJoined : o.joined = true)
      (hNotifier : notifiers[k]? = some j) (hIdle : o.carrying k = false)
      (hStep : System.Step calls o.sys j .receive s') :
      Step calls notifiers o { o.after calls notifiers j .receive s' with
        carrying := Function.update o.carrying k true }
  | deliver {k : Nat} (hCarrying : o.carrying k = true) :
      Step calls notifiers o { o with
        channel := true, carrying := Function.update o.carrying k false }
  | receive (hToken : o.channel = true) :
      Step calls notifiers o { o with channel := false, dirtyJoined := false }

def Run (calls : ι → Call) (notifiers : List ι) : Observed ι → Observed ι → Prop :=
  Relation.ReflTransGen (Step calls notifiers)

end Observed

namespace System

variable {ι : Type} {calls : ι → Call} {s s' : System ι} {i j : ι} {a : Action ι}

section Registry

/-- A trigger that has not been stopped stays in its tables, an alert concerns a
table of its thread, and only triggers tick. -/
structure Registry (calls : ι → Call) (s : System ι) : Prop where
  triggers : ∀ j, registered (s.phase j) = true → s.stopped j = false →
    ∀ tt ∈ (calls j).watched, j ∈ s.triggers tt
  visiting : ∀ i tt pending todo, s.phase i = .visiting tt pending todo → tt ∈ (calls i).tables
  ticking : ∀ i, s.ticking i = true → ∃ tables ticks, calls i = .trigger tables ticks

theorem Registry.initial (h : Initial calls s) : Registry calls s where
  triggers := by simp [h.phase, registered]
  visiting := by simp [h.phase]
  ticking := by simp [h.ticking]

variable [DecidableEq ι]

@[simp] theorem notify_stopped (s : System ι) (tt : TableType) (j : ι) :
    (s.notify tt j).stopped = s.stopped := by
  rw [notify]
  split_ifs <;> rfl

@[simp] theorem notify_ticking (s : System ι) (tt : TableType) (j : ι) :
    (s.notify tt j).ticking = s.ticking := by
  rw [notify]
  split_ifs <;> rfl

/-- Only a stopped trigger is deleted. -/
theorem mem_notify_triggers {tt tt' : TableType} {k : ι} (hStopped : s.stopped j = false)
    (hj : j ∈ s.triggers tt') : j ∈ (s.notify tt k).triggers tt' := by
  rw [notify]
  split_ifs with hk
  · by_cases hTT : tt' = tt
    · subst hTT
      have hjk : j ≠ k := by
        rintro rfl
        rw [hStopped] at hk
        cases hk
      simpa using (List.mem_erase_of_ne hjk).mpr hj
    · simpa [hTT] using hj
  · exact hj

/-- A trigger stays registered. -/
theorem Step.registered (h : Step calls s i a s') (hj : registered (s.phase j) = true) :
    System.registered (s'.phase j) = true := by
  by_cases hji : j = i
  · subst hji
    cases h <;> simp_all [System.registered, finishBody]
  · cases h <;> simp_all [finishBody]

/-- A stopped trigger stays stopped. -/
theorem Step.stopped (h : Step calls s i a s') (hj : s'.stopped j = false) :
    s.stopped j = false := by
  cases h with
  | stop hCall hPhase hRunning =>
      by_cases hji : j = i
      · exact hji ▸ hRunning
      · simpa [hji] using hj
  | _ => simpa [finishBody] using hj

/-- Only the step of Trigger itself registers a trigger. -/
theorem Step.registered_before (h : Step calls s i a s') (hTrigger : (calls j).watched ≠ [])
    (hj : System.registered (s'.phase j) = true) :
    System.registered (s.phase j) = true ∨ (j = i ∧ s' = (s.addTrigger i (calls i).watched).goto i
      .registered) := by
  by_cases hji : j = i
  · subst hji
    cases h with
    | register hCall hPhase => exact Or.inr ⟨rfl, by simp [hCall, Call.watched]⟩
    | finishTxn hCall => exact absurd (by rw [hCall]; rfl) hTrigger
    | _ => exact Or.inl (by simp_all [System.registered, finishBody])
  · refine Or.inl ?_
    cases h <;> simp_all [finishBody]

theorem Registry.step (h : Registry calls s) (hLocks : Locks calls s)
    (hStep : Step calls s i a s') : Registry calls s' := by
  constructor
  · intro j hReg hRunning tt hTT
    have hOld := hStep.stopped hRunning
    rcases hStep.registered_before (List.ne_nil_of_mem hTT) hReg with hBefore | ⟨rfl, rfl⟩
    · have hMem := h.triggers j hBefore hOld tt hTT
      cases hStep with
      | register =>
          simp only [goto_triggers, addTrigger_triggers]
          split_ifs
          · exact List.mem_insert_of_mem hMem
          · exact hMem
      | visit => exact mem_notify_triggers hOld hMem
      | _ => exact hMem
    · simp [hTT]
  · intro k tt pending todo hk
    by_cases hki : k = i
    · subst hki
      cases hStep with
      | alert hPhase hTable =>
          have hOK := hLocks.phase k
          rw [hPhase] at hOK
          simp only [goto_phase, Function.update_self, Phase.visiting.injEq] at hk
          exact hk.1 ▸ hOK hTable
      | visit hPhase =>
          simp only [goto_phase, Function.update_self, Phase.visiting.injEq] at hk
          exact hk.1 ▸ h.visiting k _ _ _ hPhase
      | insert | commit | remove | receive | stop | tick | endTicks =>
          exact h.visiting k tt pending todo hk
      | _ => simp [finishBody] at hk
    · apply h.visiting k tt pending todo
      cases hStep <;> simpa [finishBody, hki] using hk
  · intro k hk
    cases hStep with
    | send hCall =>
        by_cases hki : k = i
        · exact ⟨_, _, hki ▸ hCall⟩
        · exact h.ticking k (by simpa [hki] using hk)
    | endTicks =>
        by_cases hki : k = i
        · simp [hki] at hk
        · exact h.ticking k (by simpa [hki] using hk)
    | _ => exact h.ticking k (by simpa [finishBody] using hk)

end Registry

section Flags

variable [DecidableEq ι]

/-- An operation raises the flag of the table it changes, and no other flag. -/
theorem Step.flags (h : Step calls s i a s') (hBody : s.phase i = .body)
    (hStill : s'.phase i = .body) (tt : TableType) :
    s'.db.shouldAlert tt = true ↔ s.db.shouldAlert tt = true ∨ s.changes a = some tt := by
  have hRaise : ∀ tt', Function.update s.db.shouldAlert tt' true tt = true ↔
      s.db.shouldAlert tt = true ∨ some tt' = some tt := by
    intro tt'
    by_cases hTT : tt = tt'
    · simp [hTT]
    · simp [hTT, Ne.symm hTT]
  cases h with
  | insert => exact hRaise _
  | remove => exact hRaise _
  | @commit _ tt' r _ hCall hPhase hTable hCommit =>
      rw [s.db.commit_flags hCommit tt, changes]
      by_cases hStored : r ∈ s.db.rows tt'
      · simp [hStored]
      · rw [if_neg hStored, Option.some.injEq]
        exact or_congr_right ⟨fun hTT => hTT.1.symm, fun hTT => ⟨hTT.symm, hStored⟩⟩
  | _ => simp_all [changes, finishBody]

/-- Only operations inside the function of a transaction change a table. -/
theorem Step.body_of_changes {tt : TableType} (h : Step calls s i a s')
    (hChanges : s.changes a = some tt) :
    (∃ tables, calls i = .txn tables ∧ tt ∈ tables) ∧ s.phase i = .body ∧ s'.phase i = .body := by
  cases h with
  | insert hCall hPhase hTable =>
      cases hChanges
      exact ⟨⟨_, hCall, hTable⟩, hPhase, hPhase⟩
  | remove hCall hPhase hTable =>
      cases hChanges
      exact ⟨⟨_, hCall, hTable⟩, hPhase, hPhase⟩
  | commit hCall hPhase hTable =>
      rw [changes] at hChanges
      split_ifs at hChanges
      cases hChanges
      exact ⟨⟨_, hCall, hTable⟩, hPhase, hPhase⟩
  | _ => cases hChanges

end Flags

section Owed

/-- A thread in this phase is still to visit the trigger. -/
def ahead (c : Call) (j : ι) : Phase ι → Prop
  | .alerting todo => ∃ tt ∈ todo, tt ∈ c.watched
  | .visiting _ pending todo => j ∈ pending ∨ ∃ tt ∈ todo, tt ∈ c.watched
  | _ => False

/-- A token is in the channel of a trigger or on its way to it. -/
inductive Owed (calls : ι → Call) (s : System ι) (j : ι) : Prop where
  | token (hToken : s.token j = true)
  | flag {tt : TableType} (hWatched : tt ∈ (calls j).watched) (hFlag : s.db.shouldAlert tt = true)
  | alert {i : ι} (hAhead : ahead (calls j) j (s.phase i))

/-- A step that keeps all phases. -/
theorem Owed.keep (h : Owed calls s j) (hToken : s.token j = true → s'.token j = true)
    (hFlags : ∀ tt, s.db.shouldAlert tt = true → s'.db.shouldAlert tt = true)
    (hPhases : s'.phase = s.phase) : Owed calls s' j := by
  cases h with
  | token h => exact Owed.token (hToken h)
  | flag hWatched hFlag => exact Owed.flag hWatched (hFlags _ hFlag)
  | @alert k hAhead => exact Owed.alert (i := k) (by rwa [hPhases])

/-- When no mutex is held, what is owed is in the channel. -/
theorem Owed.settled (h : Owed calls s j) (hLocks : Locks calls s) (hFlags : Flags calls s)
    (hRegistry : Registry calls s) (hFree : ∀ tt, s.owner tt = none) : s.token j = true := by
  have hHeld : ∀ i tt, tt ∉ held calls i (s.phase i) := by
    intro i tt hMem
    have hOwner := (hLocks.owner i tt).mpr hMem
    rw [hFree] at hOwner
    cases hOwner
  cases h with
  | token hToken => exact hToken
  | @flag tt hWatched hFlag =>
      obtain ⟨i, tables, hCall, hTable, hPhase⟩ := hFlags tt hFlag
      refine (hHeld i tt ?_).elim
      simpa [hPhase, held, hCall, Call.tables] using hTable
  | @alert i hAhead =>
      cases hPhase : s.phase i with
      | alerting todo =>
          rw [hPhase] at hAhead
          obtain ⟨tt, hTodo, -⟩ := hAhead
          have hOK := hLocks.phase i
          rw [hPhase] at hOK
          refine (hHeld i tt ?_).elim
          simpa [hPhase, held] using hOK hTodo
      | visiting tt pending todo =>
          refine (hHeld i tt ?_).elim
          simpa [hPhase, held] using hRegistry.visiting i tt pending todo hPhase
      | _ =>
          rw [hPhase] at hAhead
          exact hAhead.elim

/-- No table is marked as changed when no mutex is held. -/
theorem Flags.settled (h : Flags calls s) (hLocks : Locks calls s)
    (hFree : ∀ tt, s.owner tt = none) (tt : TableType) : s.db.shouldAlert tt = false := by
  rw [← Bool.not_eq_true]
  intro hFlag
  obtain ⟨i, tables, hCall, hTable, hPhase⟩ := h tt hFlag
  have hOwner : s.owner tt = some i := by
    rw [hLocks.owner i tt, hPhase, held, mem_lockOrder, hCall]
    exact hTable
  rw [hFree] at hOwner
  cases hOwner

variable [DecidableEq ι]

/-- A move of one thread. -/
theorem Owed.move {p : Phase ι} (h : Owed calls s j)
    (hPhase : s'.phase = Function.update s.phase i p)
    (hToken : s.token j = true → s'.token j = true)
    (hFlags : ∀ tt ∈ (calls j).watched, s.db.shouldAlert tt = true → Owed calls s' j)
    (hMine : ahead (calls j) j (s.phase i) → Owed calls s' j) : Owed calls s' j := by
  cases h with
  | token h => exact Owed.token (hToken h)
  | flag hWatched hFlag => exact hFlags _ hWatched hFlag
  | @alert k hAhead =>
      by_cases hki : k = i
      · exact hMine (hki ▸ hAhead)
      · refine Owed.alert (i := k) ?_
        rwa [hPhase, Function.update_of_ne hki]

/-- The flags that are cleared become alerts. -/
theorem Owed.finish (h : Owed calls s j) (hi : ¬ahead (calls j) j (s.phase i)) :
    Owed calls (s.finishBody calls i) j := by
  refine h.move rfl (fun hToken => hToken) ?_ (fun hAhead => (hi hAhead).elim)
  intro tt hWatched hFlag
  by_cases hMine : tt ∈ (calls i).tables
  · refine Owed.alert (i := i) ?_
    simp only [finishBody, goto_phase, Function.update_self]
    exact ⟨tt, List.mem_filter.mpr ⟨mem_lockOrder.mpr hMine, hFlag⟩, hWatched⟩
  · apply Owed.flag hWatched
    simp [finishBody, Database.clearAlerts, hFlag, hMine]

/-- A visited trigger that has not been stopped has a token. -/
theorem Owed.visit {tt : TableType} {pending : List ι} {todo : List TableType} {j' : ι}
    (h : Owed calls s j) (hRunning : s.stopped j = false)
    (hi : s.phase i = .visiting tt pending todo) :
    Owed calls ((s.notify tt j').goto i (.visiting tt (pending.erase j') todo)) j := by
  by_cases hVisited : j = j'
  · apply Owed.token
    subst hVisited
    simp [notify, hRunning]
  · have hPhase : ((s.notify tt j').goto i (.visiting tt (pending.erase j') todo)).phase =
        Function.update s.phase i (.visiting tt (pending.erase j') todo) := by simp
    refine h.move hPhase (fun hToken => s.token_notify tt j' hToken) ?_ ?_
    · exact fun tt' hWatched hFlag => Owed.flag hWatched (by simpa using hFlag)
    · intro hAhead
      rw [hi] at hAhead
      refine Owed.alert (i := i) ?_
      rw [goto_phase, Function.update_self]
      exact hAhead.imp_left (fun hMem => (List.mem_erase_of_ne hVisited).mpr hMem)

/-- What is owed to a trigger is owed until it is received. -/
theorem Owed.step (h : Owed calls s j) (hRegistry : Registry calls s)
    (hReg : registered (s.phase j) = true) (hRunning : s.stopped j = false)
    (hStep : Step calls s i a s') (hOther : Observed.isReceive a = true → i ≠ j) :
    Owed calls s' j := by
  have hFull := hStep
  have hNone : ∀ p : Phase ι, s.phase i = p → (¬ahead (calls j) j p) →
      ¬ahead (calls j) j (s.phase i) := fun p hp hNot => hp ▸ hNot
  cases hStep with
  | finishTxn _ hPhase | finishTrigger hPhase => exact h.finish (hNone _ hPhase id)
  | visit hPhase => exact h.visit hRunning hPhase
  | insert _ hPhase | remove _ hPhase | commit _ hPhase =>
      exact h.keep (fun hToken => hToken)
        (fun tt hFlag => (hFull.flags hPhase hPhase tt).mpr (Or.inl hFlag)) rfl
  | @alert todo tt hPhase hTable =>
      refine h.move rfl (fun hToken => hToken)
        (fun tt hWatched hFlag => Owed.flag hWatched hFlag) ?_
      intro hAhead
      rw [hPhase] at hAhead
      obtain ⟨tt', hTodo, hWatched⟩ := hAhead
      refine Owed.alert (i := i) ?_
      rw [goto_phase, Function.update_self]
      by_cases hTT : tt' = tt
      · exact Or.inl (hRegistry.triggers j hReg hRunning tt (hTT ▸ hWatched))
      · exact Or.inr ⟨tt', (List.mem_erase_of_ne hTT).mpr hTodo, hWatched⟩
  | nextTable hPhase =>
      refine h.move rfl (fun hToken => hToken)
        (fun tt hWatched hFlag => Owed.flag hWatched hFlag) ?_
      intro hAhead
      rw [hPhase] at hAhead
      refine Owed.alert (i := i) ?_
      rw [goto_phase, Function.update_self]
      exact hAhead.resolve_left (List.not_mem_nil)
  | receive =>
      have hji := (hOther rfl).symm
      exact h.keep (fun hToken => by simpa [hji] using hToken) (fun tt hFlag => hFlag) rfl
  | tick =>
      refine h.keep (fun hToken => ?_) (fun tt hFlag => hFlag) rfl
      by_cases hji : j = i <;> simp [hji, hToken]
  | send _ hPhase =>
      refine h.move rfl ?_ (fun tt hWatched hFlag => Owed.flag hWatched hFlag)
        (fun hAhead => (hNone _ hPhase id hAhead).elim)
      intro hToken
      by_cases hji : j = i <;> simp [hji, hToken]
  | endTicks | stop => exact h.keep (fun hToken => hToken) (fun tt hFlag => hFlag) rfl
  | release hPhase =>
      refine h.move rfl (fun hToken => hToken)
        (fun tt hWatched hFlag => Owed.flag hWatched hFlag) ?_
      exact fun hAhead => (hNone _ hPhase (by simp [ahead]) hAhead).elim
  | lock hPhase | enter hPhase | register _ hPhase | unlock hPhase | leaveTxn _ hPhase
  | leaveTrigger _ hPhase =>
      exact h.move rfl (fun hToken => hToken) (fun tt hWatched hFlag => Owed.flag hWatched hFlag)
        (fun hAhead => (hNone _ hPhase id hAhead).elim)

end Owed

end System

namespace Observed

open Kelda.DB.System

variable {ι : Type} {calls : ι → Call} {o o' : Observed ι}

section Wrote

/-- Flags and alerts come from transactions that have changed something. -/
structure Wrote (calls : ι → Call) (o : Observed ι) : Prop where
  flag : ∀ tt, o.sys.db.shouldAlert tt = true →
    ∃ i tables, calls i = .txn tables ∧ tt ∈ tables ∧ o.sys.phase i = .body ∧ o.wrote i = true
  alerting : ∀ i todo, o.sys.phase i = .alerting todo → todo ≠ [] → o.wrote i = true
  visiting : ∀ i tt pending todo, o.sys.phase i = .visiting tt pending todo → o.wrote i = true

theorem Wrote.flags (h : Wrote calls o) : Flags calls o.sys := by
  intro tt hFlag
  obtain ⟨i, tables, hCall, hTable, hPhase, -⟩ := h.flag tt hFlag
  exact ⟨i, tables, hCall, hTable, hPhase⟩

theorem Wrote.initial (h : Initial calls o) : Wrote calls o where
  flag := by simp [h.sys.flags]
  alerting := by simp [h.sys.phase]
  visiting := by simp [h.sys.phase]

/-- A thread that holds a changed table has changed it. -/
theorem Wrote.of_held {i : ι} {tt : TableType} (h : Wrote calls o) (hLocks : Locks calls o.sys)
    (hHeld : tt ∈ held calls i (o.sys.phase i)) (hFlag : o.sys.db.shouldAlert tt = true) :
    o.wrote i = true := by
  obtain ⟨k, tables, hCall, hTable, hPhase, hWrote⟩ := h.flag tt hFlag
  have hSame : k = i := by
    apply hLocks.unique _ hHeld
    simpa [hPhase, held, hCall, Call.tables] using hTable
  exact hSame ▸ hWrote

variable [DecidableEq ι] {i : ι} {a : Action ι} {s' : System ι} {notifiers : List ι}

theorem Wrote.step (h : Wrote calls o) (hLocks : Locks calls o.sys)
    (hStep : System.Step calls o.sys i a s') : Wrote calls (o.after calls notifiers i a s') := by
  have hMono : ∀ k, o.wrote k = true → (o.after calls notifiers i a s').wrote k = true := by
    intro k hk
    simp [after, hk]
  have hFull := hStep
  constructor
  · intro tt hFlag
    change s'.db.shouldAlert tt = true at hFlag
    -- an old flag, whose transaction is still inside its function
    have hKeep : o.sys.db.shouldAlert tt = true →
        (∀ k tables, calls k = .txn tables → tt ∈ tables → o.sys.phase k = .body →
          s'.phase k = .body) →
        ∃ k tables, calls k = .txn tables ∧ tt ∈ tables ∧ s'.phase k = .body ∧
          (o.after calls notifiers i a s').wrote k = true := by
      intro hOld hBody
      obtain ⟨k, tables, hCall, hTable, hPhase, hWrote⟩ := h.flag tt hOld
      exact ⟨k, tables, hCall, hTable, hBody k tables hCall hTable hPhase, hMono k hWrote⟩
    have hMove : ∀ p, (∀ tables, calls i = .txn tables → tt ∈ tables → o.sys.phase i ≠ .body) →
        ∀ k tables, calls k = .txn tables → tt ∈ tables → o.sys.phase k = .body →
          Function.update o.sys.phase i p k = .body := by
      intro p hne k tables hCall hTable hBody
      have hki : k ≠ i := fun hEq => hne tables (hEq ▸ hCall) hTable (hEq ▸ hBody)
      rw [Function.update_of_ne hki, hBody]
    cases hStep with
    | insert _ hPhase | remove _ hPhase | commit _ hPhase =>
        rcases (hFull.flags hPhase hPhase tt).mp hFlag with hOld | hNew
        · exact hKeep hOld (fun _ _ _ _ hBody => hBody)
        · obtain ⟨⟨tables, hCall, hTable⟩, -, hBody⟩ := hFull.body_of_changes hNew
          exact ⟨i, tables, hCall, hTable, hBody, by simp [after, hNew]⟩
    | finishTxn _ hPhase | finishTrigger hPhase =>
        simp only [finishBody, goto_db, Database.clearAlerts, Bool.and_eq_true,
          decide_eq_true_eq, mem_lockOrder] at hFlag
        refine hKeep hFlag.1 (hMove _ ?_)
        intro tables hCall hTable
        exact absurd (by rwa [hCall]) hFlag.2
    | register hCall => exact hKeep hFlag (hMove _ (by simp [hCall]))
    | receive | stop | tick | endTicks => exact hKeep hFlag (fun _ _ _ _ hBody => hBody)
    | visit hPhase =>
        refine hKeep (by simpa using hFlag) ?_
        simpa using hMove _ (by simp [hPhase])
    | lock hPhase | enter hPhase | alert hPhase | nextTable hPhase | release hPhase | unlock hPhase
    | leaveTxn _ hPhase | leaveTrigger _ hPhase | send _ hPhase =>
        exact hKeep hFlag (hMove _ (by simp [hPhase]))
  · intro k todo hk hSome
    apply hMono
    change s'.phase k = .alerting todo at hk
    by_cases hki : k = i
    · subst hki
      cases hStep with
      | finishTxn _ hPhase | finishTrigger hPhase =>
          simp only [finishBody, goto_phase, Function.update_self, Phase.alerting.injEq] at hk
          obtain ⟨tt, hTT⟩ := List.exists_mem_of_ne_nil todo hSome
          rw [← hk, List.mem_filter] at hTT
          exact h.of_held hLocks (by simpa [hPhase, held] using hTT.1) hTT.2
      | nextTable hPhase => exact h.visiting k _ _ _ hPhase
      | insert | commit | remove | receive | stop | tick | endTicks =>
          exact h.alerting k todo hk hSome
      | _ => simp at hk
    · apply h.alerting k todo _ hSome
      cases hStep <;> simpa [finishBody, hki] using hk
  · intro k tt pending todo hk
    apply hMono
    change s'.phase k = .visiting tt pending todo at hk
    by_cases hki : k = i
    · subst hki
      cases hStep with
      | alert hPhase hTable => exact h.alerting k _ hPhase (List.ne_nil_of_mem hTable)
      | visit hPhase => exact h.visiting k _ _ _ hPhase
      | insert | commit | remove | receive | stop | tick | endTicks =>
          exact h.visiting k tt pending todo hk
      | _ => simp [finishBody] at hk
    · apply h.visiting k tt pending todo
      cases hStep <;> simpa [finishBody, hki] using hk

end Wrote

section Invariant

/-- What holds of all observed states. -/
structure Invariant (calls : ι → Call) (notifiers : List ι) (o : Observed ι) : Prop where
  locks : Locks calls o.sys
  registry : Registry calls o.sys
  wrote : Wrote calls o
  dirty : ∀ j, o.dirty j = true → registered (o.sys.phase j) = true ∧
    (o.sys.stopped j = false → Owed calls o.sys j)
  returned : o.joined = true → ∀ j ∈ notifiers, o.sys.phase j = .done
  joined : o.joined = true → o.dirtyJoined = true →
    (∀ j ∈ notifiers, o.sys.stopped j = false) →
      o.channel = true ∨ (∃ k, o.carrying k = true) ∨ ∃ j ∈ notifiers, Owed calls o.sys j

theorem Invariant.initial {notifiers : List ι} (h : Initial calls o) :
    Invariant calls notifiers o where
  locks := Locks.initial h.sys
  registry := Registry.initial h.sys
  wrote := Wrote.initial h
  dirty := by simp [h.dirty]
  returned := by simp [h.joined]
  joined := by simp [h.joined]

variable [DecidableEq ι] {i j : ι} {a : Action ι} {s' : System ι} {notifiers : List ι}

/-- A change of a watched table is owed to the trigger. -/
theorem owed_of_changesFor (hStep : System.Step calls o.sys i a s')
    (h : changesFor calls o.sys a j = true) :
    registered (o.sys.phase j) = true ∧ Owed calls s' j := by
  rw [changesFor, Bool.and_eq_true, Option.any_eq_true] at h
  obtain ⟨hReg, tt, hChanges, hWatched⟩ := h
  obtain ⟨-, hBody, hStill⟩ := hStep.body_of_changes hChanges
  refine ⟨hReg, Owed.flag (of_decide_eq_true hWatched) ?_⟩
  exact (hStep.flags hBody hStill tt).mpr (Or.inr hChanges)

theorem Invariant.dirty_after (h : Invariant calls notifiers o)
    (hStep : System.Step calls o.sys i a s')
    (hj : (o.after calls notifiers i a s').dirty j = true) :
    registered (s'.phase j) = true ∧ (s'.stopped j = false → Owed calls s' j) := by
  simp only [after, Bool.and_eq_true, Bool.or_eq_true, Bool.not_eq_true', Bool.and_eq_false_iff,
    decide_eq_false_iff_not] at hj
  obtain ⟨hDirty, hOther⟩ := hj
  rcases hDirty with hOld | hNew
  · obtain ⟨hReg, hOwed⟩ := h.dirty j hOld
    refine ⟨hStep.registered hReg, fun hRunning => ?_⟩
    have hBefore := hStep.stopped hRunning
    apply (hOwed hBefore).step h.registry hReg hBefore hStep
    intro hReceive hij
    rcases hOther with hNot | hNot
    · rw [hReceive] at hNot
      cases hNot
    · exact hNot hij.symm
  · obtain ⟨hReg, hOwed⟩ := owed_of_changesFor hStep hNew
    exact ⟨hStep.registered hReg, fun _ => hOwed⟩

/-- The channel of JoinNotifiers is owed what its triggers are owed. -/
theorem Invariant.joined_after (h : Invariant calls notifiers o)
    (hStep : System.Step calls o.sys i a s')
    (hOwn : isReceive a = true → o.joined = true → i ∉ notifiers) (hJoined : o.joined = true)
    (hDirty : (o.after calls notifiers i a s').dirtyJoined = true)
    (hRunning : ∀ j ∈ notifiers, s'.stopped j = false) :
    o.channel = true ∨ (∃ k, o.carrying k = true) ∨ ∃ j ∈ notifiers, Owed calls s' j := by
  simp only [after, Bool.or_eq_true, List.any_eq_true] at hDirty
  rcases hDirty with hOld | ⟨j, hj, hNew⟩
  · have hBefore : ∀ j ∈ notifiers, o.sys.stopped j = false :=
      fun j hj => hStep.stopped (hRunning j hj)
    rcases h.joined hJoined hOld hBefore with hChannel | hCarrying | ⟨j, hj, hOwed⟩
    · exact Or.inl hChannel
    · exact Or.inr (Or.inl hCarrying)
    · refine Or.inr (Or.inr ⟨j, hj, ?_⟩)
      have hReg : registered (o.sys.phase j) = true := by
        rw [h.returned hJoined j hj]
        rfl
      apply hOwed.step h.registry hReg (hBefore j hj) hStep
      rintro hReceive rfl
      exact hOwn hReceive hJoined hj
  · exact Or.inr (Or.inr ⟨j, hj, (owed_of_changesFor hStep hNew).2⟩)

theorem Invariant.step (h : Invariant calls notifiers o) (hStep : Step calls notifiers o o') :
    Invariant calls notifiers o' := by
  cases hStep with
  | call hStep hOwn =>
      exact ⟨h.locks.step hStep, h.registry.step h.locks hStep, h.wrote.step h.locks hStep,
        fun j hj => h.dirty_after hStep hj,
        fun hJoined j hj => hStep.phase_done (h.returned hJoined j hj),
        fun hJoined hDirty hRunning => h.joined_after hStep hOwn hJoined hDirty hRunning⟩
  | @take k j s' hJoined hNotifier hIdle hStep =>
      have hWrote : Wrote calls (o.after calls notifiers j .receive s') :=
        h.wrote.step h.locks hStep
      exact ⟨h.locks.step hStep, h.registry.step h.locks hStep,
        ⟨hWrote.flag, hWrote.alerting, hWrote.visiting⟩, fun j hj => h.dirty_after hStep hj,
        fun hJoined j hj => hStep.phase_done (h.returned hJoined j hj),
        fun _ _ _ => Or.inr (Or.inl ⟨k, by simp⟩)⟩
  | join hNew hTriggers =>
      exact ⟨h.locks, h.registry, ⟨h.wrote.flag, h.wrote.alerting, h.wrote.visiting⟩, h.dirty,
        fun _ => hTriggers, fun _ _ _ => Or.inl rfl⟩
  | deliver hCarrying =>
      exact ⟨h.locks, h.registry, ⟨h.wrote.flag, h.wrote.alerting, h.wrote.visiting⟩, h.dirty,
        h.returned, fun _ _ _ => Or.inl rfl⟩
  | receive hToken =>
      exact ⟨h.locks, h.registry, ⟨h.wrote.flag, h.wrote.alerting, h.wrote.visiting⟩, h.dirty,
        h.returned, fun _ hDirty => by cases hDirty⟩

theorem Run.invariant {o₀ : Observed ι} (hRun : Run calls notifiers o₀ o)
    (hInit : Initial calls o₀) : Invariant calls notifiers o := by
  induction hRun with
  | refl => exact Invariant.initial hInit
  | tail prior last ih => exact ih.step last

/-- A transaction that has changed nothing so far gives no token. -/
theorem Invariant.token_eq {tables : List TableType} (h : Invariant calls notifiers o)
    (hCall : calls i = .txn tables) (hWrote : o.wrote i = false)
    (hStep : System.Step calls o.sys i a s') : s'.token = o.sys.token := by
  cases hStep with
  | visit hPhase =>
      rw [h.wrote.visiting i _ _ _ hPhase] at hWrote
      cases hWrote
  | send hTrigger | receive hTrigger =>
      rw [hCall] at hTrigger
      cases hTrigger
  | tick hTicking =>
      obtain ⟨tables', ticks, hTrigger⟩ := h.registry.ticking i hTicking
      rw [hCall] at hTrigger
      cases hTrigger
  | _ => rfl

end Invariant

/-- The system of the race, with nothing observed. -/
def raceObserved : Observed Bool where
  sys := raceStart
  dirty := fun _ => false
  wrote := fun _ => false
  joined := false
  channel := false
  carrying := fun _ => false
  dirtyJoined := false

theorem raceObserved_initial : Initial raceCalls raceObserved :=
  ⟨raceStart_initial, fun _ => rfl, fun _ => rfl, rfl, fun _ => rfl, rfl⟩

theorem Run.call [DecidableEq ι] {notifiers : List ι} {o₀ : Observed ι} {i : ι} {a : Action ι}
    {s' : System ι} (hRun : Run calls notifiers o₀ o) (hStep : System.Step calls o.sys i a s')
    (hOwn : isReceive a = false) : Run calls notifiers o₀ (o.after calls notifiers i a s') := by
  refine Relation.ReflTransGen.tail hRun (Step.call hStep ?_)
  rw [hOwn]
  exact fun h => by cases h

/-- Trigger returns and is joined, the consumer receives the first token of the
channel, and then a transaction inserts a row. -/
theorem race_joined : ∃ o, Run raceCalls [false] raceObserved o ∧
    (∀ tt, o.sys.owner tt = none) ∧ o.joined = true ∧ o.sys.stopped false = false ∧
    o.dirty false = true ∧ o.dirtyJoined = true ∧ o.channel = false ∧ ∀ k, o.carrying k = false := by
  have h : Run raceCalls [false] raceObserved raceObserved := Relation.ReflTransGen.refl
  have h := h.call (System.Step.lock (i := false) rfl rfl) rfl
  have h := h.call (System.Step.enter (i := false) rfl) rfl
  have h := h.call (System.Step.register (i := false) rfl rfl) rfl
  have h := h.call (System.Step.finishTrigger (i := false) rfl) rfl
  have h := h.call (System.Step.release (i := false) rfl) rfl
  have h := h.call
    (System.Step.unlock (i := false) rfl (List.mem_singleton_self TableType.container)) rfl
  have h := h.call (System.Step.leaveTrigger (i := false) rfl rfl) rfl
  have h := h.call (System.Step.send (i := false) rfl rfl rfl) rfl
  have h := Relation.ReflTransGen.tail h (Step.join rfl (by simp [after]))
  have h := Relation.ReflTransGen.tail h (Step.receive rfl)
  have h := Run.call h (System.Step.lock (i := true) rfl rfl) rfl
  have h := h.call (System.Step.enter (i := true) rfl) rfl
  have h := h.call
    (System.Step.insert (i := true) rfl rfl (List.mem_singleton_self TableType.container)) rfl
  have h := h.call (System.Step.finishTxn (i := true) rfl rfl) rfl
  have h := h.call
    (System.Step.alert (i := true) rfl (List.mem_singleton_self TableType.container)) rfl
  have h := h.call (System.Step.visit (i := true) rfl (List.mem_singleton_self false)) rfl
  have h := h.call (System.Step.nextTable (i := true) rfl) rfl
  have h := h.call (System.Step.release (i := true) rfl) rfl
  have h := h.call
    (System.Step.unlock (i := true) rfl (List.mem_singleton_self TableType.container)) rfl
  refine ⟨_, h, ?_, rfl, rfl, rfl, rfl, rfl, fun _ => rfl⟩
  intro tt
  cases tt <;> rfl

/-- No notification is lost. A transaction gives no token before it has changed
something. When no mutex is held, no table is marked as changed, a trigger whose
tables have changed since its last receive has a token, and so has the channel
of JoinNotifiers, unless the token is still with a goroutine or with a trigger. -/
theorem notification_pending [DecidableEq ι] {notifiers : List ι} {o₀ : Observed ι}
    (hInit : Initial calls o₀) (hRun : Run calls notifiers o₀ o) :
    (∀ i tables a s', calls i = .txn tables → o.wrote i = false →
      System.Step calls o.sys i a s' → s'.token = o.sys.token) ∧
    ((∀ tt, o.sys.owner tt = none) →
      (∀ tt, o.sys.db.shouldAlert tt = false) ∧
      (∀ j, o.sys.stopped j = false → o.dirty j = true → o.sys.token j = true) ∧
      (o.joined = true → (∀ j ∈ notifiers, o.sys.stopped j = false) → o.dirtyJoined = true →
        o.channel = true ∨ (∃ k, o.carrying k = true) ∨
          ∃ j ∈ notifiers, o.sys.token j = true)) := by
  have hInv := hRun.invariant hInit
  refine ⟨fun i tables a s' hCall hWrote hStep => hInv.token_eq hCall hWrote hStep,
    fun hFree => ⟨hInv.wrote.flags.settled hInv.locks hFree, ?_, ?_⟩⟩
  · intro j hRunning hDirty
    exact ((hInv.dirty j hDirty).2 hRunning).settled hInv.locks hInv.wrote.flags hInv.registry hFree
  · intro hJoined hRunning hDirty
    rcases hInv.joined hJoined hDirty hRunning with hChannel | hCarrying | ⟨j, hj, hOwed⟩
    · exact Or.inl hChannel
    · exact Or.inr (Or.inl hCarrying)
    · exact Or.inr (Or.inr ⟨j, hj, hOwed.settled hInv.locks hInv.wrote.flags hInv.registry hFree⟩)

/-- The trigger has its token after the transaction. -/
theorem notification_pending_race : ∃ o, Run raceCalls [false] raceObserved o ∧
    o.dirty false = true ∧ o.sys.token false = true := by
  obtain ⟨o, hRun, hFree, -, hRunning, hDirty, -⟩ := race_joined
  have hPending := (notification_pending raceObserved_initial hRun).2 hFree
  exact ⟨o, hRun, hDirty, hPending.2.1 false hRunning hDirty⟩

/-- The row has been inserted after the last receive from the joined channel, and
neither the channel nor a goroutine has a token: it is still in the channel of
the trigger. -/
theorem joined_channel_lags : Initial raceCalls raceObserved ∧
    ∃ o, Run raceCalls [false] raceObserved o ∧ (∀ tt, o.sys.owner tt = none) ∧
      o.joined = true ∧ (∀ j ∈ [false], o.sys.stopped j = false) ∧ o.dirtyJoined = true ∧
      o.channel = false ∧ ∀ k, o.carrying k = false := by
  obtain ⟨o, hRun, hFree, hJoined, hRunning, -, hDirty, hEmpty, hIdle⟩ := race_joined
  exact ⟨raceObserved_initial, o, hRun, hFree, hJoined, by simpa using hRunning, hDirty, hEmpty, hIdle⟩

end Observed

end Kelda.DB
