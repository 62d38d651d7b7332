import Kelda.DB.Conn

/-! The first send of Trigger. It blocks if the channel is full, and no one
receives before Trigger returns. The trigger is registered when it sends, but
the locks have been released, so that a transaction may alert it first. -/
namespace Kelda.DB.System

variable {ι : Type} {calls : ι → Call} {s s' : System ι} {i : ι} {a : Action ι}

/-- The tables whose mutex a thread holds in a phase. -/
def held (calls : ι → Call) (i : ι) : Phase ι → List TableType
  | .locking locked _ => locked
  | .body | .registered | .alerting _ | .visiting _ _ _ => lockOrder (calls i).tables
  | .unlocking rest => rest
  | .sending | .done => []

/-- The lists that a phase carries belong to the tables of the call. -/
def PhaseOK (calls : ι → Call) (i : ι) : Phase ι → Prop
  | .locking locked todo => locked ++ todo = lockOrder (calls i).tables
  | .alerting todo => todo ⊆ (calls i).tables
  | .visiting _ _ todo => todo ⊆ (calls i).tables
  | .unlocking rest => rest.Nodup
  | .sending => ∃ tables ticks, calls i = .trigger tables ticks
  | .body | .registered | .done => True

/-- A table's mutex is owned by the thread that holds it. -/
structure Locks (calls : ι → Call) (s : System ι) : Prop where
  phase : ∀ i, PhaseOK calls i (s.phase i)
  owner : ∀ i tt, s.owner tt = some i ↔ tt ∈ held calls i (s.phase i)

/-- A changed table belongs to a transaction that is inside its function. -/
def Flags (calls : ι → Call) (s : System ι) : Prop :=
  ∀ tt, s.db.shouldAlert tt = true →
    ∃ i tables, calls i = .txn tables ∧ tt ∈ tables ∧ s.phase i = .body

/-- Alerts only concern triggers that have been returned, and only those have a
token. -/
structure Quiet (s : System ι) : Prop where
  token : ∀ j, s.token j = true → s.phase j = .done
  ticking : ∀ j, s.ticking j = true → s.phase j = .done
  alerting : ∀ i todo, s.phase i = .alerting todo →
    ∀ tt ∈ todo, ∀ j ∈ s.triggers tt, s.phase j = .done
  visiting : ∀ i tt pending todo, s.phase i = .visiting tt pending todo →
    (∀ j ∈ pending, s.phase j = .done) ∧
      ∀ tt' ∈ todo, ∀ j ∈ s.triggers tt', s.phase j = .done

/-- A transaction that has changed a table finishes only when every trigger
registered on the table has been returned. -/
def AlertsReturned (calls : ι → Call) (s : System ι) (i : ι) : Action ι → Prop
  | .finish => ∀ tables, calls i = .txn tables → ∀ tt ∈ tables, s.db.shouldAlert tt = true →
      ∀ j ∈ s.triggers tt, s.phase j = .done
  | _ => True

theorem Locks.initial (h : Initial calls s) : Locks calls s where
  phase := fun i => by simp [h.phase i, PhaseOK]
  owner := fun i tt => by simp [h.phase i, h.owner tt, held]

/-- Two threads that hold the mutex of a table are the same. -/
theorem Locks.unique (h : Locks calls s) {j : ι} {tt : TableType}
    (hi : tt ∈ held calls i (s.phase i)) (hj : tt ∈ held calls j (s.phase j)) : i = j :=
  Option.some.inj (((h.owner i tt).mpr hi).symm.trans ((h.owner j tt).mpr hj))

theorem Quiet.initial (h : Initial calls s) : Quiet s where
  token := by simp [h.token]
  ticking := by simp [h.ticking]
  alerting := by simp [h.phase]
  visiting := by simp [h.phase]

theorem Flags.initial (h : Initial calls s) : Flags calls s := by
  intro tt hTT
  simp [h.flags] at hTT

/-- Only threads outside their function have moved. -/
theorem Flags.move (h : Flags calls s) (hFlags : s'.db.shouldAlert = s.db.shouldAlert)
    (hBody : ∀ j tables, calls j = .txn tables → s.phase j = .body → s'.phase j = .body) :
    Flags calls s' := by
  intro tt hTT
  rw [hFlags] at hTT
  obtain ⟨j, tables, hCall, hTable, hPhase⟩ := h tt hTT
  exact ⟨j, tables, hCall, hTable, hBody j tables hCall hPhase⟩

theorem Flags.write {tables : List TableType} {tt : TableType} {db' : Database}
    (h : Flags calls s) (hCall : calls i = .txn tables) (hPhase : s.phase i = .body)
    (hTable : tt ∈ tables)
    (hFlags : ∀ tt', db'.shouldAlert tt' = true → s.db.shouldAlert tt' = true ∨ tt' = tt) :
    Flags calls { s with db := db' } := by
  intro tt' hTT
  rcases hFlags tt' hTT with hOld | rfl
  · exact h tt' hOld
  · exact ⟨i, tables, hCall, hTable, hPhase⟩

variable [DecidableEq ι]

@[simp] theorem notify_phase (s : System ι) (tt : TableType) (j : ι) :
    (s.notify tt j).phase = s.phase := by
  rw [notify]
  split_ifs <;> rfl

@[simp] theorem notify_owner (s : System ι) (tt : TableType) (j : ι) :
    (s.notify tt j).owner = s.owner := by
  rw [notify]
  split_ifs <;> rfl

@[simp] theorem notify_db (s : System ι) (tt : TableType) (j : ι) :
    (s.notify tt j).db = s.db := by
  rw [notify]
  split_ifs <;> rfl

theorem notify_triggers_subset (s : System ι) (tt tt' : TableType) (j : ι) :
    (s.notify tt j).triggers tt' ⊆ s.triggers tt' := by
  rw [notify]
  split_ifs
  · by_cases h : tt' = tt
    · subst h
      simpa using List.erase_subset
    · simp [h]
  · exact List.Subset.refl _

/-- A returned call stays returned. -/
theorem Step.phase_done (h : Step calls s i a s') {j : ι} (hDone : s.phase j = .done) :
    s'.phase j = .done := by
  have hGoto : ∀ p, s.phase i ≠ .done → Function.update s.phase i p j = .done := by
    intro p hne
    rw [Function.update_of_ne (fun hEq : j = i => hne (hEq ▸ hDone)), hDone]
  cases h <;> first
    | exact hDone
    | simpa [finishBody] using hGoto _ (by simp_all)

section Locks

/-- A move to a phase with the same mutexes. -/
theorem Locks.move {p : Phase ι} (h : Locks calls s) (hOK : PhaseOK calls i p)
    (hHeld : held calls i p = held calls i (s.phase i)) : Locks calls (s.goto i p) := by
  constructor
  · intro j
    by_cases hj : j = i
    · subst hj
      simpa using hOK
    · simpa [hj] using h.phase j
  · intro j tt
    by_cases hj : j = i
    · subst hj
      simpa [hHeld] using h.owner j tt
    · simpa [hj] using h.owner j tt

theorem Locks.lock {locked todo : List TableType} {tt : TableType} (h : Locks calls s)
    (hPhase : s.phase i = .locking locked (tt :: todo)) (hFree : s.owner tt = none) :
    Locks calls ((s.setOwner tt (some i)).goto i (.locking (locked ++ [tt]) todo)) := by
  have hOK := h.phase i
  rw [hPhase] at hOK
  have hOwner : ∀ tt', s.owner tt' = some i ↔ tt' ∈ locked := by
    intro tt'
    simpa [hPhase, held] using h.owner i tt'
  constructor
  · intro j
    by_cases hj : j = i
    · subst hj
      simpa [PhaseOK] using hOK
    · simpa [hj] using h.phase j
  · intro j tt'
    by_cases hTT : tt' = tt
    · subst hTT
      by_cases hj : j = i
      · subst hj
        simp [setOwner, held]
      · have hOther := h.owner j tt'
        simp only [hFree, reduceCtorEq, false_iff] at hOther
        simpa [setOwner, hj, Ne.symm hj] using hOther
    · by_cases hj : j = i
      · subst hj
        simpa [setOwner, held, hTT] using hOwner tt'
      · simpa [setOwner, hj, hTT] using h.owner j tt'

theorem Locks.unlock {rest : List TableType} {tt : TableType} (h : Locks calls s)
    (hPhase : s.phase i = .unlocking rest) (hTable : tt ∈ rest) :
    Locks calls ((s.setOwner tt none).goto i (.unlocking (rest.erase tt))) := by
  have hNodup : rest.Nodup := by simpa [hPhase, PhaseOK] using h.phase i
  have hOwner : ∀ tt', s.owner tt' = some i ↔ tt' ∈ rest := by
    intro tt'
    simpa [hPhase, held] using h.owner i tt'
  constructor
  · intro j
    by_cases hj : j = i
    · subst hj
      simpa [PhaseOK] using hNodup.erase tt
    · simpa [hj] using h.phase j
  · intro j tt'
    by_cases hTT : tt' = tt
    · subst hTT
      by_cases hj : j = i
      · subst hj
        simp [setOwner, held, hNodup.not_mem_erase]
      · have hOther := h.owner j tt'
        rw [(hOwner tt').mpr hTable] at hOther
        simpa [setOwner, hj, Ne.symm hj] using hOther
    · by_cases hj : j = i
      · subst hj
        simpa [setOwner, held, hTT, List.mem_erase_of_ne hTT] using hOwner tt'
      · simpa [setOwner, hj, hTT] using h.owner j tt'

theorem Locks.step (h : Locks calls s) (hStep : Step calls s i a s') : Locks calls s' := by
  have hOK := h.phase i
  cases hStep with
  | lock hPhase hFree => exact h.lock hPhase hFree
  | unlock hPhase hTable => exact h.unlock hPhase hTable
  | enter hPhase =>
      rw [hPhase] at hOK
      exact h.move trivial (by simpa [hPhase, held, PhaseOK] using hOK.symm)
  | register hCall hPhase =>
      exact (Locks.move (s := s.addTrigger i _) ⟨h.phase, h.owner⟩ trivial (by simp [hPhase, held]))
  | finishTxn _ hPhase | finishTrigger hPhase =>
      refine Locks.move (s := { s with db := _ }) ⟨h.phase, h.owner⟩ ?_ (by simp [hPhase, held])
      exact fun tt hTT => by simpa using List.mem_of_mem_filter hTT
  | alert hPhase hTable =>
      rw [hPhase] at hOK
      exact h.move (fun tt hTT => hOK (List.mem_of_mem_erase hTT)) (by simp [hPhase, held])
  | visit hPhase hTrigger =>
      rw [hPhase] at hOK
      refine Locks.move (s := s.notify _ _) ⟨?_, ?_⟩ hOK (by simp [hPhase, held])
      · simpa using h.phase
      · simpa using h.owner
  | nextTable hPhase =>
      rw [hPhase] at hOK
      exact h.move hOK (by simp [hPhase, held])
  | release hPhase => exact h.move (nodup_lockOrder _) (by simp [hPhase, held])
  | leaveTxn hCall hPhase => exact h.move trivial (by simp [hPhase, held])
  | leaveTrigger hCall hPhase => exact h.move ⟨_, _, hCall⟩ (by simp [hPhase, held])
  | send hCall hPhase hEmpty =>
      exact Locks.move (s := { s.setToken i true with ticking := _ }) ⟨h.phase, h.owner⟩ trivial
        (by simp [hPhase, held])
  | insert | commit | remove | receive | stop | tick | endTicks => exact ⟨h.phase, h.owner⟩

end Locks

section Flags

theorem Flags.finish (h : Flags calls s) : Flags calls (s.finishBody calls i) := by
  intro tt hTT
  simp only [finishBody, goto_db, Database.clearAlerts, Bool.and_eq_true, decide_eq_true_eq,
    mem_lockOrder] at hTT
  obtain ⟨j, tables, hCall, hTable, hPhase⟩ := h tt hTT.1
  have hj : j ≠ i := by
    rintro rfl
    exact hTT.2 (by rwa [hCall])
  exact ⟨j, tables, hCall, hTable, by simpa [finishBody, hj] using hPhase⟩

theorem Flags.step (h : Flags calls s) (hStep : Step calls s i a s') : Flags calls s' := by
  have hGoto : ∀ p, (∀ tables, calls i = .txn tables → s.phase i ≠ .body) →
      ∀ j tables, calls j = .txn tables → s.phase j = .body →
        Function.update s.phase i p j = .body := by
    intro p hne j tables hCall hBody
    rw [Function.update_of_ne (fun hEq : j = i => hne tables (hEq ▸ hCall) (hEq ▸ hBody)), hBody]
  cases hStep with
  | insert hCall hPhase hTable =>
      refine h.write hCall hPhase hTable (fun tt' hTT => ?_)
      exact s.db.raise_shouldAlert hTT
  | remove hCall hPhase hTable =>
      refine h.write hCall hPhase hTable (fun tt' hTT => ?_)
      exact s.db.raise_shouldAlert hTT
  | commit hCall hPhase hTable hCommit =>
      refine h.write hCall hPhase hTable (fun tt' hTT => ?_)
      exact ((s.db.commit_flags hCommit tt').mp hTT).imp_right And.left
  | finishTxn | finishTrigger => exact h.finish
  | register hCall hPhase => exact h.move rfl (by simpa using hGoto _ (by simp [hCall]))
  | receive | stop | tick | endTicks => exact h.move rfl (fun _ _ _ hBody => hBody)
  | visit hPhase => exact h.move (by simp) (by simpa using hGoto _ (by simp [hPhase]))
  | lock hPhase | enter hPhase | alert hPhase | nextTable hPhase | release hPhase | unlock hPhase
  | leaveTxn _ hPhase | leaveTrigger _ hPhase | send _ hPhase =>
      exact h.move rfl (by simpa using hGoto _ (by simp [hPhase]))

end Flags

section Quiet

/-- A step that registers no trigger. It may move its thread into an alert of
returned triggers, and give tokens to returned triggers. -/
theorem Quiet.move (h : Quiet s) (hStep : Step calls s i a s') (p : Phase ι)
    (hPhase : s'.phase = Function.update s.phase i p)
    (hTriggers : ∀ tt, s'.triggers tt ⊆ s.triggers tt)
    (hToken : ∀ j, s'.token j = true → s.token j = true ∨ s'.phase j = .done)
    (hTicking : ∀ j, s'.ticking j = true → s.ticking j = true ∨ s'.phase j = .done)
    (hAlerting : ∀ todo, p = .alerting todo → ∀ tt ∈ todo, ∀ j ∈ s.triggers tt, s.phase j = .done)
    (hVisiting : ∀ tt pending todo, p = .visiting tt pending todo →
      (∀ j ∈ pending, s.phase j = .done) ∧
        ∀ tt' ∈ todo, ∀ j ∈ s.triggers tt', s.phase j = .done) : Quiet s' where
  token := fun j hj => (hToken j hj).elim (fun hOld => hStep.phase_done (h.token j hOld)) id
  ticking := fun j hj => (hTicking j hj).elim (fun hOld => hStep.phase_done (h.ticking j hOld)) id
  alerting := fun k todo hk tt hTT j hj => by
    refine hStep.phase_done ?_
    rw [hPhase] at hk
    by_cases hki : k = i
    · subst hki
      rw [Function.update_self] at hk
      exact hAlerting todo hk tt hTT j (hTriggers tt hj)
    · rw [Function.update_of_ne hki] at hk
      exact h.alerting k todo hk tt hTT j (hTriggers tt hj)
  visiting := fun k tt pending todo hk => by
    have hDone : (∀ j ∈ pending, s.phase j = .done) ∧
        ∀ tt' ∈ todo, ∀ j ∈ s.triggers tt', s.phase j = .done := by
      rw [hPhase] at hk
      by_cases hki : k = i
      · subst hki
        rw [Function.update_self] at hk
        exact hVisiting tt pending todo hk
      · rw [Function.update_of_ne hki] at hk
        exact h.visiting k tt pending todo hk
    exact ⟨fun j hj => hStep.phase_done (hDone.1 j hj),
      fun tt' hTT j hj => hStep.phase_done (hDone.2 tt' hTT j (hTriggers tt' hj))⟩

/-- A step that keeps the tokens and the triggers, and alerts no one. -/
theorem Quiet.goto (h : Quiet s) (hStep : Step calls s i a s') (p : Phase ι)
    (hPhase : s'.phase = Function.update s.phase i p) (hTriggers : s'.triggers = s.triggers)
    (hToken : s'.token = s.token) (hTicking : s'.ticking = s.ticking)
    (hAlerting : ∀ todo, p ≠ .alerting todo)
    (hVisiting : ∀ tt pending todo, p ≠ .visiting tt pending todo) : Quiet s' :=
  h.move hStep p hPhase (fun tt => by rw [hTriggers]; exact List.Subset.refl _)
    (fun j hj => Or.inl (hToken ▸ hj)) (fun j hj => Or.inl (hTicking ▸ hj))
    (fun todo hp => (hAlerting todo hp).elim)
    (fun tt pending todo hp => (hVisiting tt pending todo hp).elim)

/-- The tables of a call in the function of Run are not being alerted by
others, so that its trigger can be added to them. -/
theorem Quiet.register {tables : List TableType} {ticks : Bool} (h : Quiet s)
    (hLocks : Locks calls s) (hCall : calls i = .trigger tables ticks)
    (hPhase : s.phase i = .body) : Quiet ((s.addTrigger i tables).goto i .registered) := by
  have hStep := Step.register hCall hPhase
  have hMine : ∀ k tt, tt ∈ tables → tt ∈ held calls k (s.phase k) → k = i := by
    intro k tt hTT hk
    refine hLocks.unique hk ?_
    simpa [hPhase, held, hCall, Call.tables] using hTT
  have hAdded : ∀ tt j, j ∈ (s.addTrigger i tables).triggers tt → tt ∉ tables →
      j ∈ s.triggers tt := by
    intro tt j hj hTT
    simpa [hTT] using hj
  refine ⟨fun j hj => hStep.phase_done (h.token j hj),
    fun j hj => hStep.phase_done (h.ticking j hj), ?_, ?_⟩
  · intro k todo hk tt hTT j hj
    have hki : k ≠ i := by
      rintro rfl
      simp at hk
    have hOld : s.phase k = .alerting todo := by simpa [hki] using hk
    have hTodo : todo ⊆ (calls k).tables := by simpa [hOld, PhaseOK] using hLocks.phase k
    have hOther : tt ∉ tables := fun hMem =>
      hki (hMine k tt hMem (by simpa [hOld, held] using hTodo hTT))
    exact hStep.phase_done (h.alerting k todo hOld tt hTT j (hAdded tt j hj hOther))
  · intro k tt pending todo hk
    have hki : k ≠ i := by
      rintro rfl
      simp at hk
    have hOld : s.phase k = .visiting tt pending todo := by simpa [hki] using hk
    have hTodo : todo ⊆ (calls k).tables := by simpa [hOld, PhaseOK] using hLocks.phase k
    obtain ⟨hPending, hRest⟩ := h.visiting k tt pending todo hOld
    refine ⟨fun j hj => hStep.phase_done (hPending j hj), fun tt' hTT j hj => ?_⟩
    have hOther : tt' ∉ tables := fun hMem =>
      hki (hMine k tt' hMem (by simpa [hOld, held] using hTodo hTT))
    exact hStep.phase_done (hRest tt' hTT j (hAdded tt' j hj hOther))

/-- The tables that Run alerts have no trigger whose call has not returned. -/
theorem Quiet.finish (h : Quiet s) (hStep : Step calls s i a (s.finishBody calls i))
    (hReturned : ∀ tt ∈ (calls i).tables, s.db.shouldAlert tt = true →
      ∀ j ∈ s.triggers tt, s.phase j = .done) : Quiet (s.finishBody calls i) := by
  refine h.move hStep _ rfl (fun tt => List.Subset.refl _) (fun j hj => Or.inl hj)
    (fun j hj => Or.inl hj) ?_ (by simp)
  intro todo hTodo tt hTT
  obtain rfl := Phase.alerting.inj hTodo
  obtain ⟨hMem, hFlag⟩ := List.mem_filter.mp hTT
  exact hReturned tt (mem_lockOrder.mp hMem) hFlag

theorem notify_token (s : System ι) (tt : TableType) (j : ι) {k : ι}
    (h : (s.notify tt j).token k = true) : s.token k = true ∨ k = j := by
  rw [notify] at h
  split_ifs at h
  · exact Or.inl h
  · by_cases hkj : k = j
    · exact Or.inr hkj
    · exact Or.inl (by simpa [hkj] using h)

theorem token_notify (s : System ι) (tt : TableType) (j : ι) {k : ι} (h : s.token k = true) :
    (s.notify tt j).token k = true := by
  rw [notify]
  split_ifs
  · exact h
  · by_cases hkj : k = j <;> simp [hkj, h]

theorem Quiet.visit {tt : TableType} {pending : List ι} {todo : List TableType} {j : ι}
    (h : Quiet s) (hPhase : s.phase i = .visiting tt pending todo) (hTrigger : j ∈ pending)
    (hStep : Step calls s i a ((s.notify tt j).goto i (.visiting tt (pending.erase j) todo))) :
    Quiet ((s.notify tt j).goto i (.visiting tt (pending.erase j) todo)) := by
  obtain ⟨hPending, hTodo⟩ := h.visiting i tt pending todo hPhase
  refine h.move hStep (.visiting tt (pending.erase j) todo) (by simp)
    (fun tt' => s.notify_triggers_subset tt tt' j) ?_ ?_ (by simp) ?_
  · intro k hk
    rcases s.notify_token tt j hk with hOld | rfl
    · exact Or.inl hOld
    · exact Or.inr (hStep.phase_done (hPending k hTrigger))
  · intro k hk
    refine Or.inl ?_
    rw [goto_ticking, notify] at hk
    split_ifs at hk <;> exact hk
  · intro tt' pending' todo' hp
    obtain ⟨rfl, rfl, rfl⟩ := Phase.visiting.inj hp
    exact ⟨fun k hk => hPending k (List.mem_of_mem_erase hk), hTodo⟩

theorem Quiet.step (h : Quiet s) (hLocks : Locks calls s) (hFlags : Flags calls s)
    (hAllowed : AlertsReturned calls s i a) (hStep : Step calls s i a s') : Quiet s' := by
  have hFull := hStep
  cases hStep with
  | register hCall hPhase => exact h.register hLocks hCall hPhase
  | finishTxn hCall hPhase =>
      refine h.finish hFull ?_
      simpa [hCall, Call.tables] using hAllowed _ hCall
  | finishTrigger hPhase =>
      -- no table of the call can have been changed by someone else
      refine h.finish hFull (fun tt hTT hFlag => ?_)
      obtain ⟨k, tables, hCall, hTable, hBody⟩ := hFlags tt hFlag
      have hHeld : tt ∈ held calls k (s.phase k) := by
        simpa [hBody, held, hCall, Call.tables] using hTable
      have hki : k = i := hLocks.unique hHeld (by simpa [hPhase, held] using hTT)
      rw [hki, hPhase] at hBody
      cases hBody
  | alert hPhase hTable =>
      have hOld := h.alerting i _ hPhase
      refine h.move hFull _ rfl (fun tt => List.Subset.refl _) (fun j hj => Or.inl hj)
        (fun j hj => Or.inl hj) (by simp) ?_
      intro tt' pending todo hp
      obtain ⟨rfl, rfl, rfl⟩ := Phase.visiting.inj hp
      exact ⟨hOld _ hTable, fun tt hTT => hOld tt (List.mem_of_mem_erase hTT)⟩
  | visit hPhase hTrigger => exact h.visit hPhase hTrigger hFull
  | nextTable hPhase =>
      refine h.move hFull _ rfl (fun tt => List.Subset.refl _) (fun j hj => Or.inl hj)
        (fun j hj => Or.inl hj) ?_ (by simp)
      intro todo hp
      obtain rfl := Phase.alerting.inj hp
      exact (h.visiting i _ _ _ hPhase).2
  | lock | enter | release | unlock | leaveTxn | leaveTrigger =>
      exact h.goto hFull _ rfl rfl rfl rfl (by simp) (by simp)
  | send hCall hPhase hEmpty =>
      refine h.move hFull .done rfl (fun tt => List.Subset.refl _) ?_ ?_ (by simp) (by simp)
      · intro j hj
        by_cases hji : j = i
        · exact Or.inr (by simp [hji])
        · exact Or.inl (by simpa [hji] using hj)
      · intro j hj
        by_cases hji : j = i
        · exact Or.inr (by simp [hji])
        · exact Or.inl (by simpa [hji] using hj)
  | insert | commit | remove | stop => exact ⟨h.token, h.ticking, h.alerting, h.visiting⟩
  | receive hCall hPhase hToken =>
      refine ⟨fun j hj => ?_, h.ticking, h.alerting, h.visiting⟩
      by_cases hji : j = i
      · simp [hji] at hj
      · exact h.token j (by simpa [hji] using hj)
  | tick hTicking =>
      refine ⟨fun j hj => ?_, h.ticking, h.alerting, h.visiting⟩
      by_cases hji : j = i
      · exact hji ▸ h.ticking i hTicking
      · exact h.token j (by simpa [hji] using hj)
  | endTicks =>
      refine ⟨h.token, fun j hj => ?_, h.alerting, h.visiting⟩
      by_cases hji : j = i
      · simp [hji] at hj
      · exact h.ticking j (by simpa [hji] using hj)

end Quiet

/-- Thread `false` calls Trigger on the container table, and thread `true` runs
a transaction on it. -/
def raceCalls : Bool → Call
  | false => .trigger [.container] false
  | true => .txn [.container]

def raceStart : System Bool where
  db := Database.empty
  owner := fun _ => none
  triggers := fun _ => []
  token := fun _ => false
  stopped := fun _ => false
  ticking := fun _ => false
  phase := fun i => .locking [] (lockOrder (raceCalls i).tables)

theorem raceStart_initial : Initial raceCalls raceStart :=
  ⟨fun _ => rfl, fun _ => rfl, fun _ => rfl, fun _ => rfl, fun _ => rfl, fun _ => rfl, fun _ => rfl⟩

/-- While every transaction that has changed a table finds the triggers of the
table returned when it finishes, a call of Trigger that has come to its send
finds its channel empty, so that the send does not block. -/
theorem trigger_send_enabled {s₀ : System ι} (hInit : Initial calls s₀)
    (hRun : Run calls (AlertsReturned calls) s₀ s) (hSending : s.phase i = .sending) :
    s.token i = false ∧ ∃ s', Step calls s i .send s' := by
  obtain ⟨hLocks, -, hQuiet⟩ : Locks calls s ∧ Flags calls s ∧ Quiet s := by
    refine hRun.invariant (P := fun s => Locks calls s ∧ Flags calls s ∧ Quiet s)
      ⟨Locks.initial hInit, Flags.initial hInit, Quiet.initial hInit⟩ ?_
    rintro s i a s' ⟨hLocks, hFlags, hQuiet⟩ hAllowed hStep
    exact ⟨hLocks.step hStep, hFlags.step hStep, hQuiet.step hLocks hFlags hAllowed hStep⟩
  have hEmpty : s.token i = false := by
    by_contra hFull
    have hDone := hQuiet.token i (by simpa using hFull)
    rw [hSending] at hDone
    cases hDone
  obtain ⟨tables, ticks, hCall⟩ : PhaseOK calls i .sending := hSending ▸ hLocks.phase i
  exact ⟨hEmpty, _, Step.send hCall hSending hEmpty⟩

/-- The new trigger is registered and another transaction has changed the
table, but not finished. -/
theorem trigger_send_enabled_race :
    ∃ s, Run raceCalls (AlertsReturned raceCalls) raceStart s ∧ s.phase false = .sending ∧
      s.db.shouldAlert .container = true ∧
      (s.token false = false ∧ ∃ s', Step raceCalls s false .send s') := by
  have h : Run raceCalls (AlertsReturned raceCalls) raceStart raceStart :=
    Relation.ReflTransGen.refl
  have h := h.snoc (Step.lock (i := false) rfl rfl) trivial
  have h := h.snoc (Step.enter (i := false) rfl) trivial
  have h := h.snoc (Step.register (i := false) rfl rfl) trivial
  have h := h.snoc (Step.finishTrigger (i := false) rfl) (by intro tables hCall; cases hCall)
  have h := h.snoc (Step.release (i := false) rfl) trivial
  have h := h.snoc
    (Step.unlock (i := false) rfl (List.mem_singleton_self TableType.container)) trivial
  have h := h.snoc (Step.leaveTrigger (i := false) rfl rfl) trivial
  have h := h.snoc (Step.lock (i := true) rfl rfl) trivial
  have h := h.snoc (Step.enter (i := true) rfl) trivial
  have h := h.snoc
    (Step.insert (i := true) rfl rfl (List.mem_singleton_self TableType.container)) trivial
  exact ⟨_, h, rfl, rfl, trigger_send_enabled raceStart_initial h rfl⟩

/-- Once the channel is full the send blocks forever: the only receiver is the
one that waits for Trigger to return. -/
theorem Run.still_blocked (hRun : Run calls anyStep s s')
    (hSending : s.phase i = .sending) (hFull : s.token i = true) :
    s'.phase i = .sending ∧ s'.token i = true := by
  refine hRun.invariant (P := fun s => s.phase i = .sending ∧ s.token i = true)
    ⟨hSending, hFull⟩ ?_
  rintro s k a s' ⟨hPhase, hToken⟩ - hStep
  by_cases hik : i = k
  · subst hik
    cases hStep <;> simp_all
  · cases hStep with
    | visit => exact ⟨by simpa [hik] using hPhase, s.token_notify _ _ hToken⟩
    | _ => simp_all [finishBody]

/-- A transaction inserts a row and alerts the new trigger before Trigger comes
to its send; from then on Trigger is blocked in every run. -/
theorem trigger_blocks_forever :
    Initial raceCalls raceStart ∧
    ∃ s, Run raceCalls anyStep raceStart s ∧ s.phase false = .sending ∧
      ∀ s', Run raceCalls anyStep s s' → s'.phase false = .sending ∧ s'.token false = true := by
  refine ⟨raceStart_initial, ?_⟩
  have h : Run raceCalls anyStep raceStart raceStart := Relation.ReflTransGen.refl
  -- Trigger registers itself and gives up the lock
  have h := h.snoc (Step.lock (i := false) rfl rfl) trivial
  have h := h.snoc (Step.enter (i := false) rfl) trivial
  have h := h.snoc (Step.register (i := false) rfl rfl) trivial
  have h := h.snoc (Step.finishTrigger (i := false) rfl) trivial
  have h := h.snoc (Step.release (i := false) rfl) trivial
  have h := h.snoc
    (Step.unlock (i := false) rfl (List.mem_singleton_self TableType.container)) trivial
  have h := h.snoc (Step.leaveTrigger (i := false) rfl rfl) trivial
  -- the transaction runs as a whole before the send
  have h := h.snoc (Step.lock (i := true) rfl rfl) trivial
  have h := h.snoc (Step.enter (i := true) rfl) trivial
  have h := h.snoc
    (Step.insert (i := true) rfl rfl (List.mem_singleton_self TableType.container)) trivial
  have h := h.snoc (Step.finishTxn (i := true) rfl rfl) trivial
  have h := h.snoc
    (Step.alert (i := true) rfl (List.mem_singleton_self TableType.container)) trivial
  have h := h.snoc (Step.visit (i := true) rfl (List.mem_singleton_self false)) trivial
  exact ⟨_, h, rfl, fun s' hLater => hLater.still_blocked rfl rfl⟩

end Kelda.DB.System
