import Kelda.Cloud.Plan
import Kelda.DB.Conn

/-! The writers of the machine table: a deployment, the cloud threads and the
foreman. The threads of an old namespace go on for a while after a deployment
has changed it, with machines that they listed before. -/
namespace Kelda

open DB Database Join

section Writers

/-- The transaction of Deploy. Machines of another namespace are dropped. -/
def deploy (ords : Nat → MapOrder) (newBlueprint : Blueprint) (view : Database) :
    Except String Database := do
  let found ← getBlueprint (ords 0) view
  let (bp, view) := match found with
    | .error _ => view.insert .blueprint
    | .ok bp =>
      if bp.blueprint.nameSpace ≠ newBlueprint.nameSpace then
        (bp, (view.selectAll (ords 1) .machine).foldl
          (fun view dbm => view.remove .machine dbm) view)
      else (bp, view)
  view.commit .blueprint { bp with blueprint := newBlueprint }

/-- The role of a minion, as its configuration encodes it. -/
def pbToRole : Int → Except String Role
  | 0 => .ok .none
  | 1 => .ok .worker
  | 2 => .ok .master
  | _ => .error "Not Reached"

/-- The transaction in which the foreman notes what it learned about a machine. -/
def setMinionStatus (ord : MapOrder) (cloudID : String) (role : Int) (isConnected : Bool)
    (view : Database) : Except String Database :=
  match view.select ord .machine (fun dbm => dbm.cloudID = cloudID) with
  | [dbm] =>
    -- a machine that is being stopped is not changed any more
    if dbm.status = stopping then .ok view
    else do
      let role ← pbToRole role
      let dbm : Machine := { dbm with role, connected := isConnected }
      let status := connectionStatus dbm
      view.commit .machine (if status ≠ "" then { dbm with status } else dbm)
  | _ => .ok view

end Writers

/-- The database, the lists that cloud threads have read but not used yet, and a
record of which namespace wrote the row of which ID. -/
structure World where
  db : Database
  listed : List (CloudThread × List Machine)
  log : List (Nat × String)

namespace World

def initial : World := ⟨Database.empty, [], []⟩

/-- The machine rows that are new or changed, with the namespace of the thread. -/
def written (cld : CloudThread) (before after : Database) : List (Nat × String) :=
  ((after.rows .machine).filter (fun r => r ∉ before.rows .machine)).map
    (fun r => (getID .machine r, cld.nameSpace))

inductive Action where
  | deploy (newBlueprint : Blueprint)
  | list (cld : CloudThread) (machines : List Machine)
  | join (cld : CloudThread) (machines : List Machine)
  | status (cloudID : String) (role : Int) (isConnected : Bool)

/-- One step of one of the writers. Transactions are atomic, and raise no alert
that another writer waits for. -/
inductive Step (adminKey : String) (w : World) : Action → World → Prop where
  | deploy {newBlueprint : Blueprint} {db' : Database} (ords : Nat → MapOrder)
      (hRun : Kelda.deploy ords newBlueprint w.db = .ok db') :
      Step adminKey w (.deploy newBlueprint)
        { w with db := db'.clearAlerts [.blueprint, .machine] }
  | list (cld : CloudThread) (machines : List Machine) :
      Step adminKey w (.list cld machines) { w with listed := (cld, machines) :: w.listed }
  | join {cld : CloudThread} {machines : List Machine} {out : Cloud.JoinResult × List ACL}
      {db' : Database} (ords : Nat → MapOrder) (hListed : (cld, machines) ∈ w.listed)
      (hRun : cld.joinImpl adminKey ords machines w.db = .ok (.ok (out, db'))) :
      Step adminKey w (.join cld machines)
        { db := db'.clearAlerts [.blueprint, .machine]
          listed := w.listed.erase (cld, machines)
          log := w.log ++ written cld w.db db' }
  | abort {cld : CloudThread} {machines : List Machine} {err : String} (ords : Nat → MapOrder)
      (hListed : (cld, machines) ∈ w.listed)
      (hRun : cld.joinImpl adminKey ords machines w.db = .ok (.error err)) :
      Step adminKey w (.join cld machines) { w with listed := w.listed.erase (cld, machines) }
  | status {cloudID : String} {role : Int} {isConnected : Bool} {db' : Database} (ord : MapOrder)
      (hRun : setMinionStatus ord cloudID role isConnected w.db = .ok db') :
      Step adminKey w (.status cloudID role isConnected)
        { w with db := db'.clearAlerts [.machine] }

/-- Any interleaving of the writers. -/
def Run (adminKey : String) : World → World → Prop :=
  Relation.ReflTransGen (fun w w' => ∃ a, Step adminKey w a w')

/-- Whatever cloud thread has written the row belongs to the namespace, and one
has. -/
def WrittenBy (w : World) (nameSpace : String) (r : Machine) : Prop :=
  (∃ ns, (r.id, ns) ∈ w.log) ∧ ∀ ns, (r.id, ns) ∈ w.log → ns = nameSpace

/-- The machines belong to the current namespace; there are none before the first
deployment. -/
structure Sound (w : World) : Prop where
  logged : ∀ entry ∈ w.log, entry.1 ≤ w.db.curID
  single : w.db.rows .blueprint = [] ∧ w.db.rows .machine = [] ∨
    ∃ bp, w.db.rows .blueprint = [bp] ∧
      ∀ r ∈ w.db.rows .machine, WrittenBy w bp.blueprint.nameSpace r

theorem Sound.initial : Sound initial := ⟨by simp [World.initial], Or.inl ⟨rfl, rfl⟩⟩

section Transactions

variable {ords : Nat → MapOrder} {view view' : Database} {adminKey : String}

/-- The last operation of a deployment: the only blueprint is overwritten. -/
theorem commit_blueprint {bp : BlueprintRow} {newBlueprint : Blueprint}
    (hRows : view.rows .blueprint = [bp])
    (h : view.commit .blueprint ({ bp with blueprint := newBlueprint } : BlueprintRow) = .ok view') :
    view'.rows .blueprint = [({ bp with blueprint := newBlueprint } : BlueprintRow)] ∧
      view'.rows .machine = view.rows .machine ∧ view'.curID = view.curID := by
  have hOld : bp ∈ view.rows .blueprint := hRows ▸ List.mem_singleton_self bp
  obtain ⟨view'', hCommit, hRows', hCur, hTouches⟩ : ∃ view'',
      view.commit .blueprint ({ bp with blueprint := newBlueprint } : BlueprintRow) = .ok view'' ∧
      view''.rows .blueprint = replaceRow .blueprint
        ({ bp with blueprint := newBlueprint } : BlueprintRow) (view.rows .blueprint) ∧
      view''.curID = view.curID ∧ Touches .blueprint view view'' := view.commit_spec hOld rfl
  obtain rfl : view' = view'' := Except.ok.inj (h.symm.trans hCommit)
  refine ⟨?_, hTouches.rows .machine (by decide), hCur⟩
  rw [hRows', hRows]
  simp [replaceRow, getID]

/-- The first deployment. -/
theorem deploy_first {newBlueprint : Blueprint} (hRows : view.rows .blueprint = [])
    (h : Kelda.deploy ords newBlueprint view = .ok view') :
    (∃ id, view'.rows .blueprint = [⟨id, newBlueprint⟩]) ∧
      view'.rows .machine = view.rows .machine ∧ view.curID ≤ view'.curID := by
  obtain ⟨hRow, hInserted, hCur, hTouches⟩ := view.insert_spec .blueprint
  rw [Kelda.deploy, getBlueprint_none hRows] at h
  rw [hRows, List.nil_append, ← hRow] at hInserted
  obtain ⟨hBlueprint, hMachines, hCur'⟩ := commit_blueprint hInserted h
  refine ⟨⟨_, hBlueprint⟩, hMachines.trans (hTouches.rows .machine (by decide)), ?_⟩
  rw [hCur', hCur]
  exact Nat.le_succ _

/-- A later deployment keeps the machines of its own namespace. -/
theorem deploy_next {newBlueprint : Blueprint} {bp : BlueprintRow}
    (hRows : view.rows .blueprint = [bp]) (h : Kelda.deploy ords newBlueprint view = .ok view') :
    view'.rows .blueprint = [({ bp with blueprint := newBlueprint } : BlueprintRow)] ∧
      view'.rows .machine =
        (if bp.blueprint.nameSpace ≠ newBlueprint.nameSpace then [] else view.rows .machine) ∧
      view'.curID = view.curID := by
  rw [Kelda.deploy, getBlueprint_single hRows] at h
  by_cases hSwitch : bp.blueprint.nameSpace ≠ newBlueprint.nameSpace
  · obtain ⟨-, hCur, hTouches⟩ :=
      view.removeAll_spec (view.selectAll (ords 1) .machine)
    have hEmpty : ((view.removeAll .machine (view.selectAll (ords 1) .machine)).rows .machine).Perm
        [] := view.removeAll_perm (view.selectAll_perm (ords 1) .machine)
    have hKept := (hTouches.rows .blueprint (by decide)).trans hRows
    simp only [bind, Except.bind, if_pos hSwitch] at h
    obtain ⟨hBlueprint, hMachines, hCur'⟩ := commit_blueprint hKept h
    refine ⟨hBlueprint, ?_, hCur'.trans hCur⟩
    rw [if_pos hSwitch, hMachines]
    exact List.perm_nil.mp hEmpty
  · simp only [bind, Except.bind, if_neg hSwitch] at h
    rw [if_neg hSwitch]
    exact commit_blueprint hRows h

/-- The foreman changes at most the fields of a row that is there. -/
theorem setMinionStatus_writes {ord : MapOrder} {cloudID : String} {role : Int}
    {isConnected : Bool} (h : setMinionStatus ord cloudID role isConnected view = .ok view') :
    Writes .machine view view' ∧ view'.curID = view.curID := by
  rw [setMinionStatus] at h
  split at h
  · split_ifs at h with hStopping
    · obtain rfl : view = view' := Except.ok.inj h
      exact ⟨Writes.refl _ _, rfl⟩
    · cases hRole : pbToRole role with
      | error e =>
          rw [hRole] at h
          cases h
      | ok role' =>
          rw [hRole] at h
          exact commit_writes h
  · obtain rfl : view = view' := Except.ok.inj h
    exact ⟨Writes.refl _ _, rfl⟩

theorem syncDBWithCloud_writes {cld : Cloud} {cms : List Machine} {ord : MapOrder}
    (h : cld.syncDBWithCloud cms ord view = .ok view') : Writes .machine view view' := by
  rw [Cloud.syncDBWithCloud] at h
  obtain ⟨joined, -, hLoops⟩ := Except.exists_of_bind_eq_ok h
  exact ((view.insertAll_writes .machine joined.lonelyRights).trans
    (@removeAll_writes .machine _ joined.lonelyLefts)).trans
      (foldlM_writes (fun _ _ _ hStep => (commit_writes hStep).1) _ hLoops)

theorem keepMachine_writes {st st' : Cloud.JoinResult × Database} {p : Pair Machine Machine}
    (h : Cloud.keepMachine st p = .ok st') : Writes .machine st.2 st'.2 := by
  rw [Cloud.keepMachine] at h
  obtain ⟨view, hCommit, hRest⟩ := Except.exists_of_bind_eq_ok h
  split_ifs at hRest
  all_goals
    cases hRest
    exact (commit_writes hCommit).1

theorem stopMachine_writes {st st' : Cloud.JoinResult × Database} {dbm : Machine}
    (h : Cloud.stopMachine st dbm = .ok st') : Writes .machine st.2 st'.2 := by
  rw [Cloud.stopMachine] at h
  obtain ⟨view, hCommit, hRest⟩ := Except.exists_of_bind_eq_ok h
  cases hRest
  exact (commit_writes hCommit).1

theorem bootMachine_writes {st st' : Cloud.JoinResult × Database} {bpm : Machine}
    (h : Cloud.bootMachine st bpm = .ok st') : Writes .machine st.2 st'.2 := by
  rw [Cloud.bootMachine] at h
  obtain ⟨view, hCommit, hRest⟩ := Except.exists_of_bind_eq_ok h
  cases hRest
  exact (st.2.insert_writes .machine).trans (commit_writes hCommit).1

theorem syncDBWithBlueprint_writes {cld : Cloud} {res : Cloud.JoinResult}
    (h : cld.syncDBWithBlueprint adminKey ords view = .ok (res, view')) :
    Writes .machine view view' := by
  rw [Cloud.syncDBWithBlueprint] at h
  obtain ⟨found, -, hFound⟩ := Except.exists_of_bind_eq_ok h
  cases found with
  | error err => cases hFound
  | ok bp =>
      obtain ⟨joined, -, hLoops⟩ := Except.exists_of_bind_eq_ok hFound
      obtain ⟨kept, hKeep, hRest⟩ := Except.exists_of_bind_eq_ok hLoops
      obtain ⟨stopped, hStop, hBoot⟩ := Except.exists_of_bind_eq_ok hRest
      exact ((@foldlM_writes .machine _ _ _ Prod.snd (fun _ _ _ => keepMachine_writes) _ _ _ hKeep).trans
        (@foldlM_writes .machine _ _ _ Prod.snd (fun _ _ _ => stopMachine_writes) _ _ _ hStop)).trans
          (@foldlM_writes .machine _ _ _ Prod.snd (fun _ _ _ => bootMachine_writes) _ _ _ hBoot)

/-- A join that is not refused belongs to the current namespace, and writes to
the machine table only. -/
theorem joinImpl_writes {cld : CloudThread} {machines : List Machine}
    {out : Cloud.JoinResult × List ACL} {bp : BlueprintRow} (hRows : view.rows .blueprint = [bp])
    (h : cld.joinImpl adminKey ords machines view = .ok (.ok (out, view'))) :
    cld.nameSpace = bp.blueprint.nameSpace ∧ Writes .machine view view' := by
  rw [CloudThread.joinImpl, getBlueprint_single hRows] at h
  obtain ⟨found, hFound, h⟩ := Except.exists_of_bind_eq_ok h
  cases hFound
  dsimp only at h
  by_cases hNamespace : cld.nameSpace ≠ bp.blueprint.nameSpace
  · rw [if_pos hNamespace] at h
    cases Except.ok.inj h
  · rw [if_neg hNamespace] at h
    obtain ⟨synced, hSync, hRest⟩ := Except.exists_of_bind_eq_ok h
    obtain ⟨⟨res, last⟩, hLast, hOut⟩ := Except.exists_of_bind_eq_ok hRest
    obtain rfl : last = view' := congrArg Prod.snd (Except.ok.inj (Except.ok.inj hOut))
    exact ⟨not_not.mp hNamespace,
      (syncDBWithCloud_writes hSync).trans (syncDBWithBlueprint_writes hLast)⟩

/-- Without a blueprint a join is refused. -/
theorem joinImpl_refused {cld : CloudThread} {machines : List Machine}
    {out : Cloud.JoinResult × List ACL} (hRows : view.rows .blueprint = []) :
    cld.joinImpl adminKey ords machines view ≠ .ok (.ok (out, view')) := by
  rw [CloudThread.joinImpl, getBlueprint_none hRows]
  intro h
  cases Except.ok.inj h

end Transactions

section Invariant

variable {adminKey : String} {w w' : World} {a : Action}

theorem mem_written {cld : CloudThread} {before after : Database} {entry : Nat × String} :
    entry ∈ written cld before after ↔ ∃ r ∈ after.rows .machine,
      r ∉ before.rows .machine ∧ (getID .machine r, cld.nameSpace) = entry := by
  simp [written, and_assoc]

/-- A row that was there before keeps its writers. -/
theorem WrittenBy.of_id {nameSpace : String} {r r' : Machine} (h : WrittenBy w nameSpace r)
    (hID : r.id = r'.id) (hLog : w'.log = w.log) : WrittenBy w' nameSpace r' := by
  rw [WrittenBy, hLog, ← hID]
  exact h

theorem Sound.join {cld : CloudThread} {machines : List Machine}
    {out : Cloud.JoinResult × List ACL} {db' : Database} {ords : Nat → MapOrder} (h : Sound w)
    (hRun : cld.joinImpl adminKey ords machines w.db = .ok (.ok (out, db')))
    (listed : List (CloudThread × List Machine)) :
    Sound ⟨db'.clearAlerts [.blueprint, .machine], listed, w.log ++ written cld w.db db'⟩ := by
  rcases h.single with ⟨hNone, -⟩ | ⟨bp, hBlueprint, hRows⟩
  · exact absurd hRun (joinImpl_refused hNone)
  · obtain ⟨hNamespace, hWrites⟩ := joinImpl_writes hBlueprint hRun
    refine ⟨?_, Or.inr ⟨bp, ?_, ?_⟩⟩
    · intro entry hEntry
      rcases List.mem_append.mp hEntry with hOld | hNew
      · exact (h.logged entry hOld).trans hWrites.touches.curID
      · obtain ⟨r, hr, -, rfl⟩ := mem_written.mp hNew
        exact db'.bounded .machine r hr
    · exact (hWrites.touches.rows .blueprint (by decide)).trans hBlueprint
    · intro r hr
      have hOldEntries : ∀ ns, (r.id, ns) ∈ w.log → ns = bp.blueprint.nameSpace := by
        intro ns hEntry
        rcases hWrites.ids r hr with ⟨old, hOld, hID⟩ | hFresh
        · refine (hRows old hOld).2 ns ?_
          rwa [show old.id = r.id from hID]
        · exact absurd (h.logged _ hEntry) (Nat.not_le.mpr hFresh)
      refine ⟨?_, fun ns hEntry => ?_⟩
      · by_cases hKept : r ∈ w.db.rows .machine
        · obtain ⟨ns, hEntry⟩ := (hRows r hKept).1
          exact ⟨ns, List.mem_append_left _ hEntry⟩
        · exact ⟨cld.nameSpace, List.mem_append_right _ (mem_written.mpr ⟨r, hr, hKept, rfl⟩)⟩
      · rcases List.mem_append.mp hEntry with hOld | hNew
        · exact hOldEntries ns hOld
        · obtain ⟨_, _, _, hEq⟩ := mem_written.mp hNew
          rw [← hNamespace]
          exact (congrArg Prod.snd hEq).symm

theorem Sound.step (h : Sound w) (hStep : Step adminKey w a w') : Sound w' := by
  cases hStep with
  | list cld machines => exact ⟨h.logged, h.single⟩
  | abort ords hListed hRun => exact ⟨h.logged, h.single⟩
  | join ords hListed hRun => exact h.join hRun _
  | deploy ords hRun =>
      rcases h.single with ⟨hNone, hEmpty⟩ | ⟨bp, hBlueprint, hRows⟩
      · obtain ⟨⟨id, hNew⟩, hMachines, hCur⟩ := deploy_first hNone hRun
        refine ⟨fun entry hEntry => (h.logged entry hEntry).trans hCur, Or.inr ⟨_, hNew, ?_⟩⟩
        intro r hr
        exact absurd ((hMachines.trans hEmpty) ▸ hr : r ∈ []) List.not_mem_nil
      · obtain ⟨hNew, hMachines, hCur⟩ := deploy_next hBlueprint hRun
        refine ⟨fun entry hEntry => (h.logged entry hEntry).trans hCur.ge,
          Or.inr ⟨_, hNew, fun r hr => ?_⟩⟩
        replace hr : r ∈ _ := hMachines ▸ hr
        split_ifs at hr with hSwitch
        · exact absurd hr List.not_mem_nil
        · rw [← not_not.mp hSwitch]
          exact hRows r hr
  | status ord hRun =>
      obtain ⟨hWrites, hCur⟩ := setMinionStatus_writes hRun
      have hBlueprint := hWrites.touches.rows .blueprint (by decide)
      refine ⟨fun entry hEntry => (h.logged entry hEntry).trans hCur.ge, ?_⟩
      rcases h.single with ⟨hNone, hEmpty⟩ | ⟨bp, hOne, hRows⟩
      · refine Or.inl ⟨hBlueprint.trans hNone, List.eq_nil_iff_forall_not_mem.mpr ?_⟩
        intro r hr
        obtain ⟨old, hOld, -⟩ := hWrites.exists_old hCur hr
        exact absurd (hEmpty ▸ hOld : old ∈ []) List.not_mem_nil
      · refine Or.inr ⟨bp, hBlueprint.trans hOne, fun r hr => ?_⟩
        obtain ⟨old, hOld, hID⟩ := hWrites.exists_old hCur hr
        exact (hRows old hOld).of_id hID rfl

theorem Run.sound (hRun : Run adminKey w w') (h : Sound w) : Sound w' := by
  induction hRun with
  | refl => exact h
  | tail _ last ih =>
      obtain ⟨a, hStep⟩ := last
      exact ih.step hStep

/-- Once there is a blueprint there will always be one. -/
theorem Step.blueprint (hStep : Step adminKey w a w')
    (hOne : ∃ bp, w.db.rows .blueprint = [bp]) : ∃ bp, w'.db.rows .blueprint = [bp] := by
  obtain ⟨bp, hBlueprint⟩ := hOne
  cases hStep with
  | list cld machines => exact ⟨bp, hBlueprint⟩
  | abort ords hListed hRun => exact ⟨bp, hBlueprint⟩
  | join ords hListed hRun =>
      exact ⟨bp, ((joinImpl_writes hBlueprint hRun).2.touches.rows .blueprint (by decide)).trans
        hBlueprint⟩
  | deploy ords hRun => exact ⟨_, (deploy_next hBlueprint hRun).1⟩
  | status ord hRun =>
      exact ⟨bp, ((setMinionStatus_writes hRun).1.touches.rows .blueprint (by decide)).trans
        hBlueprint⟩

theorem Run.blueprint (hRun : Run adminKey w w') (hOne : ∃ bp, w.db.rows .blueprint = [bp]) :
    ∃ bp, w'.db.rows .blueprint = [bp] := by
  induction hRun with
  | refl => exact hOne
  | tail _ last ih =>
      obtain ⟨a, hStep⟩ := last
      exact hStep.blueprint ih

/-- A deployment leaves its blueprint. -/
theorem Sound.deployed {newBlueprint : Blueprint} (h : Sound w)
    (hStep : Step adminKey w (.deploy newBlueprint) w') :
    ∃ bp, w'.db.rows .blueprint = [bp] := by
  cases hStep with
  | deploy ords hRun =>
      rcases h.single with ⟨hNone, -⟩ | ⟨bp, hOne, -⟩
      · obtain ⟨⟨id, hNew⟩, -⟩ := deploy_first hNone hRun
        exact ⟨_, hNew⟩
      · exact ⟨_, (deploy_next hOne hRun).1⟩

end Invariant

/-- In every state after the first deployment, the rows of the machine table were
written by cloud threads of the current namespace only. -/
theorem machines_of_namespace (adminKey : String) {newBlueprint : Blueprint} {w w' w'' : World}
    (hBefore : Run adminKey initial w) (hDeploy : Step adminKey w (.deploy newBlueprint) w')
    (hAfter : Run adminKey w' w'') :
    ∃ bp, w''.db.rows .blueprint = [bp] ∧
      ∀ r ∈ w''.db.rows .machine, WrittenBy w'' bp.blueprint.nameSpace r := by
  have hSound := hBefore.sound Sound.initial
  obtain ⟨bp, hOne⟩ := hAfter.blueprint (hSound.deployed hDeploy)
  rcases (hAfter.sound (hSound.step hDeploy)).single with ⟨hNone, -⟩ | hRows
  · rw [hOne] at hNone
    cases hNone
  · exact hRows

/-- A blueprint with one machine. -/
def oneMachine (nameSpace : String) : Blueprint where
  containers := []
  loadBalancers := []
  connections := []
  placements := []
  machines := [⟨"Amazon", "Worker", "m4.large", 0, "us-west-1", [], "", false⟩]
  nameSpace := nameSpace

/-- The thread for the machine in a namespace. -/
def sampleThread (nameSpace : String) : CloudThread := ⟨⟨"Amazon", "us-west-1"⟩, nameSpace⟩

/-- A deployment and a join of a thread of its namespace that has listed nothing. -/
def deployAndJoin (nameSpace : String) (view : Database) : Except String Database := do
  let view ← Kelda.deploy (fun _ => MapOrder.stored) (oneMachine nameSpace) view
  match ← (sampleThread nameSpace).joinImpl "" (fun _ => MapOrder.stored) []
    (view.clearAlerts [.blueprint, .machine]) with
  | .error err => .error err
  | .ok (_, view) => .ok (view.clearAlerts [.blueprint, .machine])

theorem deployAndJoin_run {nameSpace : String} {w : World} {db' : Database}
    (h : deployAndJoin nameSpace w.db = .ok db') :
    ∃ w' w'', Step "" w (.deploy (oneMachine nameSpace)) w' ∧ Run "" w' w'' ∧ w''.db = db' := by
  rw [deployAndJoin] at h
  obtain ⟨deployed, hDeploy, hRest⟩ := Except.exists_of_bind_eq_ok h
  obtain ⟨found, hJoin, hLast⟩ := Except.exists_of_bind_eq_ok hRest
  cases found with
  | error err => cases hLast
  | ok joined =>
      obtain ⟨out, view⟩ := joined
      obtain rfl : view.clearAlerts [.blueprint, .machine] = db' := Except.ok.inj hLast
      have hList : Step "" { w with db := deployed.clearAlerts [.blueprint, .machine] }
          (.list (sampleThread nameSpace) []) _ := Step.list (sampleThread nameSpace) []
      exact ⟨_, _, Step.deploy _ hDeploy,
        (Relation.ReflTransGen.single ⟨_, hList⟩).tail
          ⟨_, Step.join _ (List.mem_cons_self ..) hJoin⟩, rfl⟩

/-- Two namespaces one after the other; each boots its machine. -/
theorem machines_of_namespace_switch :
    ∃ w bp r, Run "" initial w ∧ w.db.rows .blueprint = [bp] ∧ bp.blueprint.nameSpace = "new" ∧
      w.db.rows .machine = [r] ∧ WrittenBy w bp.blueprint.nameSpace r := by
  have hEval : ((deployAndJoin "old" Database.empty).bind (deployAndJoin "new")).toOption.map
      (fun db => (db.rows .blueprint, (db.rows .machine).length)) =
        some ([⟨1, oneMachine "new"⟩], 1) := by
    decide +kernel
  cases hRun : (deployAndJoin "old" Database.empty).bind (deployAndJoin "new") with
  | error err =>
      rw [hRun] at hEval
      cases hEval
  | ok last =>
      rw [hRun] at hEval
      obtain ⟨hBlueprint, hCount⟩ := Prod.mk.inj (Option.some.inj hEval)
      obtain ⟨first, hFirst, hSecond⟩ := Except.exists_of_bind_eq_ok hRun
      obtain ⟨w₁, w₂, hDeploy, hAfter, rfl⟩ := deployAndJoin_run (w := initial) hFirst
      obtain ⟨w₃, w₄, hDeploy', hAfter', rfl⟩ := deployAndJoin_run hSecond
      have hBefore : Run "" initial w₂ := Relation.ReflTransGen.head ⟨_, hDeploy⟩ hAfter
      obtain ⟨bp, hOne, hRows⟩ := machines_of_namespace "" hBefore hDeploy' hAfter'
      obtain ⟨r, hRow⟩ := List.length_eq_one_iff.mp hCount
      obtain rfl : bp = ⟨1, oneMachine "new"⟩ := (List.cons.inj (hOne.symm.trans hBlueprint)).1
      exact ⟨w₄, _, r, (hBefore.tail ⟨_, hDeploy'⟩).trans hAfter', hOne, rfl, hRow,
        hRows r (hRow ▸ List.mem_singleton_self r)⟩

end World

end Kelda
