import Kelda.Minion.Server

/-! The foreman, which keeps the configs of the minions up to date. The answers of
the minions are arguments; what is sent to them is part of the outcome. -/
namespace Kelda.Foreman

open DB PB

/-- A connection to a minion, with the answer to a request for its config. -/
structure Client where
  getMinion : Except String MinionConfig

/-- What a run returns, and the config it has sent, if any. An error of the call
is only logged. -/
structure Outcome where
  role : PB.Role
  connected : Bool
  setMinion : Option MinionConfig

/-- The machines that may be configured. -/
def listed (m : Machine) : Bool :=
  m.cloudID ≠ "" ∧ m.publicIP ≠ "" ∧ m.privateIP ≠ "" ∧ m.status ≠ stopping

/-- The last of the machines with the cloud ID. -/
def findMachine (cloudID : String) (machines : List Machine) : Option Machine :=
  machines.foldl (fun found m => if m.cloudID = cloudID then some m else found) none

/-- Whether there is enough information for the configs: machines of unknown role
may still become members of etcd. -/
def clusterReady (machines : List Machine) : Bool :=
  machines.all (fun m => !(m.role = .none ∨ m.privateIP = ""))

def etcdIPs (machines : List Machine) : List String :=
  (machines.filter (fun m => m.role = .master ∧ m.privateIP ≠ "")).map Machine.privateIP

/-- The role is left for the minion to report. -/
def makeConfig (machines : List Machine) (minionMachine : Machine) (blueprint : String) :
    MinionConfig where
  role := .none
  floatingIP := minionMachine.floatingIP
  privateIP := minionMachine.privateIP
  blueprint := blueprint
  provider := minionMachine.provider
  size := minionMachine.size
  region := minionMachine.region
  etcdMembers := etcdIPs machines
  authorizedKeys := minionMachine.sshKeys

/-- The text of the blueprint. Without one, it is the text of the empty blueprint. -/
def blueprintText (ord : MapOrder) (view : Database) : Except String String := do
  match ← getBlueprint ord view with
  | .ok bp => pure bp.blueprint.toString
  | .error _ => pure Blueprint.zero.toString

/-- Connect to the minion with the cloud ID and update its config. Before the
cutoff, nothing is sent unless the cluster is ready. -/
def runOnce (ords : Nat → MapOrder) (beforeCutoff : Bool)
    (newClient : String → Except String Client) (view : Database) (cloudID : String) :
    Except String Outcome := do
  let blueprint ← blueprintText (ords 0) view
  let machines := view.select (ords 1) .machine listed
  match findMachine cloudID machines with
  | none => pure ⟨.none, false, none⟩
  | some minionMachine =>
    match newClient minionMachine.publicIP with
    | .error _ => pure ⟨.none, false, none⟩
    | .ok cli =>
      match cli.getMinion with
      | .error _ => pure ⟨.none, false, none⟩
      | .ok currConfig =>
        if !clusterReady machines && beforeCutoff then pure ⟨currConfig.role, true, none⟩
        else
          let newConfig := makeConfig machines minionMachine blueprint
          pure ⟨currConfig.role, true, if currConfig ≠ newConfig then some newConfig else none⟩

section Runs

variable {ords : Nat → MapOrder} {beforeCutoff : Bool} {newClient : String → Except String Client}
  {view : Database} {cloudID : String}

theorem findMachine_eq (machines : List Machine) :
    findMachine cloudID machines =
      (machines.filter (fun m => m.cloudID = cloudID)).getLast? := by
  induction machines using List.reverseRecOn with
  | nil => rfl
  | append_singleton machines m ih =>
      rw [findMachine, List.foldl_append, List.filter_append]
      by_cases hID : m.cloudID = cloudID
      · simp [hID]
      · simp [hID, ← ih, findMachine]

theorem findMachine_eq_some {machines : List Machine} {m : Machine}
    (h : findMachine cloudID machines = some m) : m ∈ machines ∧ m.cloudID = cloudID := by
  rw [findMachine_eq] at h
  simpa using List.mem_filter.mp (List.mem_of_getLast? h)

theorem exists_findMachine {machines : List Machine} {m : Machine} (hm : m ∈ machines)
    (hID : m.cloudID = cloudID) : ∃ found, findMachine cloudID machines = some found := by
  have hMem : m ∈ machines.filter (fun m => m.cloudID = cloudID) :=
    List.mem_filter.mpr ⟨hm, decide_eq_true hID⟩
  rw [findMachine_eq, List.getLast?_eq_some_getLast (List.ne_nil_of_mem hMem)]
  exact ⟨_, rfl⟩

theorem clusterReady_iff {machines : List Machine} :
    clusterReady machines = true ↔ ∀ m ∈ machines, m.role ≠ .none ∧ m.privateIP ≠ "" := by
  simp [clusterReady]

/-- The blueprint that is sent. -/
def daemonBlueprint (view : Database) : Blueprint :=
  ((view.rows .blueprint).head?.map BlueprintRow.blueprint).getD Blueprint.zero

theorem blueprintText_eq_ok_iff {ord : MapOrder} {text : String} :
    blueprintText ord view = .ok text ↔
      (view.rows .blueprint).length ≤ 1 ∧ text = (daemonBlueprint view).toString := by
  match hRows : view.rows .blueprint with
  | [] =>
      simp only [blueprintText, getBlueprint_none hRows, daemonBlueprint, hRows]
      simp [bind, Except.bind, pure, Except.pure, eq_comm]
  | [row] =>
      simp only [blueprintText, getBlueprint_single hRows, daemonBlueprint, hRows]
      simp [bind, Except.bind, pure, Except.pure, eq_comm]
  | row :: row' :: rows =>
      constructor
      · intro h
        obtain ⟨found, hFound, -⟩ := Except.exists_of_bind_eq_ok h
        cases found with
        | error => simp [rows_of_getBlueprint_error hFound] at hRows
        | ok bp => simp [rows_of_getBlueprint hFound] at hRows
      · intro h
        simp at h

/-- The runs in which a config is sent. -/
theorem runOnce_sends_iff {cfg : MinionConfig} :
    (∃ out, runOnce ords beforeCutoff newClient view cloudID = .ok out ∧
        out.setMinion = some cfg) ↔
      ∃ blueprint m cli currConfig, blueprintText (ords 0) view = .ok blueprint ∧
        findMachine cloudID (view.select (ords 1) .machine listed) = some m ∧
        newClient m.publicIP = .ok cli ∧ cli.getMinion = .ok currConfig ∧
        (beforeCutoff = true → clusterReady (view.select (ords 1) .machine listed) = true) ∧
        currConfig ≠ cfg ∧
        cfg = makeConfig (view.select (ords 1) .machine listed) m blueprint := by
  constructor
  · rintro ⟨out, hRun, hSent⟩
    obtain ⟨blueprint, hText, hRun⟩ := Except.exists_of_bind_eq_ok hRun
    dsimp only at hRun
    split at hRun
    · cases hRun
      cases hSent
    · next m hFind =>
        split at hRun
        · cases hRun
          cases hSent
        · next cli hClient =>
            split at hRun
            · cases hRun
              cases hSent
            · next currConfig hGet =>
                split_ifs at hRun with hWait hSame
                · cases hRun
                  cases hSent
                · cases hRun
                  rw [Option.some.injEq] at hSent
                  subst hSent
                  refine ⟨blueprint, m, cli, currConfig, hText, hFind, hClient, hGet, ?_, hSame, rfl⟩
                  intro hEarly
                  simpa [hEarly] using hWait
                · cases hRun
                  cases hSent
  · rintro ⟨blueprint, m, cli, currConfig, hText, hFind, hClient, hGet, hReady, hNe, rfl⟩
    have hGo : (!clusterReady (view.select (ords 1) .machine listed) && beforeCutoff) = false := by
      cases beforeCutoff with
      | false => rw [Bool.and_false]
      | true => rw [hReady rfl, Bool.not_true, Bool.false_and]
    refine ⟨⟨currConfig.role, true, some _⟩, ?_, rfl⟩
    simp only [runOnce, hText, hFind, hClient, hGet, hGo, bind, Except.bind, pure, Except.pure,
      Bool.false_eq_true, if_false, if_pos hNe]

end Runs

section GracePeriod

/-- A config may be sent before the cutoff. -/
structure Configurable (view : Database) (cloudID : String) : Prop where
  blueprint : (view.rows .blueprint).length ≤ 1
  machine : ∃ m ∈ view.rows .machine, listed m = true ∧ m.cloudID = cloudID
  roles : ∀ m ∈ view.rows .machine, listed m = true → m.role ≠ .none

/-- Only the listed machines are waited for. The others must be complete already. -/
theorem runOnce_waits_iff (view : Database) (cloudID : String) :
    (∀ ords newClient out, runOnce ords true newClient view cloudID = .ok out →
      out.setMinion ≠ none → ∀ m ∈ view.rows .machine, m.status ≠ stopping →
        m.role ≠ .none ∧ m.privateIP ≠ "") ↔
      (Configurable view cloudID → ∀ m ∈ view.rows .machine, m.status ≠ stopping →
        listed m = false → m.role ≠ .none ∧ m.privateIP ≠ "") := by
  constructor
  · rintro hWaits ⟨hBlueprint, ⟨m, hm, hListed, hID⟩, hRoles⟩ other hOther hStatus -
    have hMem : m ∈ view.select MapOrder.stored .machine listed :=
      view.mem_select.mpr ⟨hm, hListed⟩
    obtain ⟨found, hFind⟩ := exists_findMachine hMem hID
    have hReady : clusterReady (view.select MapOrder.stored .machine listed) = true := by
      rw [clusterReady_iff]
      intro m' hm'
      obtain ⟨hRow, hListed'⟩ := view.mem_select.mp hm'
      exact ⟨hRoles m' hRow hListed', (of_decide_eq_true hListed').2.2.1⟩
    -- a worker never answers with the config that is made
    let cfg := makeConfig (view.select MapOrder.stored .machine listed) found
      (daemonBlueprint view).toString
    obtain ⟨out, hRun, hSent⟩ : ∃ out, runOnce (fun _ => .stored) true
        (fun _ => .ok ⟨.ok { cfg with role := .worker }⟩) view cloudID = .ok out ∧
        out.setMinion = some cfg := by
      rw [runOnce_sends_iff]
      refine ⟨_, found, _, _, blueprintText_eq_ok_iff.mpr ⟨hBlueprint, rfl⟩, hFind, rfl, rfl,
        fun _ => hReady, ?_, rfl⟩
      intro hEq
      cases congrArg MinionConfig.role hEq
    exact hWaits _ _ out hRun (by simp [hSent]) other hOther hStatus
  · intro hOthers ords newClient out hRun hSent m hm hStatus
    obtain ⟨cfg, hCfg⟩ := Option.ne_none_iff_exists'.mp hSent
    obtain ⟨blueprint, found, cli, currConfig, hText, hFind, -, -, hReady, -, -⟩ :=
      runOnce_sends_iff.mp ⟨out, hRun, hCfg⟩
    have hComplete : ∀ m ∈ view.rows .machine, listed m = true →
        m.role ≠ .none ∧ m.privateIP ≠ "" := fun m hm hListed =>
      clusterReady_iff.mp (hReady rfl) m (view.mem_select.mpr ⟨hm, hListed⟩)
    have hFound := findMachine_eq_some hFind
    have hFoundRow := view.mem_select.mp hFound.1
    cases hListed : listed m with
    | true => exact hComplete m hm hListed
    | false =>
        refine hOthers ?_ m hm hStatus hListed
        exact ⟨(blueprintText_eq_ok_iff.mp hText).1, ⟨found, hFoundRow.1, hFoundRow.2, hFound.2⟩,
          fun m hm hListed => (hComplete m hm hListed).1⟩

/-- A master that is connected, next to one that still boots. -/
def bootingView : Database where
  rows
    | .machine =>
      [{ id := 1, cloudID := "i-1", publicIP := "54.0.0.1", privateIP := "10.0.0.1",
         status := connected, role := .master },
        { id := 2, cloudID := "i-2", status := booting, role := .master }]
    | _ => []
  shouldAlert := fun _ => false
  curID := 2
  nodup := fun tt => by cases tt <;> simp [getID]
  bounded := fun tt => by cases tt <;> simp [getID]

/-- What the first of them answers. -/
def bootingAnswer : MinionConfig where
  role := .master
  privateIP := ""
  blueprint := ""
  provider := ""
  size := ""
  region := ""
  floatingIP := ""
  etcdMembers := []
  authorizedKeys := [""]

/-- It is configured at once, as the only member of etcd. -/
theorem partial_etcd_configured :
    ∃ out cfg, runOnce (fun _ => .stored) true (fun _ => .ok ⟨.ok bootingAnswer⟩) bootingView
        "i-1" = .ok out ∧ out.setMinion = some cfg ∧ cfg.etcdMembers = ["10.0.0.1"] ∧
      ∃ m ∈ bootingView.rows .machine, m.status ≠ stopping ∧ m.role = .master ∧
        m.privateIP = "" := by
  refine ⟨_, _, rfl, rfl, rfl, _, List.mem_cons_of_mem _ (List.mem_cons_self ..), ?_, rfl, rfl⟩
  decide

end GracePeriod

end Kelda.Foreman
