import Kelda.Cloud.Foreman

/-! Whether the foreman leaves a minion alone once the minion has applied the config
that it was sent. -/
namespace Kelda.Foreman

open DB PB Minion

/-- A connection to the server of a minion. -/
def connect (ords : Nat → MapOrder) (minion : Database) : String → Except String Client :=
  fun _ => .ok ⟨getMinionConfig ords minion⟩

/-- The config that a run makes for the machine. -/
def wantedConfig (ords : Nat → MapOrder) (daemon : Database) (cloudID : String) :
    Option MinionConfig :=
  match blueprintText (ords 0) daemon with
  | .error _ => none
  | .ok blueprint =>
    (findMachine cloudID (daemon.select (ords 1) .machine listed)).map
      (fun m => makeConfig (daemon.select (ords 1) .machine listed) m blueprint)

/-- After a config was sent and applied, the minion answers with what the foreman
wants, and nothing is sent again. -/
def Quiesces (daemon minion : Database) (cloudID : String) : Prop :=
  ∀ ords ordsGet ordsSet beforeCutoff out cfg minion',
    runOnce ords beforeCutoff (connect ordsGet minion) daemon cloudID = .ok out →
    out.setMinion = some cfg → setMinionConfig ordsSet cfg minion = .ok (.ok minion') →
    ∀ ords' ordsGet' beforeCutoff',
      (∃ cfg', getMinionConfig ordsGet' minion' = .ok cfg' ∧
        wantedConfig ords' daemon cloudID = some cfg') ∧
      ∃ out', runOnce ords' beforeCutoff' (connect ordsGet' minion') daemon cloudID = .ok out' ∧
        out'.setMinion = none

section Runs

variable {ords ordsGet : Nat → MapOrder} {beforeCutoff : Bool} {daemon minion : Database}
  {cloudID : String} {cfg : MinionConfig}

theorem wantedConfig_eq_some_iff :
    wantedConfig ords daemon cloudID = some cfg ↔
      (daemon.rows .blueprint).length ≤ 1 ∧
        ∃ m, findMachine cloudID (daemon.select (ords 1) .machine listed) = some m ∧
          cfg = makeConfig (daemon.select (ords 1) .machine listed) m
            (daemonBlueprint daemon).toString := by
  rw [wantedConfig]
  split
  · next hText =>
      have hMany : ¬(daemon.rows .blueprint).length ≤ 1 := fun hLe => by
        rw [blueprintText_eq_ok_iff.mpr ⟨hLe, rfl⟩] at hText
        cases hText
      simp [hMany]
  · next text hText =>
      obtain ⟨hLe, rfl⟩ := blueprintText_eq_ok_iff.mp hText
      simp [hLe, eq_comm]

/-- A config is sent if it is not the one that the minion has. -/
theorem connect_sends_iff :
    (∃ out, runOnce ords beforeCutoff (connect ordsGet minion) daemon cloudID = .ok out ∧
        out.setMinion = some cfg) ↔
      wantedConfig ords daemon cloudID = some cfg ∧
        (∃ currConfig, getMinionConfig ordsGet minion = .ok currConfig ∧ currConfig ≠ cfg) ∧
        (beforeCutoff = true → clusterReady (daemon.select (ords 1) .machine listed) = true) := by
  rw [runOnce_sends_iff, wantedConfig_eq_some_iff]
  constructor
  · rintro ⟨blueprint, m, cli, currConfig, hText, hFind, hClient, hGet, hReady, hNe, hCfg⟩
    obtain ⟨hLe, rfl⟩ := blueprintText_eq_ok_iff.mp hText
    cases hClient
    exact ⟨⟨hLe, m, hFind, hCfg⟩, ⟨currConfig, hGet, hNe⟩, hReady⟩
  · rintro ⟨⟨hLe, m, hFind, hCfg⟩, ⟨currConfig, hGet, hNe⟩, hReady⟩
    exact ⟨_, m, _, currConfig, blueprintText_eq_ok_iff.mpr ⟨hLe, rfl⟩, hFind, rfl, hGet, hReady,
      hNe, hCfg⟩

/-- A minion that has the wanted config is left alone. -/
theorem connect_idle (hGet : getMinionConfig ordsGet minion = .ok cfg)
    (hWanted : wantedConfig ords daemon cloudID = some cfg) :
    ∃ out, runOnce ords beforeCutoff (connect ordsGet minion) daemon cloudID = .ok out ∧
      out.setMinion = none := by
  obtain ⟨hLe, m, hFind, rfl⟩ := wantedConfig_eq_some_iff.mp hWanted
  have hText : blueprintText (ords 0) daemon = .ok (daemonBlueprint daemon).toString :=
    blueprintText_eq_ok_iff.mpr ⟨hLe, rfl⟩
  simp only [runOnce, hText, hFind, connect, hGet, bind, Except.bind, pure, Except.pure, ne_eq,
    not_true, if_false]
  split_ifs
  · exact ⟨_, rfl, rfl⟩
  · exact ⟨_, rfl, rfl⟩

end Runs

section Settling

/-- A config can be sent and applied at all. -/
structure Sendable (daemon minion : Database) (cloudID : String) : Prop where
  blueprint : (daemon.rows .blueprint).length ≤ 1
  portable : (daemonBlueprint daemon).Portable
  machine : ∃ m ∈ daemon.rows .machine, listed m = true ∧ m.cloudID = cloudID
  serves : ∃ m role etcdIPs blueprint, Serves minion m role etcdIPs blueprint

/-- The fields of a machine that its config copies. -/
structure SameConfig (m m' : Machine) : Prop where
  privateIP : m.privateIP = m'.privateIP
  provider : m.provider = m'.provider
  size : m.size = m'.size
  region : m.region = m'.region
  sshKeys : m.sshKeys = m'.sshKeys

/-- What the minion answers with is what it was sent: it has no role yet, the machine
has no floating IP, its keys survive being joined to one text, and no order of the
machines makes a difference. -/
structure Settling (daemon minion : Database) (cloudID : String) : Prop where
  role : ∀ m ∈ minion.rows .minion, m.self = true → m.role = .none
  floatingIP : ∀ m ∈ daemon.rows .machine, listed m = true → m.cloudID = cloudID →
    m.floatingIP = ""
  keys : ∀ m ∈ daemon.rows .machine, listed m = true → m.cloudID = cloudID →
    m.sshKeys ≠ [] ∧ ∀ key ∈ m.sshKeys, '\n' ∉ key.toList
  machines : ∀ m ∈ daemon.rows .machine, listed m = true → m.cloudID = cloudID →
    ∀ m' ∈ daemon.rows .machine, listed m' = true → m'.cloudID = cloudID → SameConfig m m'
  masters : ∀ m ∈ daemon.rows .machine, listed m = true → m.role = .master →
    ∀ m' ∈ daemon.rows .machine, listed m' = true → m'.role = .master →
      m.privateIP = m'.privateIP

variable {ords ordsGet : Nat → MapOrder} {daemon minion : Database} {cloudID : String}
  {cfg : MinionConfig}

theorem mem_etcdIPs {ord : MapOrder} {ip : String} :
    ip ∈ etcdIPs (daemon.select ord .machine listed) ↔
      ∃ m ∈ daemon.rows .machine, listed m = true ∧ m.role = .master ∧ m.privateIP = ip := by
  constructor
  · intro h
    obtain ⟨m, hm, rfl⟩ := List.mem_map.mp h
    obtain ⟨hSelect, hMaster⟩ := List.mem_filter.mp hm
    obtain ⟨hRow, hListed⟩ := daemon.mem_select.mp hSelect
    exact ⟨m, hRow, hListed, (of_decide_eq_true hMaster).1, rfl⟩
  · rintro ⟨m, hRow, hListed, hMaster, rfl⟩
    have hIP : m.privateIP ≠ "" := (of_decide_eq_true hListed).2.2.1
    exact List.mem_map_of_mem (List.mem_filter.mpr
      ⟨daemon.mem_select.mpr ⟨hRow, hListed⟩, decide_eq_true ⟨hMaster, hIP⟩⟩)

theorem etcdIPs_perm (ord ord' : MapOrder) :
    (etcdIPs (daemon.select ord .machine listed)).Perm
      (etcdIPs (daemon.select ord' .machine listed)) :=
  ((((ord.perm _).trans (ord'.perm _).symm).filter _).filter _).map _

theorem Settling.etcdIPs_const (h : Settling daemon minion cloudID) (ord : MapOrder) :
    ∀ ip ∈ etcdIPs (daemon.select ord .machine listed),
      ∀ ip' ∈ etcdIPs (daemon.select ord .machine listed), ip = ip' := by
  intro ip hIP ip' hIP'
  obtain ⟨m, hm, hListed, hMaster, rfl⟩ := mem_etcdIPs.mp hIP
  obtain ⟨m', hm', hListed', hMaster', rfl⟩ := mem_etcdIPs.mp hIP'
  exact h.masters m hm hListed hMaster m' hm' hListed' hMaster'

/-- The same config is wanted in every order. -/
theorem Settling.wantedConfig_eq (h : Settling daemon minion cloudID)
    (hWanted : wantedConfig ords daemon cloudID = some cfg) (ords' : Nat → MapOrder) :
    wantedConfig ords' daemon cloudID = some cfg := by
  obtain ⟨hLe, m, hFind, rfl⟩ := wantedConfig_eq_some_iff.mp hWanted
  obtain ⟨hSelect, hID⟩ := findMachine_eq_some hFind
  obtain ⟨hm, hListed⟩ := daemon.mem_select.mp hSelect
  obtain ⟨m', hFind'⟩ := exists_findMachine
    (daemon.mem_select.mpr ⟨hm, hListed⟩ : m ∈ daemon.select (ords' 1) .machine listed) hID
  obtain ⟨hSelect', hID'⟩ := findMachine_eq_some hFind'
  obtain ⟨hm', hListed'⟩ := daemon.mem_select.mp hSelect'
  have hSame := h.machines m hm hListed hID m' hm' hListed' hID'
  have hEtcd := Lists.eq_of_perm_of_const (etcdIPs_perm (ords 1) (ords' 1)) (h.etcdIPs_const (ords 1))
  rw [wantedConfig_eq_some_iff]
  refine ⟨hLe, m', hFind', ?_⟩
  rw [makeConfig, makeConfig, hSame.privateIP, hSame.provider, hSame.size, hSame.region,
    hSame.sshKeys, hEtcd, h.floatingIP m hm hListed hID, h.floatingIP m' hm' hListed' hID']

/-- The minion answers with the config that it has applied. -/
theorem Settling.answer_eq (h : Settling daemon minion cloudID)
    (hWanted : wantedConfig ords daemon cloudID = some cfg) {m : Minion} {role : PB.Role}
    {etcdIPs : List String} {blueprint : String}
    (hServes : Serves minion m role etcdIPs blueprint) :
    answer (configured cfg m) role (Network.sortStrings cfg.etcdMembers)
      (daemonBlueprint daemon).toString = cfg := by
  obtain ⟨-, machine, hFind, rfl⟩ := wantedConfig_eq_some_iff.mp hWanted
  obtain ⟨hSelect, hID⟩ := findMachine_eq_some hFind
  obtain ⟨hMachine, hListed⟩ := daemon.mem_select.mp hSelect
  have hSelf : m ∈ minion.rows .minion ∧ m.self = true := by
    rw [← List.mem_filter, hServes.self]
    exact List.mem_singleton_self m
  have hRole : role = .none := by
    have hKnown := hServes.role
    rw [roleToPB_eq_none.mpr (h.role m hSelf.1 hSelf.2)] at hKnown
    exact (Except.ok.inj hKnown).symm
  obtain ⟨hSome, hKeys⟩ := h.keys machine hMachine hListed hID
  have hSplit : Text.split '\n' ("\n".intercalate machine.sshKeys) = machine.sshKeys :=
    Text.split_intercalate hKeys hSome
  have hSort : Network.sortStrings (Foreman.etcdIPs (daemon.select (ords 1) .machine listed)) =
      Foreman.etcdIPs (daemon.select (ords 1) .machine listed) :=
    (Lists.eq_of_perm_of_const (List.perm_insertionSort _ _).symm (h.etcdIPs_const (ords 1))).symm
  simp only [answer, configured, makeConfig, hRole, hSplit, hSort,
    h.floatingIP machine hMachine hListed hID]

/-- The minion can be sent the config that is wanted, and applies it. -/
theorem Sendable.applied (h : Sendable daemon minion cloudID) {m : Minion} {role : PB.Role}
    {etcdIPs : List String} {blueprint : String}
    (hServes : Serves minion m role etcdIPs blueprint)
    (hWanted : wantedConfig ords daemon cloudID = some cfg) (ordsSet : Nat → MapOrder) :
    ∃ minion', setMinionConfig ordsSet cfg minion = .ok (.ok minion') ∧
      Serves minion' (configured cfg m) role (Network.sortStrings cfg.etcdMembers)
        (daemonBlueprint daemon).toString := by
  obtain ⟨-, machine, -, rfl⟩ := wantedConfig_eq_some_iff.mp hWanted
  obtain ⟨minion', hApply, hStored, -⟩ := hServes.toStored.applyConfig (daemonBlueprint daemon)
  refine ⟨minion', ?_, hStored, hServes.role⟩
  rw [setMinionConfig, makeConfig, Blueprint.fromJSON_toString_iff.mpr ⟨h.portable, rfl⟩]
  dsimp only
  rw [makeConfig] at hApply
  rw [hApply]
  rfl

/-- If the minion is left alone after any first run, then one answer is wanted in
every order: the current one if nothing is ever sent, or else the one after it. -/
theorem Quiesces.exists_answer (h : Quiesces daemon minion cloudID)
    (hSendable : Sendable daemon minion cloudID) {m : Minion} {role : PB.Role}
    {etcdIPs : List String} {blueprint : String}
    (hServes : Serves minion m role etcdIPs blueprint) :
    ∃ m' etcdIPs' blueprint', ∀ ords cfg,
      wantedConfig ords daemon cloudID = some cfg → cfg = answer m' role etcdIPs' blueprint' := by
  by_cases hSend : ∃ ords cfg, wantedConfig ords daemon cloudID = some cfg ∧
      answer m role etcdIPs blueprint ≠ cfg
  · obtain ⟨ords, cfg, hWanted, hNe⟩ := hSend
    obtain ⟨out, hRun, hSent⟩ : ∃ out, runOnce ords false (connect ords minion) daemon cloudID =
        .ok out ∧ out.setMinion = some cfg :=
      connect_sends_iff.mpr ⟨hWanted, ⟨_, hServes.getMinionConfig_eq, hNe⟩, by simp⟩
    obtain ⟨minion', hSet, hServes'⟩ := hSendable.applied hServes hWanted ords
    refine ⟨configured cfg m, Network.sortStrings cfg.etcdMembers,
      (daemonBlueprint daemon).toString, fun ords' cfg' hWanted' => ?_⟩
    obtain ⟨⟨cfg'', hGet, hEq⟩, -⟩ := h _ _ _ _ _ _ _ hRun hSent hSet ords' ords false
    rw [hServes'.getMinionConfig_eq] at hGet
    rw [hWanted'] at hEq
    rw [Option.some.inj hEq, ← Except.ok.inj hGet]
  · refine ⟨m, etcdIPs, blueprint, fun ords cfg hWanted => ?_⟩
    by_contra hNe
    exact hSend ⟨ords, cfg, hWanted, Ne.symm hNe⟩

/-- Each machine with the cloud ID may be visited last, and is configured then. -/
theorem exists_wantedConfig (hLe : (daemon.rows .blueprint).length ≤ 1) {machine : Machine}
    (hMachine : machine ∈ daemon.rows .machine) (hListed : listed machine = true)
    (hID : machine.cloudID = cloudID) :
    ∃ ords, wantedConfig ords daemon cloudID = some (makeConfig
      (daemon.select (ords 1) .machine listed) machine (daemonBlueprint daemon).toString) := by
  obtain ⟨ord, rest, hWalk⟩ := MapOrder.exists_walk_last hMachine
  refine ⟨fun _ => ord, wantedConfig_eq_some_iff.mpr ⟨hLe, machine, ?_, rfl⟩⟩
  rw [findMachine_eq, Database.select, hWalk]
  simp [hListed, hID]

/-- Each master may be visited first, and is the first member of etcd then. -/
theorem exists_wantedConfig_etcd (h : Sendable daemon minion cloudID) {master : Machine}
    (hMaster : master ∈ daemon.rows .machine) (hListed : listed master = true)
    (hRole : master.role = .master) :
    ∃ ords cfg rest, wantedConfig ords daemon cloudID = some cfg ∧
      cfg.etcdMembers = master.privateIP :: rest := by
  obtain ⟨ord, rest, hWalk⟩ := MapOrder.exists_walk_first hMaster
  obtain ⟨machine, hMachine, hListed', hID⟩ := h.machine
  obtain ⟨found, hFind⟩ := exists_findMachine
    (daemon.mem_select.mpr ⟨hMachine, hListed'⟩ : machine ∈ daemon.select ord .machine listed) hID
  have hIP : master.privateIP ≠ "" := (of_decide_eq_true hListed).2.2.1
  have hEtcd : etcdIPs (daemon.select ord .machine listed) =
      master.privateIP :: etcdIPs (rest.filter listed) := by
    simp [etcdIPs, Database.select, hWalk, hListed, hRole, hIP]
  exact ⟨fun _ => ord, _, _, wantedConfig_eq_some_iff.mpr ⟨h.blueprint, found, hFind, rfl⟩, hEtcd⟩

theorem Quiesces.settling (h : Quiesces daemon minion cloudID)
    (hSendable : Sendable daemon minion cloudID) : Settling daemon minion cloudID := by
  obtain ⟨m, role, etcdIPs, blueprint, hServes⟩ := hSendable.serves
  obtain ⟨m', etcdIPs', blueprint', hAnswer⟩ := h.exists_answer hSendable hServes
  -- what is wanted for a machine is the one answer
  have hMachine : ∀ machine ∈ daemon.rows .machine, listed machine = true →
      machine.cloudID = cloudID → ∃ machines, makeConfig machines machine
        (daemonBlueprint daemon).toString = answer m' role etcdIPs' blueprint' := by
    intro machine hRow hListed hID
    obtain ⟨ords, hWanted⟩ := exists_wantedConfig hSendable.blueprint hRow hListed hID
    exact ⟨_, hAnswer ords _ hWanted⟩
  constructor
  · intro self hSelf hFlag
    obtain ⟨machine, hRow, hListed, hID⟩ := hSendable.machine
    obtain ⟨machines, hEq⟩ := hMachine machine hRow hListed hID
    have hMem : self ∈ (minion.rows .minion).filter Minion.self :=
      List.mem_filter.mpr ⟨hSelf, hFlag⟩
    rw [hServes.self, List.mem_singleton] at hMem
    have hRole : PB.Role.none = role := congrArg MinionConfig.role hEq
    rw [hMem, ← roleToPB_eq_none, hServes.role, hRole]
  · intro machine hRow hListed hID
    obtain ⟨machines, hEq⟩ := hMachine machine hRow hListed hID
    exact congrArg MinionConfig.floatingIP hEq
  · intro machine hRow hListed hID
    obtain ⟨machines, hEq⟩ := hMachine machine hRow hListed hID
    have hKeys : machine.sshKeys = Text.split '\n' m'.authorizedKeys :=
      congrArg MinionConfig.authorizedKeys hEq
    rw [hKeys]
    exact ⟨Text.split_ne_nil _ _, fun key hKey => Text.notMem_of_mem_split hKey⟩
  · intro machine hRow hListed hID machine' hRow' hListed' hID'
    obtain ⟨machines, hEq⟩ := hMachine machine hRow hListed hID
    obtain ⟨machines', hEq'⟩ := hMachine machine' hRow' hListed' hID'
    have hBoth := hEq.trans hEq'.symm
    exact ⟨congrArg MinionConfig.privateIP hBoth, congrArg MinionConfig.provider hBoth,
      congrArg MinionConfig.size hBoth, congrArg MinionConfig.region hBoth,
      congrArg MinionConfig.authorizedKeys hBoth⟩
  · intro master hRow hListed hMaster master' hRow' hListed' hMaster'
    obtain ⟨ords, cfg, rest, hWanted, hEtcd⟩ :=
      exists_wantedConfig_etcd hSendable hRow hListed hMaster
    obtain ⟨ords', cfg', rest', hWanted', hEtcd'⟩ :=
      exists_wantedConfig_etcd hSendable hRow' hListed' hMaster'
    have hBoth : master.privateIP :: rest = master'.privateIP :: rest' := by
      rw [← hEtcd, ← hEtcd', hAnswer _ _ hWanted, hAnswer _ _ hWanted']
    exact (List.cons.inj hBoth).1

/-- The foreman leaves a minion alone exactly if the configs that can be sent settle. -/
theorem quiesces_iff (daemon minion : Database) (cloudID : String) :
    Quiesces daemon minion cloudID ↔
      (Sendable daemon minion cloudID → Settling daemon minion cloudID) := by
  constructor
  · exact fun h hSendable => h.settling hSendable
  · intro h ords ordsGet ordsSet beforeCutoff out cfg minion' hRun hSent hSet ords' ordsGet' early
    obtain ⟨hWanted, ⟨currConfig, hGet, -⟩, -⟩ := connect_sends_iff.mp ⟨out, hRun, hSent⟩
    obtain ⟨m, role, etcdIPs, blueprint, hServes, -⟩ := getMinionConfig_eq_ok_iff.mp hGet
    obtain ⟨hLe, machine, hFind, hCfg⟩ := wantedConfig_eq_some_iff.mp hWanted
    obtain ⟨hSelect, hID⟩ := findMachine_eq_some hFind
    obtain ⟨hMachine, hListed⟩ := daemon.mem_select.mp hSelect
    have hPortable : (daemonBlueprint daemon).Portable := by
      rw [setMinionConfig, hCfg] at hSet
      dsimp only [makeConfig] at hSet
      split at hSet
      · cases hSet
      · next bp hParse => exact (Blueprint.fromJSON_toString_iff.mp hParse).1
    have hSendable : Sendable daemon minion cloudID :=
      ⟨hLe, hPortable, ⟨machine, hMachine, hListed, hID⟩, m, role, etcdIPs, blueprint, hServes⟩
    have hSettling := h hSendable
    obtain ⟨minion'', hSet', hServes'⟩ := hSendable.applied hServes hWanted ordsSet
    have hSame : minion'' = minion' := Except.ok.inj (Except.ok.inj (hSet'.symm.trans hSet))
    subst hSame
    have hGet' : getMinionConfig ordsGet' minion'' = .ok cfg := by
      rw [hServes'.getMinionConfig_eq, hSettling.answer_eq hWanted hServes]
    have hWanted' := hSettling.wantedConfig_eq hWanted ords'
    exact ⟨⟨cfg, hGet', hWanted'⟩, connect_idle hGet' hWanted'⟩

/-- A daemon with one master, with one key and no floating IP. -/
def masterDaemon : Database where
  rows
    | .machine =>
      [{ id := 1, cloudID := "i-1", publicIP := "54.0.0.1", privateIP := "10.0.0.1",
         sshKeys := ["key"], status := connected, role := .master }]
    | _ => []
  shouldAlert := fun _ => false
  curID := 1
  nodup := fun tt => by cases tt <;> simp [getID]
  bounded := fun tt => by cases tt <;> simp [getID]

/-- The minion of the master. -/
def masterMinion : Database where
  rows
    | .minion => [{ id := 1, self := true, role := .master }]
    | _ => []
  shouldAlert := fun _ => false
  curID := 1
  nodup := fun tt => by cases tt <;> simp [getID]
  bounded := fun tt => by cases tt <;> simp [getID]

theorem master_sendable : Sendable masterDaemon masterMinion "i-1" where
  blueprint := Nat.zero_le 1
  portable := by constructor <;> exact fun _ h => absurd h List.not_mem_nil
  machine := ⟨_, List.mem_singleton_self _, by decide, rfl⟩
  serves := ⟨_, .master, [], "", ⟨rfl, .inl ⟨rfl, rfl⟩, .inl ⟨rfl, rfl⟩⟩, rfl⟩

/-- The minion reports a role that the foreman never asks for, so that the config
is sent again and again. -/
theorem master_never_settles : ¬Quiesces masterDaemon masterMinion "i-1" := by
  intro h
  have hRole := (h.settling master_sendable).role _ (List.mem_singleton_self _) rfl
  cases hRole

end Settling

end Kelda.Foreman
