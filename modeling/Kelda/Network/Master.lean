import Kelda.Network.Hostnames
import Kelda.Network.Ovsdb

/-! What the leader does to OVN whenever its database changes. A pass makes the
logical switch and router if they are missing, brings their ports in line with the
containers, and goes on to the load balancers and the ACLs. A function that cannot
list its table, or cannot make its switch, gives up; the functions behind it run
all the same. -/
namespace Kelda.Network

open DB Join IPDef RefStore UuidTable

section Ports

/-- How a request ends: its reply may be lost after it was carried out. -/
inductive Reply where
  | done
  | lost
  | failed
deriving DecidableEq

/-- What the environment decides while the ports of a switch are updated: whether
the check for the switch gets an answer, how making it ends, and the calls after
that. -/
structure PortEnv where
  checked : Bool
  created : Reply
  calls : Env

def PortEnv.Reliable (env : PortEnv) : Prop :=
  env.checked = true ∧ env.created = .done ∧ env.calls.Reliable

/-- The calls for the ports of one kind, and what they send. -/
structure PortTable (nameIndex : Bool) (α : Type) where
  part : Part
  owner : String
  name : α → String
  row : α → PartRow part
  rowName : PartRow part → String
  uuidName : String
  create : Transaction nameIndex
  add : α → Transaction nameIndex
  del : Row (PartRow part) → Transaction nameIndex
  owner_eq : owner = holderName ((schema nameIndex).holder part)
  name_eq : ∀ port, rowName (row port) = name port
  index_eq : (schema nameIndex).index part = fun r => some (rowName r)
  create_eq : create = [.create ((schema nameIndex).holder part) owner]
  add_eq : ∀ port, add port = hangOps part owner [(row port, uuidName)]
  del_eq : ∀ r, del r = unhangOps part owner [r.uuid]
  create_issued : Issued create
  add_issued : ∀ port, Issued (add port)
  del_issued : ∀ r, Issued (del r)

variable {nameIndex : Bool} {α : Type}

def PortTable.Ready (t : PortTable nameIndex α) (st : Server nameIndex) : Prop :=
  st.HasHolder ((schema nameIndex).holder t.part) t.owner

instance (t : PortTable nameIndex α) (st : Server nameIndex) : Decidable (t.Ready st) :=
  inferInstanceAs (Decidable (st.HasHolder _ _))

/-- The common part of `updateLogicalSwitch` and `updateLoadBalancerRouter`. -/
def syncPorts (t : PortTable nameIndex α) (env : PortEnv) (expPorts : List α)
    (st : Server nameIndex) : Server nameIndex × List (Transaction nameIndex) :=
  if env.checked then
    let first := if t.Ready st then [] else [t.create]
    let made := if t.Ready st ∨ env.created = .failed then st else st.exec t.create
    if (t.Ready st ∨ env.created = .done) ∧ env.calls.listed then
      let lports := (env.calls.ords 1).walk (made.parts t.part).rows
      let joined := hashJoin (env.calls.ords 3) expPorts lports t.name (t.rowName ∘ Row.val)
      let calls := joined.lonelyLefts.map t.add ++ joined.lonelyRights.map t.del
      (performAll env.calls 0 calls made, first ++ calls)
    else (made, first)
  else (st, [])

variable (t : PortTable nameIndex α) {env : PortEnv} {expPorts : List α} {st : Server nameIndex}

theorem PortTable.index_filterMap (rows : List (PartRow t.part)) :
    rows.filterMap ((schema nameIndex).index t.part) = rows.map t.rowName := by
  rw [t.index_eq, List.filterMap_eq_map']

theorem PortTable.nodup_names (h : Managed st) :
    ((st.parts t.part).vals.map t.rowName).Nodup := by
  rw [← t.index_filterMap]
  exact h.sound.indexed t.part

theorem PortTable.exec_create (h : Managed st) :
    Managed (st.exec t.create) ∧ t.Ready (st.exec t.create) ∧
      (st.exec t.create).parts = st.parts := by
  refine ⟨h.exec t.create_issued, ?_⟩
  rw [PortTable.Ready, t.create_eq, Store.exec_create h.sound]
  exact ⟨⟨_, Store.mem_holders_addHolder.mpr (Or.inr ⟨rfl, rfl⟩), rfl⟩, rfl⟩

/-- New ports are attached, one after another. -/
theorem PortTable.foldl_add (h : Managed st) (hReady : t.Ready st) {ports : List α}
    (hNames : ((st.parts t.part).vals.map t.rowName ++ ports.map t.name).Nodup) :
    (ports.map t.add).foldl Store.exec st = st.hangAll t.part t.owner (ports.map t.row) ∧
      Managed ((ports.map t.add).foldl Store.exec st) := by
  induction ports generalizing st with
  | nil => exact ⟨rfl, h⟩
  | cons port ports ih =>
      have hExec : st.exec (t.add port) = st.hangAll t.part t.owner [t.row port] := by
        rw [t.add_eq]
        refine Store.exec_hangOps_holder h.sound (by simp) ?_ hReady
        rw [t.index_filterMap, List.map_append]
        refine hNames.sublist (List.Sublist.append_left ?_ _)
        simp [t.name_eq]
      have hNext : ((((st.exec (t.add port))).parts t.part).vals.map t.rowName ++
          ports.map t.name).Nodup := by
        rw [hExec, Store.hangAll_parts_same, Table.vals_insert, List.map_append, List.append_assoc]
        simpa [t.name_eq] using hNames
      obtain ⟨hRest, hManaged⟩ := ih (h.exec (t.add_issued port))
        (Store.exec_hasHolder hReady) hNext
      refine ⟨?_, hManaged⟩
      rw [List.map_cons, List.foldl_cons, hRest, hExec]
      rfl

theorem PortTable.exec_del (h : Managed st) (r : Row (PartRow t.part)) :
    st.exec (t.del r) = st.unhang t.part t.owner r.uuid := by
  rw [t.del_eq]
  refine Store.exec_unhangOps h.sound ?_
  rw [t.owner_eq]
  exact h.names _

theorem PortTable.foldl_del (h : Managed st) (rows : List (Row (PartRow t.part))) :
    (rows.map t.del).foldl Store.exec st = st.unhangAll t.part t.owner (rows.map Row.uuid) := by
  induction rows generalizing st with
  | nil => rfl
  | cons r rows ih =>
      rw [List.map_cons, List.foldl_cons, ih (h.exec (t.del_issued r)), t.exec_del h]
      rfl

/-- What every transaction of the function keeps is kept, whichever of them fail. -/
theorem syncPorts_keeps {P : Server nameIndex → Prop}
    (hCreate : ∀ st, P st → P (st.exec t.create))
    (hAdd : ∀ port ∈ expPorts, ∀ st, P st → P (st.exec (t.add port)))
    (hDel : ∀ r, ∀ st, P st → P (st.exec (t.del r))) (h : P st) :
    P (syncPorts t env expPorts st).1 := by
  have hMade : P (if t.Ready st ∨ env.created = .failed then st else st.exec t.create) := by
    split
    · exact h
    · exact hCreate st h
  rw [syncPorts]
  split
  · dsimp only
    split
    · refine performAll_keeps (fun ops hOps st hSt => ?_) 0 hMade
      rcases List.mem_append.mp hOps with hOps | hOps
      · obtain ⟨port, hPort, rfl⟩ := List.mem_map.mp hOps
        have hExp := (hashJoin_reconciles _ _ _ _ _).lefts (List.mem_append_right _ hPort)
        exact hAdd port hExp st hSt
      · obtain ⟨r, -, rfl⟩ := List.mem_map.mp hOps
        exact hDel r st hSt
    · exact hMade
  · exact h

theorem Managed.syncPorts (h : Managed st) : Managed (syncPorts t env expPorts st).1 :=
  syncPorts_keeps t (fun _ hSt => hSt.exec t.create_issued)
    (fun port _ _ hSt => hSt.exec (t.add_issued port)) (fun r _ hSt => hSt.exec (t.del_issued r)) h

theorem syncPorts_hasHolder {hd : Holder} {name : String} (h : st.HasHolder hd name) :
    (syncPorts t env expPorts st).1.HasHolder hd name :=
  syncPorts_keeps t (P := fun st => st.HasHolder hd name) (fun _ hSt => Store.exec_hasHolder hSt)
    (fun _ _ _ hSt => Store.exec_hasHolder hSt) (fun _ _ hSt => Store.exec_hasHolder hSt) h

/-- Other tables are left alone, and their rows that hang on a holder go on to do so. -/
theorem syncPorts_frame {q : Part} (hPart : t.part ≠ q) (h : Managed st) :
    (syncPorts t env expPorts st).1.parts q = st.parts q ∧
      (st.Hangs q → (syncPorts t env expPorts st).1.Hangs q) := by
  have hStep : ∀ {ops : Transaction nameIndex}, Issued ops → (∀ op ∈ ops, op.part ≠ some q) →
      ∀ st' : Server nameIndex, (Managed st' ∧ st'.parts q = st.parts q ∧ (st.Hangs q → st'.Hangs q)) →
        Managed (st'.exec ops) ∧ (st'.exec ops).parts q = st.parts q ∧
          (st.Hangs q → (st'.exec ops).Hangs q) := by
    intro ops hIssued hOps st' ⟨hManaged, hParts, hHangs⟩
    exact ⟨hManaged.exec hIssued, (hManaged.parts_eq hOps).trans hParts,
      (Store.exec_frame hOps).2 ∘ hHangs⟩
  have hOther : ∀ {part : Option Part}, part = some t.part → part ≠ some q :=
    fun hEq hSome => hPart (Option.some.inj (hEq.symm.trans hSome))
  refine (syncPorts_keeps t (hStep t.create_issued ?_) (fun port _ => hStep (t.add_issued port) ?_)
    (fun r => hStep (t.del_issued r) ?_) ⟨h, rfl, id⟩).2
  · rw [t.create_eq]
    exact List.forall_mem_singleton.mpr (by simp [Op.part])
  · rw [t.add_eq]
    exact fun op hOp => hOther (part_hangOps hOp)
  · rw [t.del_eq]
    exact fun op hOp => hOther (part_unhangOps hOp)

/-- Every port is one that was there or an expected one. -/
theorem syncPorts_vals_subset (h : Managed st) :
    ∀ r ∈ ((syncPorts t env expPorts st).1.parts t.part).vals,
      r ∈ (st.parts t.part).vals ∨ ∃ port ∈ expPorts, r = t.row port := by
  refine (syncPorts_keeps t (P := fun st' => Managed st' ∧ ∀ r ∈ (st'.parts t.part).vals,
    r ∈ (st.parts t.part).vals ∨ ∃ port ∈ expPorts, r = t.row port) ?_ ?_ ?_
    ⟨h, fun r hr => Or.inl hr⟩).2
  · intro st' hSt
    obtain ⟨hManaged, -, hParts⟩ := t.exec_create hSt.1
    refine ⟨hManaged, ?_⟩
    rw [hParts]
    exact hSt.2
  · intro port hPort st' hSt
    refine ⟨hSt.1.exec (t.add_issued port), fun r hr => ?_⟩
    rw [t.add_eq] at hr
    rcases Store.exec_hangOps_vals_subset (by simp) r hr with hr | hr
    · exact hSt.2 r hr
    · refine Or.inr ⟨port, hPort, ?_⟩
      simpa using hr
  · intro r st' hSt
    refine ⟨hSt.1.exec (t.del_issued r), fun r' hr' => ?_⟩
    rw [t.exec_del hSt.1, Store.unhang_parts_same] at hr'
    exact hSt.2 r' (Table.vals_delete_subset _ _ hr')

/-- Unless making the switch fails, it exists afterwards. -/
theorem syncPorts_ready (hChecked : env.checked = true) (hCreated : env.created ≠ .failed)
    (h : Managed st) : t.Ready (syncPorts t env expPorts st).1 := by
  have hMade : t.Ready (if t.Ready st ∨ env.created = .failed then st else st.exec t.create) := by
    split
    · rename_i hCase
      exact hCase.resolve_right hCreated
    · exact (t.exec_create h).2.1
  rw [syncPorts, if_pos hChecked]
  dsimp only
  split
  · exact performAll_keeps (P := t.Ready) (fun _ _ _ hSt => Store.exec_hasHolder hSt) 0 hMade
  · exact hMade

/-- Without failures the switch exists, and its ports have the expected names. -/
theorem syncPorts_exact (hEnv : env.Reliable) (h : Managed st)
    (hExp : (expPorts.map t.name).Nodup) :
    t.Ready (syncPorts t env expPorts st).1 ∧
      (((syncPorts t env expPorts st).1.parts t.part).vals.map t.rowName).Perm
        (expPorts.map t.name) := by
  obtain ⟨hChecked, hCreated, hCalls⟩ := hEnv
  set made := if t.Ready st ∨ env.created = .failed then st else st.exec t.create with hMade
  have hStart : Managed made ∧ t.Ready made := by
    rw [hMade]
    split
    · rename_i hCase
      exact ⟨h, hCase.resolve_right (by simp [hCreated])⟩
    · exact ⟨(t.exec_create h).1, (t.exec_create h).2.1⟩
  set lports := (env.calls.ords 1).walk (made.parts t.part).rows with hPorts
  have hJoin := hashJoin_reconciles (env.calls.ords 3) expPorts lports t.name (t.rowName ∘ Row.val)
  set joined := hashJoin (env.calls.ords 3) expPorts lports t.name (t.rowName ∘ Row.val)
  have hRun : (syncPorts t env expPorts st).1 = performAll env.calls 0
      (joined.lonelyLefts.map t.add ++ joined.lonelyRights.map t.del) made := by
    rw [syncPorts, if_pos hChecked]
    dsimp only
    rw [if_pos ⟨Or.inr hCreated, hCalls.1⟩]
  have hNames : ((made.parts t.part).vals.map t.rowName ++
      joined.lonelyLefts.map t.name).Nodup := by
    rw [List.nodup_append']
    refine ⟨t.nodup_names hStart.1, hJoin.lonelyLefts_keys_nodup, fun name hOld hNew => ?_⟩
    obtain ⟨port, hPort, rfl⟩ := List.mem_map.mp hNew
    rw [Table.vals, List.map_map] at hOld
    obtain ⟨r, hr, hEq⟩ := List.mem_map.mp hOld
    exact hJoin.unmatched port hPort r ((env.calls.ords 1).mem_walk.mpr hr) hEq.symm
  obtain ⟨hAdd, hManaged⟩ := t.foldl_add hStart.1 hStart.2 hNames
  have hAfter : (syncPorts t env expPorts st).1 =
      (made.hangAll t.part t.owner (joined.lonelyLefts.map t.row)).unhangAll t.part t.owner
        (joined.lonelyRights.map Row.uuid) := by
    rw [hRun, performAll_reliable hCalls, List.foldl_append, t.foldl_del hManaged, hAdd]
  constructor
  · exact syncPorts_ready t hChecked (by simp [hCreated]) h
  · rw [hAfter]
    have hVals := (made.parts t.part).vals_insert_delete_perm (joined.lonelyLefts.map t.row)
      (hJoin.rights.trans ((env.calls.ords 1).perm _))
    rw [Table.foldl_delete] at hVals
    rw [Store.unhangAll_parts_same, Store.hangAll_parts_same]
    refine (hVals.map t.rowName).trans ?_
    have hNew : (joined.lonelyLefts.map t.row).map t.rowName = joined.lonelyLefts.map t.name := by
      rw [List.map_map]
      exact List.map_congr_left (fun port _ => t.name_eq port)
    rw [List.map_append, hNew, List.map_map]
    exact hJoin.keys_perm hExp

/-- Ports with the expected names are left alone. -/
theorem syncPorts_quiet (env : PortEnv) (hReady : t.Ready st)
    (hExp : (expPorts.map t.name).Nodup)
    (h : ((st.parts t.part).vals.map t.rowName).Perm (expPorts.map t.name)) :
    syncPorts t env expPorts st = (st, []) := by
  have hJoin := hashJoin_reconciles (env.calls.ords 3) expPorts
    ((env.calls.ords 1).walk (st.parts t.part).rows) t.name (t.rowName ∘ Row.val)
  have hKeys : (((env.calls.ords 1).walk (st.parts t.part).rows).map (t.rowName ∘ Row.val)).Perm
      (expPorts.map t.name) := by
    rw [← List.map_map]
    exact (((env.calls.ords 1).perm _).map Row.val |>.map t.rowName).trans h
  obtain ⟨hLefts, hRights⟩ := hJoin.lonely_eq_nil (hKeys.nodup_iff.mpr hExp)
    (fun k => hKeys.mem_iff)
  rw [syncPorts]
  simp only [hReady, true_or, if_true, true_and, hLefts, hRights]
  split
  · split <;> rfl
  · rfl

end Ports

section Functions

variable {nameIndex : Bool}

def loadBalancerSwitchPort : String := "loadBalancerSwitchPort"

def loadBalancerRouterPort : String := "loadBalancerRouterPort"

def loadBalancerMac : String := (macOf loadBalancerIP).text

def switchPorts : PortTable nameIndex SwitchPort where
  part := .switchPort
  owner := lSwitch
  name := SwitchPort.name
  row := SwitchPortRow.ofPort
  rowName := SwitchPortRow.name
  uuidName := "qlsportadd"
  create := createLogicalSwitch lSwitch
  add := createSwitchPort lSwitch
  del := deleteSwitchPort lSwitch
  owner_eq := rfl
  name_eq := fun _ => rfl
  index_eq := rfl
  create_eq := rfl
  add_eq := fun _ => rfl
  del_eq := fun _ => rfl
  create_issued := .createLogicalSwitch
  add_issued := .createSwitchPort
  del_issued := .deleteSwitchPort

def routerPorts : PortTable nameIndex RouterPort where
  part := .routerPort
  owner := loadBalancerRouter
  name := RouterPort.name
  row := RouterPortRow.ofPort
  rowName := RouterPortRow.name
  uuidName := "qlrportadd"
  create := createLogicalRouter loadBalancerRouter
  add := createRouterPort loadBalancerRouter
  del := deleteRouterPort loadBalancerRouter
  owner_eq := rfl
  name_eq := fun _ => rfl
  index_eq := rfl
  create_eq := rfl
  add_eq := fun _ => rfl
  del_eq := fun _ => rfl
  create_issued := .createLogicalRouter
  add_issued := .createRouterPort
  del_issued := .deleteRouterPort

/-- The port of the switch that leads to the load balancer router. Its addresses are
handled by `updateLoadBalancerARP`. -/
def routerSwitchPort : SwitchPort where
  name := loadBalancerSwitchPort
  type := "router"
  addresses := []
  options := AList.singleton "router-port" loadBalancerRouterPort

/-- OVN represents network interfaces with the empty string. -/
def containerPort (dbc : Container) : Except String SwitchPort := do
  let mac ← ipStrToMac dbc.ip
  pure { name := dbc.ip, type := "", addresses := [mac ++ " " ++ dbc.ip], options := ∅ }

def updateLogicalSwitch (env : PortEnv) (containers : List Container) (st : Server nameIndex) :
    Except String (Server nameIndex × List (Transaction nameIndex)) := do
  let ports ← containers.mapM containerPort
  pure (syncPorts switchPorts env (routerSwitchPort :: ports) st)

/-- The only port of the router, with the container subnet behind it. -/
def lbRouterPort : RouterPort where
  name := loadBalancerRouterPort
  mac := loadBalancerMac
  networks := ["10.0.0.0/8"]

def updateLoadBalancerRouter (env : PortEnv) (st : Server nameIndex) :
    Server nameIndex × List (Transaction nameIndex) :=
  syncPorts routerPorts env [lbRouterPort] st

/-- What the environment decides while the addresses of the switch port are
updated. -/
structure ArpEnv where
  ords : Nat → MapOrder
  listed : Bool
  succeeds : Bool

def ArpEnv.Reliable (env : ArpEnv) : Prop := env.listed = true ∧ env.succeeds = true

/-- The MAC of the router and the addresses of the load balancers, in one string. -/
def arpAddresses (loadBalancers : List LoadBalancer) : String :=
  " ".intercalate (loadBalancerMac :: sortStrings (loadBalancers.map LoadBalancer.ip))

/-- `ListSwitchPort`: the first of the rows with the name, in any order. -/
def listSwitchPort (env : ArpEnv) (name : String) (st : Server nameIndex) :
    Option (Row SwitchPortRow) :=
  if env.listed then ((env.ords 0).walk (st.parts .switchPort).rows).find? (fun r =>
    r.val.name = name)
  else none

def updateLoadBalancerARP (env : ArpEnv) (loadBalancers : List LoadBalancer)
    (st : Server nameIndex) : Server nameIndex × List (Transaction nameIndex) :=
  match listSwitchPort env loadBalancerSwitchPort st with
  | none => (st, [])
  | some curr =>
    let addresses := (env.ords 1).walk (elements curr.val.addresses)
    let expAddresses := arpAddresses loadBalancers
    if addresses.length ≠ 1 ∨ addresses.head? ≠ some expAddresses then
      let ops := updateSwitchPortAddresses loadBalancerSwitchPort [expAddresses]
      (if env.succeeds then st.exec ops else st, [ops])
    else (st, [])

/-- Calls that a function of `Northbound` has found to be missing. -/
def issue (env : Env) (calls : List Call) (st : Server nameIndex) :
    Server nameIndex × List (Transaction nameIndex) :=
  (performAll env 0 (calls.map Call.transaction) st, calls.map Call.transaction)

/-- `updateLoadBalancerIPs` or `updateACLs`, down to the transactions. -/
def Pass.send (sha256 : String → List UInt8) (st : Server nameIndex) :
    Pass → Server nameIndex × List (Transaction nameIndex)
  | .loadBalancers env lbs hostnameToIP =>
    issue env (updateLoadBalancerIPs nameIndex env lbs hostnameToIP (tables st)).2 st
  | .acls env env' dbConns hostnameToIP =>
    let resolved := resolveConnections sha256 (env.ords 0) dbConns hostnameToIP
    let sets := issue env (syncAddressSets nameIndex env resolved.2 (tables st)).2 st
    let acls := issue env' (syncACLs nameIndex env' resolved.1 (tables sets.1)).2 sets.1
    (acls.1, sets.2 ++ acls.2)

/-- The environment of a pass, and the orders in which it selects its rows. -/
structure MasterEnv where
  ords : Nat → MapOrder
  opened : Bool
  switch : PortEnv
  router : PortEnv
  loadBalancers : Env
  arp : ArpEnv
  addressSets : Env
  acls : Env

structure MasterEnv.Reliable (env : MasterEnv) : Prop where
  opened : env.opened = true
  switch : env.switch.Reliable
  router : env.router.Reliable
  loadBalancers : env.loadBalancers.Reliable
  arp : env.arp.Reliable
  addressSets : env.addressSets.Reliable
  acls : env.acls.Reliable

/-- The rows that a pass works with. -/
structure Deployed where
  loadBalancers : List LoadBalancer
  containers : List Container
  connections : List Connection
  hostnameToIP : String → Option String

def selectDeployed (ords : Nat → MapOrder) (view : Database) : Deployed where
  loadBalancers := view.select (ords 0) .loadBalancer (fun lb => lb.ip ≠ "")
  containers := view.select (ords 1) .container (fun dbc => dbc.ip ≠ "")
  connections := view.selectAll (ords 2) .connection
  hostnameToIP := getHostnameMappings (ords 3) view

def MasterEnv.balancersPass (env : MasterEnv) (d : Deployed) : Pass :=
  .loadBalancers env.loadBalancers d.loadBalancers d.hostnameToIP

def MasterEnv.aclsPass (env : MasterEnv) (d : Deployed) : Pass :=
  .acls env.addressSets env.acls d.connections d.hostnameToIP

/-- The switch and the router, with their ports. -/
def updatePorts (env : MasterEnv) (d : Deployed) (st : Server nameIndex) :
    Except String (Server nameIndex × List (Transaction nameIndex)) := do
  let switch ← updateLogicalSwitch env.switch d.containers st
  let router := updateLoadBalancerRouter env.router switch.1
  pure (router.1, switch.2 ++ router.2)

/-- `updateLoadBalancers` and `updateACLs`. -/
def updatePolicyTables (sha256 : String → List UInt8) (env : MasterEnv) (d : Deployed)
    (st : Server nameIndex) : Server nameIndex × List (Transaction nameIndex) :=
  let lbs := (env.balancersPass d).send sha256 st
  let arp := updateLoadBalancerARP env.arp d.loadBalancers lbs.1
  let acls := (env.aclsPass d).send sha256 arp.1
  (acls.1, lbs.2 ++ arp.2 ++ acls.2)

/-- A pass that cannot connect does nothing. -/
def runMaster (sha256 : String → List UInt8) (env : MasterEnv) (view : Database)
    (st : Server nameIndex) : Except String (Server nameIndex × List (Transaction nameIndex)) :=
  let d := selectDeployed env.ords view
  if env.opened then do
    let ports ← updatePorts env d st
    let rest := updatePolicyTables sha256 env d ports.1
    pure (rest.1, ports.2 ++ rest.2)
  else pure (st, [])

end Functions

end Kelda.Network
