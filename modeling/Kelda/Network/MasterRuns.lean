import Kelda.Network.MasterSound

/-! Passes of the leader over OVN, with any calls failing, from an empty database
on. What they leave is never so far off that one pass without failures could not
repair it, with one exception: a load balancer that was made while the switch was
missing is never attached to it. -/
namespace Kelda.Network

open DB Join IPDef RefStore UuidTable

section Convergence

variable {sha256 : String → List UInt8} {nameIndex : Bool} {st : Server nameIndex}
  {view : Database}

/-- The load balancers that have an address. -/
def balanced (view : Database) : List LoadBalancer :=
  (view.rows .loadBalancer).filter (fun lb => lb.ip ≠ "")

theorem selectDeployed_loadBalancers (ords : Nat → MapOrder) :
    (selectDeployed ords view).loadBalancers.Perm (balanced view) :=
  ((ords 0).perm _).filter _

/-- The tables of OVN are what the database of the leader asks for. -/
structure OvnConverged (sha256 : String → List UInt8) (view : Database) (st : Server nameIndex) :
    Prop where
  switch : st.HasHolder .logicalSwitch lSwitch
  router : st.HasHolder .logicalRouter loadBalancerRouter
  attached : ∀ p ∈ [Part.switchPort, .routerPort, .acl], st.Hangs p
  portNames : ((st.parts .switchPort).vals.map SwitchPortRow.name).Nodup
  ports : ∀ r, r ∈ (st.parts .switchPort).vals ↔ r = routerRow {arpAddresses (balanced view)} ∨
    ∃ dbc ∈ view.rows .container, ∃ a : IPv4, dbc.ip = a.text ∧ r = portRow a
  routerPorts : (st.parts .routerPort).vals = [RouterPortRow.ofPort lbRouterPort]
  tables : ∀ ords, Converged sha256 (selectDeployed ords view).loadBalancers
    (selectDeployed ords view).connections (selectDeployed ords view).hostnameToIP (tables st)

theorem arpAddresses_perm {lbs lbs' : List LoadBalancer} (h : lbs.Perm lbs') :
    arpAddresses lbs = arpAddresses lbs' := by
  have hSorted : sortStrings (lbs.map LoadBalancer.ip) = sortStrings (lbs'.map LoadBalancer.ip) := by
    refine List.Perm.eq_of_pairwise (fun a b _ _ hab hba => le_antisymm hab hba)
      (List.pairwise_insertionSort (· ≤ ·) _) (List.pairwise_insertionSort (· ≤ ·) _) ?_
    exact (sortStrings_perm _).trans ((h.map _).trans (sortStrings_perm _).symm)
  rw [arpAddresses, arpAddresses, hSorted]

/-- With the right names, sound ports are the right ones. -/
theorem mem_ports_iff {vals : List SwitchPortRow} {addresses : List IPv4}
    (hSound : ∀ r ∈ vals, SoundPort r)
    (hNames : (vals.map SwitchPortRow.name).Perm
      ((routerSwitchPort :: addresses.map portOf).map SwitchPort.name))
    (loadBalancers : List LoadBalancer) (r : SwitchPortRow) :
    r ∈ vals.map (setArp loadBalancers) ↔
      r = routerRow {arpAddresses loadBalancers} ∨ ∃ a ∈ addresses, r = portRow a := by
  have hMem : ∀ name, name ∈ vals.map SwitchPortRow.name ↔
      name = loadBalancerSwitchPort ∨ ∃ a ∈ addresses, a.text = name := by
    intro name
    rw [hNames.mem_iff]
    simp [routerSwitchPort, portOf]
  rw [List.mem_map]
  constructor
  · rintro ⟨old, hOld, rfl⟩
    have hName := (hMem _).mp (List.mem_map_of_mem hOld)
    cases hSound old hOld with
    | router addresses => exact Or.inl (setArp_routerRow _ _)
    | container a =>
        refine Or.inr ⟨a, ?_, setArp_portRow _ a⟩
        obtain ⟨a', ha', hText⟩ := hName.resolve_left (text_ne_loadBalancerSwitchPort a)
        exact IPv4.text_inj.mp hText ▸ ha'
  · rintro (rfl | ⟨a, ha, rfl⟩)
    · obtain ⟨old, hOld, hName⟩ := List.mem_map.mp ((hMem _).mpr (Or.inl rfl))
      refine ⟨old, hOld, ?_⟩
      cases hSound old hOld with
      | router addresses => exact setArp_routerRow _ _
      | container a => exact (text_ne_loadBalancerSwitchPort a hName).elim
    · obtain ⟨old, hOld, hName⟩ := List.mem_map.mp ((hMem a.text).mpr (Or.inr ⟨a, ha, rfl⟩))
      refine ⟨old, hOld, ?_⟩
      cases hSound old hOld with
      | router addresses => exact (text_ne_loadBalancerSwitchPort a hName.symm).elim
      | container a' =>
          rw [setArp_portRow]
          exact congrArg portRow (IPv4.text_inj.mp hName)

/-- Without failures the port to the router has the right addresses, and no other
port is changed. -/
theorem updateLoadBalancerARP_exact {env : ArpEnv} (hEnv : env.Reliable) (h : Managed st)
    (hPort : loadBalancerSwitchPort ∈ (st.parts .switchPort).vals.map SwitchPortRow.name)
    (loadBalancers : List LoadBalancer) :
    ((updateLoadBalancerARP env loadBalancers st).1.parts .switchPort).vals =
      (st.parts .switchPort).vals.map (setArp loadBalancers) := by
  have hDone : ((st.exec (updateSwitchPortAddresses loadBalancerSwitchPort
      [arpAddresses loadBalancers])).parts .switchPort).vals =
        (st.parts .switchPort).vals.map (setArp loadBalancers) := by
    rw [exec_setArp loadBalancers h, Store.setParts_same, Table.vals_mapVals]
  rw [Table.vals, List.map_map] at hPort
  obtain ⟨row, hRow, hName⟩ := List.mem_map.mp hPort
  cases hFind : ((env.ords 0).walk (st.parts .switchPort).rows).find? (fun r =>
      decide (r.val.name = loadBalancerSwitchPort)) with
  | none =>
      have hNone := List.find?_eq_none.mp hFind row ((env.ords 0).mem_walk.mpr hRow)
      exact (hNone (decide_eq_true hName)).elim
  | some curr =>
      rw [updateLoadBalancerARP, listSwitchPort, if_pos hEnv.1, hFind]
      simp only [hEnv.2, if_true]
      split_ifs with hDiffer
      · exact hDone
      · rw [not_or, not_not, not_not] at hDiffer
        have hCurr := (env.ords 0).mem_walk.mp (List.mem_of_find?_eq_some hFind)
        have hCurrName : curr.val.name = loadBalancerSwitchPort := by
          simpa using List.find?_some hFind
        have hList : (env.ords 1).walk (elements curr.val.addresses) =
            [arpAddresses loadBalancers] := by
          obtain ⟨address, hOne⟩ := List.length_eq_one_iff.mp hDiffer.1
          rw [hOne] at hDiffer ⊢
          exact congrArg (fun a => [a]) (Option.some.inj hDiffer.2)
        have hAddresses : curr.val.addresses = {arpAddresses loadBalancers} := by
          rw [← toFinset_elements curr.val.addresses,
            ← List.toFinset_eq_of_perm _ _ ((env.ords 1).perm _), hList]
          rfl
        have hIndex : ((st.parts .switchPort).vals.map SwitchPortRow.name).Nodup :=
          switchPorts.nodup_names h
        refine (List.map_congr_left (fun r hr => ?_)).trans (List.map_id _) |>.symm
        rw [setArp]
        split_ifs with hOwn
        · have hSame : r = curr.val := List.inj_on_of_nodup_map hIndex hr
            (List.mem_map_of_mem hCurr) (hOwn.trans hCurrName.symm)
          rw [hSame, ← hAddresses]
          rfl
        · rfl

/-- A port with the right addresses is left alone. -/
theorem updateLoadBalancerARP_quiet (env : ArpEnv) {loadBalancers : List LoadBalancer}
    (h : ∀ r ∈ (st.parts .switchPort).vals, r.name = loadBalancerSwitchPort →
      r.addresses = {arpAddresses loadBalancers}) :
    updateLoadBalancerARP env loadBalancers st = (st, []) := by
  rw [updateLoadBalancerARP]
  split
  · rfl
  · rename_i curr hFind
    rw [listSwitchPort] at hFind
    split at hFind
    · have hRow := (env.ords 0).mem_walk.mp (List.mem_of_find?_eq_some hFind)
      have hName : curr.val.name = loadBalancerSwitchPort := by
        simpa using List.find?_some hFind
      have hAddresses := h curr.val (List.mem_map_of_mem hRow) hName
      have hList : (env.ords 1).walk (elements curr.val.addresses) =
          [arpAddresses loadBalancers] := by
        rw [hAddresses]
        refine List.perm_singleton.mp (((env.ords 1).perm _).trans ?_)
        simp [elements]
      rw [hList]
      simp
    · cases hFind

/-- The names that a deployment has to give to tell its rows apart. -/
structure DistinctNames (view : Database) : Prop where
  hostnames : ((view.rows .hostname).map Hostname.hostname).Nodup
  loadBalancers : ((view.rows .loadBalancer).map LoadBalancer.name).Nodup

theorem getHostnameMappings_ord (h : DistinctNames view) (ord ord' : MapOrder) :
    getHostnameMappings ord view = getHostnameMappings ord' view := by
  funext name
  refine Option.ext (fun ip => ?_)
  rw [mapping_eq_some_iff h.hostnames, mapping_eq_some_iff h.hostnames]

theorem distinctLoadBalancers_select (hView : Addressed view) (h : DistinctNames view)
    (ords : Nat → MapOrder) :
    DistinctLoadBalancers (selectDeployed ords view).loadBalancers := by
  constructor
  · rw [((selectDeployed_loadBalancers ords).map _).nodup_iff]
    exact h.loadBalancers.sublist (List.filter_sublist.map _)
  · rw [((selectDeployed_loadBalancers ords).map _).nodup_iff]
    have hDistinct := hView.unique.distinct
    rw [assignedIPs, List.filter_append] at hDistinct
    have hIPs := (List.nodup_append'.mp hDistinct).2.1
    rwa [List.filter_map] at hIPs

/-- The names of the ports that a pass expects. -/
theorem nodup_expectedPorts (hView : Addressed view) {ords : Nat → MapOrder}
    {addresses : List IPv4} (h : (selectDeployed ords view).containers.map Container.ip =
      addresses.map IPv4.text) :
    ((routerSwitchPort :: addresses.map portOf).map SwitchPort.name).Nodup := by
  have hTexts : (addresses.map portOf).map SwitchPort.name = addresses.map IPv4.text := by
    rw [List.map_map]
    rfl
  rw [List.map_cons, hTexts, List.nodup_cons]
  constructor
  · intro hMem
    obtain ⟨a, -, hText⟩ := List.mem_map.mp hMem
    exact text_ne_loadBalancerSwitchPort a hText
  · have hDistinct := hView.unique.distinct
    rw [assignedIPs, List.filter_append] at hDistinct
    have hIPs := (List.nodup_append'.mp hDistinct).1
    rw [List.filter_map] at hIPs
    rw [← h]
    exact ((((ords 1).perm _).filter _).map _).nodup_iff.mpr hIPs

theorem mem_addresses_iff {ords : Nat → MapOrder} {addresses : List IPv4}
    (h : (selectDeployed ords view).containers.map Container.ip = addresses.map IPv4.text)
    (a : IPv4) : a ∈ addresses ↔ ∃ dbc ∈ view.rows .container, dbc.ip = a.text := by
  have hText : a ∈ addresses ↔ a.text ∈ addresses.map IPv4.text :=
    (List.mem_map_of_injective (fun _ _ hEq => IPv4.text_inj.mp hEq)).symm
  rw [hText, ← h, List.mem_map]
  constructor
  · rintro ⟨dbc, hRow, hEq⟩
    exact ⟨dbc, (view.mem_select.mp hRow).1, hEq⟩
  · rintro ⟨dbc, hRow, hEq⟩
    refine ⟨dbc, view.mem_select.mpr ⟨hRow, ?_⟩, hEq⟩
    refine decide_eq_true (fun hEmpty => ?_)
    have hParse := IPv4.parse_text a
    rw [← hEq, hEmpty] at hParse
    cases hParse

/-- After the switch exists, the tables are as `updateTables` leaves them. -/
theorem tables_pass (sha256 : String → List UInt8) (env : MasterEnv) (d : Deployed)
    (h : Managed st) (hSwitch : st.HasHolder .logicalSwitch lSwitch) :
    tables (updatePolicyTables sha256 env d st).1 =
      (updateTables sha256 nameIndex ⟨env.loadBalancers, env.addressSets, env.acls⟩
        d.loadBalancers d.connections d.hostnameToIP (tables st)).1 := by
  have hLbs : Managed ((env.balancersPass d).send sha256 st).1 := h.send _
  rw [updatePolicyTables, tables_send (hLbs.updateARP _ _)
    (arp_hasHolder _ _ (send_hasHolder hSwitch _)), tables_arp _ _ hLbs, tables_send h hSwitch]
  rfl

/-- The rows of a pass, in the order in which they are stored. -/
theorem Converged.select {ords : Nat → MapOrder} {db : Northbound} (hView : Addressed view)
    (hNames : DistinctNames view)
    (hTexts : Set.InjOn sha256
      (hashedTexts (getHostnameMappings .stored view) (view.rows .connection)))
    (h : Converged sha256 (selectDeployed ords view).loadBalancers
      (selectDeployed ords view).connections (selectDeployed ords view).hostnameToIP db)
    (ords' : Nat → MapOrder) :
    Converged sha256 (selectDeployed ords' view).loadBalancers
      (selectDeployed ords' view).connections (selectDeployed ords' view).hostnameToIP db := by
  have hHosts : ∀ ords : Nat → MapOrder, (selectDeployed ords view).hostnameToIP =
      getHostnameMappings .stored view := fun ords => getHostnameMappings_ord hNames _ _
  have hConns : ∀ ords : Nat → MapOrder,
      (selectDeployed ords view).connections.Perm (view.rows .connection) :=
    fun ords => view.selectAll_perm _ .connection
  rw [hHosts] at h ⊢
  refine h.of_perm (hView.keldaHosts _) (hView.injectiveHosts _) ?_
    ((selectDeployed_loadBalancers ords).trans (selectDeployed_loadBalancers ords').symm)
    ((hConns ords).trans (hConns ords').symm)
  rintro text ⟨members, hMem, rfl⟩ text' ⟨members', hMem', rfl⟩ hEq
  have hRows := mem_endpointsOf_congr (getHostnameMappings .stored view)
    (fun c => (hConns ords).mem_iff (a := c))
  exact hTexts ⟨members, (hRows _).mp hMem, rfl⟩ ⟨members', (hRows _).mp hMem', rfl⟩ hEq

/-- What the second half of a pass leaves of the ports. -/
structure PolicyFrame (env : MasterEnv) (loadBalancers : List LoadBalancer)
    (before after : Server nameIndex) : Prop where
  managed : Managed after
  holders : ∀ {hd : Holder} {name : String}, before.HasHolder hd name → after.HasHolder hd name
  routerPorts : (after.parts .routerPort).vals = (before.parts .routerPort).vals
  arp : env.arp.Reliable →
    loadBalancerSwitchPort ∈ (before.parts .switchPort).vals.map SwitchPortRow.name →
      (after.parts .switchPort).vals =
        (before.parts .switchPort).vals.map (setArp loadBalancers)

theorem policyTables_frame (sha256 : String → List UInt8) (env : MasterEnv) (d : Deployed)
    (h : Managed st) :
    PolicyFrame env d.loadBalancers st (updatePolicyTables sha256 env d st).1 := by
  have hLbs : Managed ((env.balancersPass d).send sha256 st).1 := h.send _
  have hArp := hLbs.updateARP env.arp d.loadBalancers
  have hBefore : ∀ {p : Part}, (∀ call : Call, call.part ≠ p) →
      ((env.balancersPass d).send sha256 st).1.parts p = st.parts p :=
    fun hPart => send_parts h hPart _
  have hBehind : ∀ {p : Part}, (∀ call : Call, call.part ≠ p) →
      (updatePolicyTables sha256 env d st).1.parts p = (updateLoadBalancerARP env.arp
        d.loadBalancers ((env.balancersPass d).send sha256 st).1).1.parts p :=
    fun hPart => send_parts hArp hPart _
  constructor
  · exact hArp.send _
  · exact fun hHas => send_hasHolder (arp_hasHolder _ _ (send_hasHolder hHas _)) _
  · rw [hBehind part_ne_routerPort, arp_parts_ne _ _ hLbs (by decide), hBefore part_ne_routerPort]
  · intro hEnv hPort
    rw [← hBefore part_ne_switchPort] at hPort ⊢
    rw [hBehind part_ne_switchPort]
    exact updateLoadBalancerARP_exact hEnv hLbs hPort _

/-- The switch, the router and their ports after a pass without failures. -/
structure PortsExact (addresses : List IPv4) (st : Server nameIndex) : Prop where
  switch : st.HasHolder .logicalSwitch lSwitch
  router : st.HasHolder .logicalRouter loadBalancerRouter
  ports : ((st.parts .switchPort).vals.map SwitchPortRow.name).Perm
    ((routerSwitchPort :: addresses.map portOf).map SwitchPort.name)
  routerPorts : (st.parts .routerPort).vals = [RouterPortRow.ofPort lbRouterPort]

theorem afterPorts_exact (h : OvnSound sha256 st) {env : MasterEnv} (hEnv : env.Reliable)
    {addresses : List IPv4}
    (hExp : ((routerSwitchPort :: addresses.map portOf).map SwitchPort.name).Nodup) :
    PortsExact addresses (afterPorts env addresses st) := by
  have hSound := h.updateSwitch env.switch addresses
  obtain ⟨hSwitch, hPorts⟩ := syncPorts_exact switchPorts hEnv.switch h.managed hExp
  have hNames : ([lbRouterPort].map RouterPort.name).Nodup := by simp
  obtain ⟨hRouter, hRouterPorts⟩ := syncPorts_exact routerPorts hEnv.router hSound.managed hNames
  refine ⟨syncPorts_hasHolder _ hSwitch, hRouter, ?_, ?_⟩
  · rw [afterPorts, routerPorts_parts_ne env.router hSound.managed (by decide)]
    exact hPorts
  · obtain ⟨row, hRow, -⟩ := List.map_eq_singleton_iff.mp (List.perm_singleton.mp hRouterPorts)
    have hEq := (hSound.updateRouter env.router).routerPorts row
      (by rw [updateLoadBalancerRouter]; exact hRow ▸ List.mem_singleton_self row)
    rw [← hEq]
    exact hRow

/-- From any sound database, a pass without failures makes every table exact. -/
theorem runMaster_converged (h : OvnSound sha256 st) {env : MasterEnv} (hEnv : env.Reliable)
    (hView : Addressed view) (hNames : DistinctNames view)
    (hTexts : Set.InjOn sha256
      (hashedTexts (getHostnameMappings .stored view) (view.rows .connection))) :
    ∃ st' calls, runMaster sha256 env view st = .ok (st', calls) ∧
      OvnConverged sha256 view st' := by
  obtain ⟨addresses, calls, hContainers, hRun⟩ := runMaster_opened hEnv.opened hView st
  have hPorts := afterPorts_exact h hEnv (nodup_expectedPorts hView hContainers)
  have hSound := h.ports_step env addresses
  set mid := afterPorts env addresses st
  set d := selectDeployed env.ords view
  have hAfter := policyTables_frame sha256 env d hSound.managed
  have hConverged : Converged sha256 d.loadBalancers d.connections d.hostnameToIP
      (tables (updatePolicyTables sha256 env d mid).1) := by
    have hEnvs : (⟨env.loadBalancers, env.addressSets, env.acls⟩ : Envs).Reliable :=
      ⟨hEnv.loadBalancers, hEnv.addressSets, hEnv.acls⟩
    rw [tables_pass sha256 env d hSound.managed hPorts.switch]
    exact updateTables_converged nameIndex d.connections hEnvs hSound.tables (hView.keldaHosts _)
      (hView.injectiveHosts _) (distinctLoadBalancers_select hView hNames env.ords)
  have hArp := hAfter.arp hEnv.arp (hPorts.ports.mem_iff.mpr List.mem_cons_self)
  refine ⟨_, calls, hRun, hAfter.holders hPorts.switch, hAfter.holders hPorts.router, ?_,
    switchPorts.nodup_names hAfter.managed, fun r => ?_, hAfter.routerPorts.trans hPorts.routerPorts,
    Converged.select hView hNames hTexts hConverged⟩
  · intro p hp
    refine hAfter.managed.sound.collected p ?_
    fin_cases hp <;> rfl
  · rw [hArp, mem_ports_iff hSound.ports hPorts.ports,
      arpAddresses_perm (selectDeployed_loadBalancers env.ords)]
    simp only [mem_addresses_iff hContainers]
    constructor
    · rintro (hRouter | ⟨a, ⟨dbc, hRow, hIP⟩, hEq⟩)
      · exact Or.inl hRouter
      · exact Or.inr ⟨dbc, hRow, a, hIP, hEq⟩
    · rintro (hRouter | ⟨dbc, hRow, a, hIP, hEq⟩)
      · exact Or.inl hRouter
      · exact Or.inr ⟨a, ⟨dbc, hRow, hIP⟩, hEq⟩

theorem OvnConverged.portNames_perm (h : OvnConverged sha256 view st) (hView : Addressed view)
    {ords : Nat → MapOrder} {addresses : List IPv4}
    (hContainers : (selectDeployed ords view).containers.map Container.ip =
      addresses.map IPv4.text) :
    ((st.parts .switchPort).vals.map SwitchPortRow.name).Perm
      ((routerSwitchPort :: addresses.map portOf).map SwitchPort.name) := by
  refine (List.perm_ext_iff_of_nodup h.portNames (nodup_expectedPorts hView hContainers)).mpr
    (fun name => ?_)
  have hExpected : name ∈ (routerSwitchPort :: addresses.map portOf).map SwitchPort.name ↔
      name = loadBalancerSwitchPort ∨ ∃ a ∈ addresses, a.text = name := by
    simp [routerSwitchPort, portOf]
  rw [hExpected, List.mem_map]
  simp only [mem_addresses_iff hContainers, h.ports]
  constructor
  · rintro ⟨r, rfl | ⟨dbc, hRow, a, hIP, rfl⟩, rfl⟩
    · exact Or.inl rfl
    · exact Or.inr ⟨a, ⟨dbc, hRow, hIP⟩, rfl⟩
  · rintro (rfl | ⟨a, ⟨dbc, hRow, hIP⟩, rfl⟩)
    · exact ⟨_, Or.inl rfl, rfl⟩
    · exact ⟨portRow a, Or.inr ⟨dbc, hRow, a, hIP, rfl⟩, rfl⟩

theorem OvnConverged.arp (h : OvnConverged sha256 view st) (ords : Nat → MapOrder) :
    ∀ r ∈ (st.parts .switchPort).vals, r.name = loadBalancerSwitchPort →
      r.addresses = {arpAddresses (selectDeployed ords view).loadBalancers} := by
  intro r hr hName
  rw [arpAddresses_perm (selectDeployed_loadBalancers ords)]
  rcases (h.ports r).mp hr with rfl | ⟨dbc, -, a, -, rfl⟩
  · rfl
  · exact (text_ne_loadBalancerSwitchPort a hName).elim

/-- A pass over exact tables issues no transaction, whatever its environment. -/
theorem OvnConverged.quiet (h : OvnConverged sha256 view st) (hView : Addressed view)
    (hNames : DistinctNames view) (env : MasterEnv) :
    runMaster sha256 env view st = .ok (st, []) := by
  obtain ⟨addresses, hContainers⟩ := hView.exists_addresses env.ords
  have hSwitch : syncPorts switchPorts env.switch (routerSwitchPort :: addresses.map portOf) st =
      (st, []) := syncPorts_quiet switchPorts env.switch h.switch
    (nodup_expectedPorts hView hContainers) (h.portNames_perm hView hContainers)
  have hRouter : updateLoadBalancerRouter env.router st = (st, []) := by
    refine syncPorts_quiet Network.routerPorts env.router h.router (by simp) (List.Perm.of_eq ?_)
    exact congrArg (List.map RouterPortRow.name) h.routerPorts
  have hTables := h.tables env.ords
  set d := selectDeployed env.ords view
  have hHosts : KeldaHosts d.hostnameToIP := hView.keldaHosts _
  have hInj : InjectiveHosts d.hostnameToIP := hView.injectiveHosts _
  have hLbs : (env.balancersPass d).send sha256 st = (st, []) :=
    hTables.send_balancers hHosts (distinctLoadBalancers_select hView hNames env.ords) _
  have hArp := updateLoadBalancerARP_quiet env.arp (h.arp env.ords)
  have hACLs : (env.aclsPass d).send sha256 st = (st, []) := hTables.send_acls hHosts hInj _ _
  have hPorts : updatePorts env d st = .ok (st, []) := by
    rw [updatePorts_eq env st hContainers, afterPorts, hSwitch, hRouter]
    rfl
  rw [runMaster]
  split
  · rw [hPorts]
    change Except.ok ((updatePolicyTables sha256 env d st).1,
      [] ++ (updatePolicyTables sha256 env d st).2) = _
    rw [updatePolicyTables, hLbs, hArp, hACLs]
    rfl
  · rfl

end Convergence

section Runs

variable {sha256 : String → List UInt8} {nameIndex : Bool} {st st' : Server nameIndex}
  {view : Database}

/-- Passes one after another, each over the database as it is then. -/
def runMasters (sha256 : String → List UInt8) (passes : List (MasterEnv × Database))
    (st : Server nameIndex) : Except String (Server nameIndex) :=
  passes.foldlM (fun st pass => do
    let after ← runMaster sha256 pass.1 pass.2 st
    pure after.1) st

/-- What every pass keeps is kept by a run. -/
theorem runMasters_keeps {P : Server nameIndex → Prop} {passes : List (MasterEnv × Database)}
    (hStep : ∀ pass ∈ passes, ∀ st, P st →
      ∃ st' calls, runMaster sha256 pass.1 pass.2 st = .ok (st', calls) ∧ P st') (h : P st) :
    ∃ st', runMasters sha256 passes st = .ok st' ∧ P st' := by
  induction passes generalizing st with
  | nil => exact ⟨st, rfl, h⟩
  | cons pass passes ih =>
      obtain ⟨next, calls, hRun, hNext⟩ := hStep pass List.mem_cons_self st h
      obtain ⟨last, hRest, hLast⟩ := ih (fun pass' hMem => hStep pass' (List.mem_cons_of_mem _ hMem))
        hNext
      refine ⟨last, ?_, hLast⟩
      rw [runMasters, List.foldlM_cons, hRun]
      exact hRest

theorem OvnSound.runs (h : OvnSound sha256 st) (hSha : nameIndex = true ∨ Function.Injective sha256)
    {passes : List (MasterEnv × Database)} (hPasses : ∀ pass ∈ passes, Addressed pass.2) :
    ∃ st', runMasters sha256 passes st = .ok st' ∧ OvnSound sha256 st' :=
  runMasters_keeps (fun pass hPass _ hSt => hSt.step pass.1 hSha (hPasses pass hPass)) h

/-- In this pass, making the switch does not fail. -/
def MasterEnv.MakesSwitch (env : MasterEnv) : Prop :=
  env.switch.checked = true ∧ env.switch.created ≠ .failed

/-- What the transactions of the second half keep is kept by it. -/
theorem policyTables_keeps {P : Server nameIndex → Prop}
    (hIssued : ∀ ops, Issued ops → ∀ st, P st → P (st.exec ops)) (env : MasterEnv) (d : Deployed)
    (h : P st) : P (updatePolicyTables sha256 env d st).1 := by
  have hSend : ∀ (pass : Pass) {st}, P st → P (pass.send sha256 st).1 :=
    fun pass => send_keeps sha256 (fun call => hIssued _ (.call call)) pass
  have hLbs := hSend (env.balancersPass d) h
  exact hSend _ (arp_keeps (hIssued _ (.updateSwitchPortAddresses _ _) _ hLbs) hLbs)

/-- While the switch exists, load balancers are attached to it. -/
theorem policyTables_hangs (env : MasterEnv) (d : Deployed) (h : Managed st)
    (hSwitch : st.HasHolder .logicalSwitch lSwitch) (hHangs : st.Hangs .loadBalancer) :
    (updatePolicyTables sha256 env d st).1.Hangs .loadBalancer := by
  refine (policyTables_keeps (P := fun st => Managed st ∧ st.HasHolder .logicalSwitch lSwitch ∧
    st.Hangs .loadBalancer) ?_ env d ⟨h, hSwitch, hHangs⟩).2.2
  intro ops hOps st ⟨hManaged, hHas, hAll⟩
  exact ⟨hManaged.exec hOps, Store.exec_hasHolder hHas, hOps.hangs hManaged hHas hAll⟩

theorem runMaster_hangs {env : MasterEnv} (hSwitch : env.MakesSwitch) (hView : Addressed view)
    (h : Managed st) (hHangs : st.Hangs .loadBalancer) {calls : List (Transaction nameIndex)}
    (hRun : runMaster sha256 env view st = .ok (st', calls)) : st'.Hangs .loadBalancer := by
  by_cases hOpened : env.opened = true
  · obtain ⟨addresses, calls', -, hRun'⟩ := runMaster_opened hOpened hView st
    cases hRun.symm.trans hRun'
    have hManaged : Managed (syncPorts switchPorts env.switch
      (routerSwitchPort :: addresses.map portOf) st).1 := h.syncPorts _
    have hReady : (syncPorts switchPorts env.switch
        (routerSwitchPort :: addresses.map portOf) st).1.HasHolder .logicalSwitch lSwitch :=
      syncPorts_ready switchPorts hSwitch.1 hSwitch.2 h
    refine policyTables_hangs env _ (hManaged.syncPorts _) (syncPorts_hasHolder _ hReady) ?_
    exact (syncPorts_frame routerPorts (by simp [routerPorts]) hManaged).2
      ((syncPorts_frame switchPorts (by simp [switchPorts]) h).2 hHangs)
  · rw [runMaster, if_neg hOpened] at hRun
    cases hRun
    exact hHangs

/-- Whatever passes went before, with whatever calls failing, one pass without
failures makes the switch, the router and every table exact, and the next one sends
nothing. Load balancers are attached to the switch, too, if it was never missing
when they were made. -/
theorem runMaster_converges (hSha : nameIndex = true ∨ Function.Injective sha256)
    {passes : List (MasterEnv × Database)} (hPasses : ∀ pass ∈ passes, Addressed pass.2)
    (hView : Addressed view) (hNames : DistinctNames view)
    (hTexts : Set.InjOn sha256
      (hashedTexts (getHostnameMappings .stored view) (view.rows .connection)))
    {env : MasterEnv} (hEnv : env.Reliable) :
    ∃ st, runMasters sha256 passes (Server.empty nameIndex) = .ok st ∧
      ∃ st' calls, runMaster sha256 env view st = .ok (st', calls) ∧
        OvnConverged sha256 view st' ∧
        ((∀ pass ∈ passes, pass.1.MakesSwitch) → st'.Hangs .loadBalancer) ∧
        ∀ env', runMaster sha256 env' view st' = .ok (st', []) := by
  have hStart : OvnSound sha256 (Server.empty nameIndex) ∧
      ((∀ pass ∈ passes, pass.1.MakesSwitch) → (Server.empty nameIndex).Hangs .loadBalancer) :=
    ⟨ovnSound_empty, fun _ r hr => by simp [Server.empty, Table.empty] at hr⟩
  obtain ⟨st, hRuns, hSound, hHangs⟩ := runMasters_keeps (P := fun st => OvnSound sha256 st ∧
      ((∀ pass ∈ passes, pass.1.MakesSwitch) → st.Hangs .loadBalancer)) (by
    intro pass hPass st hSt
    obtain ⟨next, calls, hRun, hNext⟩ := hSt.1.step pass.1 hSha (hPasses pass hPass)
    exact ⟨next, calls, hRun, hNext, fun hSwitch => runMaster_hangs (hSwitch pass hPass)
      (hPasses pass hPass) hSt.1.managed (hSt.2 hSwitch) hRun⟩) hStart
  obtain ⟨st', calls, hRun, hConverged⟩ := runMaster_converged hSound hEnv hView hNames hTexts
  have hMakes : env.MakesSwitch := ⟨hEnv.switch.1, by simp [hEnv.switch.2.1]⟩
  exact ⟨st, hRuns, st', calls, hRun, hConverged,
    fun hSwitch => runMaster_hangs hMakes hView hSound.managed (hHangs hSwitch) hRun,
    hConverged.quiet hView hNames⟩

/-- A web server behind a load balancer that uses a database. -/
def shopBlueprint : Blueprint where
  containers := [⟨"1a", ⟨"nginx", ""⟩, [], ∅, ∅, "web", false, []⟩,
    ⟨"2b", ⟨"postgres", ""⟩, [], ∅, ∅, "db", false, []⟩]
  loadBalancers := [⟨"lb", ["web"]⟩]
  connections := [⟨["web"], ["db"], 5432, 5433⟩, ⟨["db"], ["lb"], 80, 80⟩]
  placements := []
  machines := []

/-- A leader that has brought the blueprint into its tables. -/
def shopView : Database where
  rows
    | .blueprint => [⟨1, shopBlueprint⟩]
    | .etcd => [{ id := 2, leader := true }]
    | .container => [
        { id := 3, blueprintID := "2b", image := "postgres", hostname := "db", ip := "10.1.0.4" },
        { id := 4, blueprintID := "1a", image := "nginx", hostname := "web", ip := "10.0.0.7" }]
    | .loadBalancer => [{ id := 5, name := "lb", hostnames := ["web"], ip := "10.0.0.8" }]
    | .connection => [
        { id := 6, fromHosts := ["web"], toHosts := ["db"], minPort := 5432, maxPort := 5433 },
        { id := 7, fromHosts := ["db"], toHosts := ["lb"], minPort := 80, maxPort := 80 },
        { id := 8, fromHosts := ["db"], toHosts := ["web"], minPort := 80, maxPort := 80 }]
    | .hostname => [{ id := 9, hostname := "web", ip := "10.0.0.7" },
        { id := 10, hostname := "lb", ip := "10.0.0.8" },
        { id := 11, hostname := "db", ip := "10.1.0.4" }]
    | _ => []
  shouldAlert := fun _ => false
  curID := 11
  nodup := fun tt => by cases tt <;> decide
  bounded := fun tt => by cases tt <;> decide

theorem addressed_shopView : Addressed shopView := by
  have hKelda : ∀ ip ∈ ["10.1.0.4", "10.0.0.7", "10.0.0.8"], ip ∈ keldaAddresses := by
    intro ip hip
    simp only [List.mem_cons, List.not_mem_nil, or_false] at hip
    rcases hip with rfl | rfl | rfl
    · exact mem_keldaAddresses.mpr ⟨⟨10, 1, 0, 4⟩, rfl, by decide⟩
    · exact mem_keldaAddresses.mpr ⟨⟨10, 0, 0, 7⟩, rfl, by decide⟩
    · exact mem_keldaAddresses.mpr ⟨⟨10, 0, 0, 8⟩, rfl, by decide⟩
  have hRows : ∀ r ∈ shopView.rows .hostname, r.ip ∈ ["10.1.0.4", "10.0.0.7", "10.0.0.8"] := by
    decide
  exact ⟨⟨by decide, by decide⟩, hKelda, ⟨by decide, fun r hr => hKelda _ (hRows r hr)⟩⟩

theorem addressed_shopPasses (env : MasterEnv) :
    ∀ pass ∈ [(env, shopView)], Addressed pass.2 := by
  intro pass hPass
  rw [List.mem_singleton.mp hPass]
  exact addressed_shopView

/-- A hash without collisions. -/
def textBytes (text : String) : List UInt8 := text.toByteArray.data.toList

theorem textBytes_injective : Function.Injective textBytes := by
  intro text text' h
  exact String.toByteArray_inj.mp (ByteArray.ext (Array.toList_inj.mp h))

/-- Nothing fails. -/
def steady : MasterEnv where
  ords := fun _ => .stored
  opened := true
  switch := ⟨true, .done, dependable⟩
  router := ⟨true, .done, dependable⟩
  loadBalancers := dependable
  arp := ⟨fun _ => .stored, true, true⟩
  addressSets := dependable
  acls := dependable

theorem steady_reliable : steady.Reliable := by
  have hCalls : dependable.Reliable := ⟨rfl, fun _ => rfl⟩
  exact ⟨rfl, ⟨rfl, rfl, hCalls⟩, ⟨rfl, rfl, hCalls⟩, hCalls, ⟨rfl, rfl⟩, hCalls, hCalls⟩

/-- Only making the switch fails. -/
def switchless : MasterEnv := { steady with switch := ⟨true, .failed, dependable⟩ }

theorem runMaster_converges_sample :
    ∃ st, runMasters textBytes [(switchless, shopView)] (Server.empty true) = .ok st ∧
      ∃ st' calls, runMaster textBytes steady shopView st = .ok (st', calls) ∧
        OvnConverged textBytes shopView st' ∧
        runMaster textBytes switchless shopView st' = .ok (st', []) := by
  obtain ⟨st, hRuns, st', calls, hRun, hConverged, -, hQuiet⟩ := runMaster_converges
    (Or.inl rfl) (addressed_shopPasses switchless) addressed_shopView ⟨by decide, by decide⟩
    textBytes_injective.injOn steady_reliable
  exact ⟨st, hRuns, st', calls, hRun, hConverged, hQuiet switchless⟩

/-- What every transaction of the package keeps is kept by a pass. -/
theorem runMaster_keeps {P : Server nameIndex → Prop} {env : MasterEnv}
    (hIssued : ∀ ops, Issued ops → ∀ st, P st → P (st.exec ops)) (h : P st)
    {calls : List (Transaction nameIndex)}
    (hRun : runMaster sha256 env view st = .ok (st', calls)) : P st' := by
  have hPorts : ∀ {α : Type} (t : PortTable nameIndex α) (env : PortEnv) (ports : List α) (st),
      P st → P (syncPorts t env ports st).1 := fun t env ports st hSt =>
    syncPorts_keeps t (hIssued _ t.create_issued) (fun port _ => hIssued _ (t.add_issued port))
      (fun r => hIssued _ (t.del_issued r)) hSt
  rw [runMaster] at hRun
  split at hRun
  · rw [updatePorts, updateLogicalSwitch] at hRun
    cases hContainers : (selectDeployed env.ords view).containers.mapM containerPort with
    | error err =>
        rw [hContainers] at hRun
        cases hRun
    | ok ports =>
        rw [hContainers] at hRun
        cases hRun
        exact policyTables_keeps hIssued env _ (hPorts _ _ _ _ (hPorts _ _ _ _ h))
  · cases hRun
    exact h

/-- A load balancer that was made while the switch was missing is in its table, and
no run of passes ever attaches it, whatever the passes are given. -/
theorem loose_loadBalancer_stays {passes : List (MasterEnv × Database)} {uuid : Nat}
    (h : st.Loose .loadBalancer uuid) (hRun : runMasters sha256 passes st = .ok st') :
    st'.Loose .loadBalancer uuid := by
  induction passes generalizing st with
  | nil =>
      cases hRun
      exact h
  | cons pass passes ih =>
      rw [runMasters, List.foldlM_cons] at hRun
      cases hPass : runMaster sha256 pass.1 pass.2 st with
      | error err =>
          rw [hPass] at hRun
          cases hRun
      | ok after =>
          rw [hPass] at hRun
          refine ih ?_ hRun
          exact runMaster_keeps (P := fun st => st.Loose .loadBalancer uuid)
            (fun ops hOps st hSt => hOps.loose hSt) h hPass

/-- The switch cannot be made in the first pass, and nothing fails after that. -/
theorem loose_loadBalancer_stays_sample :
    ∃ st st' : Server true,
      runMasters textBytes [(switchless, shopView)] (Server.empty true) = .ok st ∧
      (st.parts .loadBalancer).rows.map Row.uuid = [0] ∧
      runMasters textBytes [(steady, shopView), (steady, shopView)] st = .ok st' ∧
      st'.Loose .loadBalancer 0 := by
  have hFirst : (runMasters textBytes [(switchless, shopView)]
      (Server.empty true)).toOption.map (fun st => ((st.parts .loadBalancer).rows.map Row.uuid,
        (st.parts .loadBalancer).next, st.referenced .loadBalancer 0)) = some ([0], 1, false) := by
    decide +kernel
  have hEmpty : OvnSound textBytes (Server.empty true) := ovnSound_empty
  obtain ⟨st, hRun, hSt⟩ := hEmpty.runs (Or.inl rfl) (addressed_shopPasses switchless)
  have hPasses : ∀ pass ∈ [(steady, shopView), (steady, shopView)], Addressed pass.2 :=
    List.forall_mem_cons.mpr ⟨addressed_shopView, addressed_shopPasses steady⟩
  obtain ⟨st', hRun', -⟩ := hSt.runs (Or.inl rfl) hPasses
  rw [hRun] at hFirst
  obtain ⟨hRows, hRest⟩ := Prod.mk.inj (Option.some.inj hFirst)
  obtain ⟨hNext, hFree⟩ := Prod.mk.inj hRest
  refine ⟨st, st', hRun, hRows, hRun', loose_loadBalancer_stays ⟨?_, hFree⟩ hRun'⟩
  rw [hNext]
  exact Nat.zero_lt_one

end Runs

end Kelda.Network
