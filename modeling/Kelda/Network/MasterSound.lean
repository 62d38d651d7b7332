import Kelda.Network.Master

/-! What a pass of the leader over OVN leaves behind, whichever of its calls fail.
The rows that it writes are of few forms, and a name tells which. -/
namespace Kelda.Network

open DB Join IPDef RefStore UuidTable

section Orders

variable {sha256 : String → List UInt8} {hostnameToIP : String → Option String}
  {dbConns dbConns' : List Connection}

theorem sortStrings_perm (ips : List String) : (sortStrings ips).Perm ips :=
  List.perm_insertionSort (· ≤ ·) ips

variable (hostnameToIP) in
theorem mem_endpointsOf_congr (h : ∀ c, c ∈ dbConns ↔ c ∈ dbConns') (members : List String) :
    members ∈ endpointsOf hostnameToIP dbConns ↔ members ∈ endpointsOf hostnameToIP dbConns' := by
  simp only [endpointsOf, List.mem_flatMap, List.mem_filter, h]

variable (sha256 hostnameToIP) in
/-- A set is only made for an endpoint that does not have exactly one member. -/
theorem foldl_resolveConnection_length (dbConns : List Connection) (conns : List Conn)
    (addressSets : AList (fun _ : String => List String))
    (h : ∀ name addresses, addressSets.lookup name = some addresses → addresses.length ≠ 1) :
    ∀ name addresses,
      (dbConns.foldl (resolveConnection sha256 hostnameToIP) (conns, addressSets)).2.lookup name =
        some addresses → addresses.length ≠ 1 := by
  have hEndpoint : ∀ (members : List String) (addressSets : AList (fun _ : String => List String)),
      (∀ name addresses, addressSets.lookup name = some addresses → addresses.length ≠ 1) →
        ∀ name addresses, (endpointName sha256 members addressSets).2.lookup name =
          some addresses → addresses.length ≠ 1 := by
    intro members addressSets h name addresses hLookup
    by_cases hOne : members.length = 1
    · obtain ⟨member, rfl⟩ := List.length_eq_one_iff.mp hOne
      exact h name addresses hLookup
    · rw [endpointName_of_length_ne_one sha256 hOne] at hLookup
      dsimp only at hLookup
      split_ifs at hLookup with hKnown
      · exact h name addresses hLookup
      · by_cases hName : name = setName sha256 (sortStrings members)
        · rw [hName, AList.lookup_insert] at hLookup
          obtain rfl := Option.some.inj hLookup
          rwa [(sortStrings_perm members).length_eq]
        · rw [AList.lookup_insert_ne hName] at hLookup
          exact h name addresses hLookup
  induction dbConns generalizing conns addressSets with
  | nil => exact h
  | cons dbConn dbConns ih =>
      rw [List.foldl_cons]
      by_cases hResolvable : resolvable hostnameToIP dbConn = true
      · rw [resolveConnection_of_resolvable sha256 hostnameToIP hResolvable]
        exact ih _ _ (hEndpoint _ _ (hEndpoint _ _ h))
      · rw [resolveConnection_of_not_resolvable sha256 hostnameToIP hResolvable]
        exact ih _ _ h

/-- The sets that are made for the connections, whatever their order. -/
theorem mem_resolveConnections_snd (hHosts : KeldaHosts hostnameToIP)
    (hSha : Set.InjOn sha256 (hashedTexts hostnameToIP dbConns)) (ord : MapOrder)
    {set : AddressSet} : set ∈ (resolveConnections sha256 ord dbConns hostnameToIP).2 ↔
      ∃ members ∈ endpointsOf hostnameToIP dbConns, members.length ≠ 1 ∧
        set.addresses = sortStrings members ∧ set.name = setName sha256 (sortStrings members) := by
  have hSets := (foldl_resolveConnection sha256 hostnameToIP dbConns [] ∅ [] ⟨by simp, by simp⟩).2
  have hLength := foldl_resolveConnection_length sha256 hostnameToIP dbConns [] ∅ (by simp)
  rw [List.nil_append] at hSets
  have hMem : set ∈ (resolveConnections sha256 ord dbConns hostnameToIP).2 ↔
      (dbConns.foldl (resolveConnection sha256 hostnameToIP) ([], ∅)).2.lookup set.name =
        some set.addresses := by
    rw [← Option.mem_def, AList.mem_lookup_iff]
    constructor
    · intro hSet
      obtain ⟨e, he, rfl⟩ := List.mem_map.mp hSet
      exact ord.mem_walk.mp he
    · intro hEntry
      exact List.mem_map.mpr ⟨_, ord.mem_walk.mpr hEntry, rfl⟩
  rw [hMem]
  constructor
  · intro hLookup
    obtain ⟨members, hMembers, hEq, hName⟩ := hSets.entry _ _ hLookup
    refine ⟨members, hMembers, ?_, hEq, hEq ▸ hName⟩
    have hNe := hLength _ _ hLookup
    rwa [hEq, (sortStrings_perm members).length_eq] at hNe
  · rintro ⟨members, hMembers, hNe, hEq, hName⟩
    rw [hEq, hName]
    exact hSets.lookup hHosts hSha hMembers hNe

/-- The order of the rows makes no difference to what is wanted. -/
theorem Converged.of_perm {loadBalancers loadBalancers' : List LoadBalancer} {db : Northbound}
    (h : Converged sha256 loadBalancers dbConns hostnameToIP db) (hHosts : KeldaHosts hostnameToIP)
    (hInj : InjectiveHosts hostnameToIP)
    (hSha : Set.InjOn sha256 (hashedTexts hostnameToIP dbConns))
    (hLbs : loadBalancers.Perm loadBalancers') (hConns : dbConns.Perm dbConns') :
    Converged sha256 loadBalancers' dbConns' hostnameToIP db := by
  have hEndpoints := mem_endpointsOf_congr hostnameToIP (fun c => hConns.mem_iff (a := c))
  have hSha' : Set.InjOn sha256 (hashedTexts hostnameToIP dbConns') := by
    have hTexts : hashedTexts hostnameToIP dbConns' = hashedTexts hostnameToIP dbConns := by
      ext text
      simp only [hashedTexts, Set.mem_ofPred_eq, hEndpoints]
    rwa [hTexts]
  refine ⟨fun ord => ⟨(h.acls ord).1, fun acl => ?_⟩, h.names, fun ord => ?_,
    (holdsBalancers_iff hHosts).mpr
      (((holdsBalancers_iff hHosts).mp h.loadBalancers).trans (hLbs.map _))⟩
  · have hConn : ∀ conn, conn ∈ (resolveConnections sha256 ord dbConns' hostnameToIP).1 ↔
        conn ∈ (resolveConnections sha256 ord dbConns hostnameToIP).1 := by
      intro conn
      rw [resolveConnections_fst, resolveConnections_fst]
      exact ((hConns.filter _).map _).mem_iff.symm
    rw [(h.acls ord).2]
    simp only [WantedACL, hConn]
  · refine (h.addressSets ord).trans (List.Perm.map _ ?_)
    have hNodup : ∀ conns, (resolveConnections sha256 ord conns hostnameToIP).2.Nodup :=
      fun conns => (nodup_addressSets sha256 ord conns hInj).1.of_map _
    refine (List.perm_ext_iff_of_nodup (hNodup _) (hNodup _)).mpr (fun set => ?_)
    rw [mem_resolveConnections_snd hHosts hSha, mem_resolveConnections_snd hHosts hSha']
    simp only [hEndpoints]

end Orders

section Invariant

variable {sha256 : String → List UInt8} {nameIndex : Bool} {st : Server nameIndex}

/-- The switch port of the container with the address. -/
def portOf (a : IPv4) : SwitchPort where
  name := a.text
  type := ""
  addresses := [(macOf a).text ++ " " ++ a.text]
  options := ∅

def portRow (a : IPv4) : SwitchPortRow := SwitchPortRow.ofPort (portOf a)

/-- The row of the port to the router, with some addresses. -/
def routerRow (addresses : Finset String) : SwitchPortRow :=
  { SwitchPortRow.ofPort routerSwitchPort with addresses := addresses }

/-- What the leader writes into the table of switch ports. -/
inductive SoundPort : SwitchPortRow → Prop where
  | router (addresses : Finset String) : SoundPort (routerRow addresses)
  | container (a : IPv4) : SoundPort (portRow a)

/-- What holds between any two passes. -/
structure OvnSound (sha256 : String → List UInt8) (st : Server nameIndex) : Prop where
  managed : Managed st
  tables : (tables st).Sound sha256
  ports : ∀ r ∈ (st.parts .switchPort).vals, SoundPort r
  routerPorts : ∀ r ∈ (st.parts .routerPort).vals, r = RouterPortRow.ofPort lbRouterPort

theorem ovnSound_empty : OvnSound sha256 (Server.empty nameIndex) where
  managed := managed_empty
  tables := sound_empty
  ports := fun r hr => by simp [Server.empty, Table.empty, Table.vals] at hr
  routerPorts := fun r hr => by simp [Server.empty, Table.empty, Table.vals] at hr

theorem text_ne_loadBalancerSwitchPort (a : IPv4) : a.text ≠ loadBalancerSwitchPort := by
  intro h
  have hMem : 'l' ∈ a.text.toList := by
    rw [h]
    decide
  rcases IPv4.isDigit_of_mem_text hMem with hDigit | hDot
  · cases hDigit
  · cases hDot

theorem containerPort_eq {dbc : Container} {a : IPv4} (h : dbc.ip = a.text) :
    containerPort dbc = .ok (portOf a) := by
  rw [containerPort, h, ipStrToMac_text]
  rfl

/-- Every container with an address has a port. -/
theorem mapM_containerPort {containers : List Container} {addresses : List IPv4}
    (h : containers.map Container.ip = addresses.map IPv4.text) :
    containers.mapM containerPort = .ok (addresses.map portOf) := by
  induction containers generalizing addresses with
  | nil =>
      cases addresses with
      | nil => rfl
      | cons a addresses => cases h
  | cons dbc containers ih =>
      cases addresses with
      | nil => cases h
      | cons a addresses =>
          obtain ⟨hHead, hTail⟩ := List.cons.inj h
          rw [List.mapM_cons, containerPort_eq hHead, ih hTail]
          rfl

/-- The addresses of the containers, as addresses. -/
theorem Addressed.exists_addresses {view : Database} (h : Addressed view) (ords : Nat → MapOrder) :
    ∃ addresses : List IPv4,
      (selectDeployed ords view).containers.map Container.ip = addresses.map IPv4.text := by
  have hTexts : ∀ ip ∈ (selectDeployed ords view).containers.map Container.ip,
      ∃ a : IPv4, a.a = 10 ∧ ip = a.text := by
    intro ip hIP
    obtain ⟨dbc, hRow, rfl⟩ := List.mem_map.mp hIP
    obtain ⟨hRow, hSome⟩ := view.mem_select.mp hRow
    refine mem_keldaAddresses.mp (h.kelda _ (List.mem_filter.mpr ⟨?_, hSome⟩))
    exact List.mem_append_left _ (List.mem_map_of_mem hRow)
  obtain ⟨addresses, hEq, -⟩ := exists_map_text hTexts
  exact ⟨addresses, hEq⟩

variable {d : Deployed} {addresses : List IPv4}

/-- What `updatePorts` leaves where no container makes it panic. -/
def afterPorts (env : MasterEnv) (addresses : List IPv4) (st : Server nameIndex) :
    Server nameIndex :=
  (updateLoadBalancerRouter env.router (syncPorts switchPorts env.switch
    (routerSwitchPort :: addresses.map portOf) st).1).1

/-- Where all containers have addresses, both tables of ports are updated. -/
theorem updatePorts_eq (env : MasterEnv) (st : Server nameIndex)
    (hContainers : d.containers.map Container.ip = addresses.map IPv4.text) :
    updatePorts env d st = .ok (afterPorts env addresses st, (syncPorts switchPorts env.switch
      (routerSwitchPort :: addresses.map portOf) st).2 ++ (updateLoadBalancerRouter env.router
        (syncPorts switchPorts env.switch (routerSwitchPort :: addresses.map portOf) st).1).2) := by
  rw [updatePorts, updateLogicalSwitch, mapM_containerPort hContainers]
  rfl

/-- The tables of ports are not among those of `Northbound`. -/
theorem tables_of_parts {st' : Server nameIndex} {p : Part}
    (hPort : p = .switchPort ∨ p = .routerPort)
    (h : ∀ q, p ≠ q → st'.parts q = st.parts q) : tables st' = tables st := by
  have hOther : ∀ q, q ≠ .switchPort → q ≠ .routerPort → st'.parts q = st.parts q := by
    intro q hSwitch hRouter
    refine h q (fun hEq => ?_)
    rcases hPort with rfl | rfl
    · exact hSwitch hEq.symm
    · exact hRouter hEq.symm
  rw [tables, hOther .acl (by decide) (by decide), hOther .addressSet (by decide) (by decide),
    hOther .loadBalancer (by decide) (by decide)]
  rfl

/-- No other table changes with the switch ports. -/
theorem switchPorts_parts_ne (env : PortEnv) (ports : List SwitchPort) (h : Managed st) {q : Part}
    (hPart : .switchPort ≠ q) : (syncPorts switchPorts env ports st).1.parts q = st.parts q :=
  (syncPorts_frame switchPorts hPart h).1

theorem routerPorts_parts_ne (env : PortEnv) (h : Managed st) {q : Part}
    (hPart : .routerPort ≠ q) : (updateLoadBalancerRouter env st).1.parts q = st.parts q :=
  (syncPorts_frame routerPorts hPart h).1

theorem tables_switchPorts (env : PortEnv) (ports : List SwitchPort) (h : Managed st) :
    tables (syncPorts switchPorts env ports st).1 = tables st :=
  tables_of_parts (Or.inl rfl) (fun _ hPart => switchPorts_parts_ne env ports h hPart)

theorem tables_routerPorts (env : PortEnv) (h : Managed st) :
    tables (updateLoadBalancerRouter env st).1 = tables st :=
  tables_of_parts (Or.inr rfl) (fun _ hPart => routerPorts_parts_ne env h hPart)

/-- New switch ports are the one to the router and those of containers. -/
theorem OvnSound.updateSwitch (h : OvnSound sha256 st) (env : PortEnv) (addresses : List IPv4) :
    OvnSound sha256
      (syncPorts switchPorts env (routerSwitchPort :: addresses.map portOf) st).1 where
  managed := h.managed.syncPorts _
  tables := tables_switchPorts env _ h.managed ▸ h.tables
  ports := by
    intro r hr
    rcases syncPorts_vals_subset switchPorts h.managed r hr with hr | ⟨port, hPort, rfl⟩
    · exact h.ports r hr
    · rcases List.mem_cons.mp hPort with rfl | hPort
      · exact SoundPort.router ∅
      · obtain ⟨a, -, rfl⟩ := List.mem_map.mp hPort
        exact SoundPort.container a
  routerPorts := by
    rw [switchPorts_parts_ne env _ h.managed (by decide)]
    exact h.routerPorts

/-- The only router port that is made is that of the load balancers. -/
theorem OvnSound.updateRouter (h : OvnSound sha256 st) (env : PortEnv) :
    OvnSound sha256 (updateLoadBalancerRouter env st).1 where
  managed := h.managed.syncPorts _
  tables := tables_routerPorts env h.managed ▸ h.tables
  ports := by
    rw [routerPorts_parts_ne env h.managed (by decide)]
    exact h.ports
  routerPorts := by
    intro r hr
    rcases syncPorts_vals_subset Network.routerPorts h.managed r hr with hr | ⟨port, hPort, rfl⟩
    · exact h.routerPorts r hr
    · rw [List.mem_singleton.mp hPort]
      rfl

section Issue

variable {env : Env} {calls : List Call}

/-- What every call keeps is kept, whichever of them fail. -/
theorem issue_keeps {P : Server nameIndex → Prop}
    (hCall : ∀ (call : Call) st, P st → P (st.exec call.transaction)) (h : P st) :
    P (issue env calls st).1 := by
  refine performAll_keeps (fun ops hOps => ?_) 0 h
  obtain ⟨call, -, rfl⟩ := List.mem_map.mp hOps
  exact hCall call

variable (sha256) in
/-- What every transaction keeps, a pass keeps. -/
theorem send_keeps {P : Server nameIndex → Prop}
    (hCall : ∀ (call : Call) st, P st → P (st.exec call.transaction)) (pass : Pass) (h : P st) :
    P (pass.send sha256 st).1 := by
  cases pass with
  | loadBalancers => exact issue_keeps hCall h
  | acls => exact issue_keeps hCall (issue_keeps hCall h)

theorem Managed.issue (h : Managed st) : Managed (issue env calls st).1 :=
  issue_keeps (fun call _ hSt => hSt.exec (.call call)) h

theorem Managed.send (h : Managed st) (pass : Pass) : Managed (pass.send sha256 st).1 :=
  send_keeps sha256 (fun call _ hSt => hSt.exec (.call call)) pass h

theorem send_parts (h : Managed st) {p : Part} (hPart : ∀ call : Call, call.part ≠ p)
    (pass : Pass) : (pass.send sha256 st).1.parts p = st.parts p :=
  (send_keeps sha256 (P := fun st' => Managed st' ∧ st'.parts p = st.parts p) (fun call _ hSt =>
    ⟨hSt.1.exec (.call call), (hSt.1.call_parts call (hPart call)).trans hSt.2⟩) pass ⟨h, rfl⟩).2

theorem issue_hasHolder {hd : Holder} {name : String} (h : st.HasHolder hd name) :
    (issue env calls st).1.HasHolder hd name :=
  issue_keeps (P := fun st => st.HasHolder hd name) (fun _ _ hSt => Store.exec_hasHolder hSt) h

theorem send_hasHolder {hd : Holder} {name : String} (h : st.HasHolder hd name) (pass : Pass) :
    (pass.send sha256 st).1.HasHolder hd name :=
  send_keeps sha256 (P := fun st => st.HasHolder hd name)
    (fun _ _ hSt => Store.exec_hasHolder hSt) pass h

/-- The calls of a pass are not about ports. -/
theorem part_ne_switchPort (call : Call) : call.part ≠ .switchPort := by
  cases call <;> simp

theorem part_ne_routerPort (call : Call) : call.part ≠ .routerPort := by
  cases call <;> simp

/-- Whether or not the switch exists, the rows stay of the few forms. -/
theorem issue_sound (h : Managed st)
    (hDb : (perform nameIndex env 0 calls (tables st)).Sound sha256) :
    (tables (issue env calls st).1).Sound sha256 := by
  have hSame : SameButACLs (tables (issue env calls st).1)
      (perform nameIndex env 0 calls (tables st)) := tables_performAll_same h 0 calls ⟨rfl, rfl⟩
  exact ⟨hSame.1 ▸ hDb.sets, hSame.2 ▸ hDb.balancers⟩

end Issue

section Functions

variable {db : Northbound} {env : Env}

/-- The tables after an update are those after its calls, one by one. -/
theorem updateLoadBalancerIPs_perform (loadBalancers : List LoadBalancer)
    (hostnameToIP : String → Option String) :
    perform nameIndex env 0 (updateLoadBalancerIPs nameIndex env loadBalancers hostnameToIP db).2 db =
      (updateLoadBalancerIPs nameIndex env loadBalancers hostnameToIP db).1 := by
  rw [updateLoadBalancerIPs]
  split <;> rfl

theorem syncAddressSets_perform (expSets : List AddressSet) :
    perform nameIndex env 0 (syncAddressSets nameIndex env expSets db).2 db =
      (syncAddressSets nameIndex env expSets db).1 := by
  rw [syncAddressSets]
  split <;> rfl

theorem syncACLs_perform (connections : List Conn) :
    perform nameIndex env 0 (syncACLs nameIndex env connections db).2 db =
      (syncACLs nameIndex env connections db).1 := by
  rw [syncACLs]
  split <;> rfl

end Functions

section Arp

/-- The addresses of the port to the router are replaced. -/
def setArp (loadBalancers : List LoadBalancer) (row : SwitchPortRow) : SwitchPortRow :=
  if row.name = loadBalancerSwitchPort then
    { row with addresses := {arpAddresses loadBalancers} }
  else row

variable (env : ArpEnv) (loadBalancers : List LoadBalancer)

/-- The transaction of the ARP update. -/
theorem exec_setArp (h : Managed st) :
    st.exec (updateSwitchPortAddresses loadBalancerSwitchPort [arpAddresses loadBalancers]) =
      st.setParts .switchPort ((st.parts .switchPort).mapVals (setArp loadBalancers)) := by
  have hExec : st.exec (updateSwitchPortAddresses loadBalancerSwitchPort
      [arpAddresses loadBalancers]) = _ := Store.exec_update h.sound (fun _ => rfl)
  rw [hExec]
  congr 2
  funext row
  simp [setArp]

theorem updateLoadBalancerARP_cases (st : Server nameIndex) :
    (updateLoadBalancerARP env loadBalancers st).1 = st ∨
      (updateLoadBalancerARP env loadBalancers st).1 = st.exec
        (updateSwitchPortAddresses loadBalancerSwitchPort [arpAddresses loadBalancers]) := by
  rw [updateLoadBalancerARP]
  split
  · exact Or.inl rfl
  · dsimp only
    split
    · cases env.succeeds with
      | false => exact Or.inl rfl
      | true => exact Or.inr rfl
    · exact Or.inl rfl

variable {env loadBalancers} in
/-- What its transaction keeps, the ARP update keeps, also when it is not sent. -/
theorem arp_keeps {P : Server nameIndex → Prop}
    (hExec : P (st.exec (updateSwitchPortAddresses loadBalancerSwitchPort
      [arpAddresses loadBalancers]))) (h : P st) :
    P (updateLoadBalancerARP env loadBalancers st).1 := by
  rcases updateLoadBalancerARP_cases env loadBalancers st with hEq | hEq
  · rwa [hEq]
  · rwa [hEq]

theorem Managed.updateARP (h : Managed st) :
    Managed (updateLoadBalancerARP env loadBalancers st).1 :=
  arp_keeps (h.exec (.updateSwitchPortAddresses _ _)) h

theorem arp_parts_ne (h : Managed st) {q : Part} (hPart : .switchPort ≠ q) :
    (updateLoadBalancerARP env loadBalancers st).1.parts q = st.parts q := by
  refine arp_keeps (P := fun st' => st'.parts q = st.parts q) (h.parts_eq ?_) rfl
  exact List.forall_mem_singleton.mpr (fun hEq => hPart (Option.some.inj hEq))

theorem tables_arp (h : Managed st) :
    tables (updateLoadBalancerARP env loadBalancers st).1 = tables st :=
  tables_of_parts (Or.inl rfl) (fun _ hPart => arp_parts_ne env loadBalancers h hPart)

theorem arp_hasHolder {hd : Holder} {name : String} (h : st.HasHolder hd name) :
    (updateLoadBalancerARP env loadBalancers st).1.HasHolder hd name :=
  arp_keeps (P := fun st => st.HasHolder hd name) (Store.exec_hasHolder h) h

theorem setArp_routerRow (addresses : Finset String) :
    setArp loadBalancers (routerRow addresses) = routerRow {arpAddresses loadBalancers} :=
  if_pos rfl

/-- Ports of containers have other names than the one of the load balancers. -/
theorem setArp_portRow (a : IPv4) : setArp loadBalancers (portRow a) = portRow a :=
  if_neg (text_ne_loadBalancerSwitchPort a)

theorem OvnSound.updateARP (h : OvnSound sha256 st) :
    OvnSound sha256 (updateLoadBalancerARP env loadBalancers st).1 where
  managed := h.managed.updateARP env loadBalancers
  tables := tables_arp env loadBalancers h.managed ▸ h.tables
  ports := by
    refine arp_keeps (P := fun st => ∀ r ∈ (st.parts .switchPort).vals, SoundPort r) ?_ h.ports
    rw [exec_setArp loadBalancers h.managed, Store.setParts_same, Table.vals_mapVals]
    intro r hr
    obtain ⟨old, hOld, rfl⟩ := List.mem_map.mp hr
    cases h.ports old hOld with
    | router addresses =>
        rw [setArp_routerRow]
        exact SoundPort.router _
    | container a =>
        rw [setArp_portRow]
        exact SoundPort.container a
  routerPorts := by
    rw [arp_parts_ne env loadBalancers h.managed (by decide)]
    exact h.routerPorts

end Arp

/-- Whichever of its calls fail, a pass leaves sound tables. -/
theorem send_sound (h : Managed st) (hTables : (tables st).Sound sha256)
    (hSha : nameIndex = true ∨ Function.Injective sha256) {pass : Pass} (hPass : pass.Valid) :
    (tables (pass.send sha256 st).1).Sound sha256 := by
  cases pass with
  | loadBalancers env lbs hostnameToIP =>
      refine issue_sound h ?_
      rw [updateLoadBalancerIPs_perform]
      exact hTables.run hSha hPass
  | acls env env' dbConns hostnameToIP =>
      have hExp := expectedSets_resolveConnections sha256 (env.ords 0) dbConns hPass.1 hPass.2
      have hSets : (tables (issue env (syncAddressSets nameIndex env (resolveConnections sha256
          (env.ords 0) dbConns hostnameToIP).2 (tables st)).2 st).1).Sound sha256 := by
        refine issue_sound h ?_
        rw [syncAddressSets_perform]
        refine ⟨syncAddressSets_sound _ hSha hTables.sets hExp, ?_⟩
        rw [(syncAddressSets_frame _).2]
        exact hTables.balancers
      refine issue_sound h.issue ?_
      rw [syncACLs_perform]
      constructor
      · rw [(syncACLs_frame _).1]
        exact hSets.sets
      · rw [(syncACLs_frame _).2]
        exact hSets.balancers

/-- A pass leaves the ports alone and keeps the other tables sound. -/
theorem OvnSound.send (h : OvnSound sha256 st)
    (hSha : nameIndex = true ∨ Function.Injective sha256) (pass : Pass) (hPass : pass.Valid) :
    OvnSound sha256 (pass.send sha256 st).1 where
  managed := h.managed.send pass
  tables := send_sound h.managed h.tables hSha hPass
  ports := by
    rw [send_parts h.managed part_ne_switchPort]
    exact h.ports
  routerPorts := by
    rw [send_parts h.managed part_ne_routerPort]
    exact h.routerPorts

/-- While the switch exists, a pass does to the tables what it does in `Northbound`. -/
theorem tables_send (h : Managed st) (hSwitch : st.HasHolder .logicalSwitch lSwitch) (pass : Pass) :
    tables (pass.send sha256 st).1 = pass.run sha256 nameIndex (tables st) := by
  cases pass with
  | loadBalancers env lbs hostnameToIP =>
      exact (tables_performAll h hSwitch 0 _).trans (updateLoadBalancerIPs_perform _ _)
  | acls env env' dbConns hostnameToIP =>
      have hSets : tables (issue env (syncAddressSets nameIndex env (resolveConnections sha256
          (env.ords 0) dbConns hostnameToIP).2 (tables st)).2 st).1 = _ :=
        (tables_performAll h hSwitch 0 _).trans (syncAddressSets_perform _)
      refine ((tables_performAll h.issue (issue_hasHolder hSwitch) 0 _).trans
        (syncACLs_perform _)).trans ?_
      rw [hSets]
      rfl

theorem OvnSound.ports_step (h : OvnSound sha256 st) (env : MasterEnv) (addresses : List IPv4) :
    OvnSound sha256 (afterPorts env addresses st) :=
  (h.updateSwitch env.switch addresses).updateRouter env.router

theorem OvnSound.policy_step (h : OvnSound sha256 st) (env : MasterEnv)
    (hSha : nameIndex = true ∨ Function.Injective sha256) (hHosts : KeldaHosts d.hostnameToIP)
    (hInj : InjectiveHosts d.hostnameToIP) :
    OvnSound sha256 (updatePolicyTables sha256 env d st).1 :=
  ((h.send hSha (env.balancersPass d) ⟨hHosts, hInj⟩).updateARP env.arp
    d.loadBalancers).send hSha (env.aclsPass d) ⟨hHosts, hInj⟩

/-- A pass that connects updates the ports, and then the other tables. -/
theorem runMaster_opened {env : MasterEnv} {view : Database} (hOpened : env.opened = true)
    (hView : Addressed view) (st : Server nameIndex) :
    ∃ addresses calls, (selectDeployed env.ords view).containers.map Container.ip =
        addresses.map IPv4.text ∧
      runMaster sha256 env view st = .ok ((updatePolicyTables sha256 env
        (selectDeployed env.ords view) (afterPorts env addresses st)).1, calls) := by
  obtain ⟨addresses, hContainers⟩ := hView.exists_addresses env.ords
  rw [runMaster, if_pos hOpened, updatePorts_eq env st hContainers]
  exact ⟨addresses, _, hContainers, rfl⟩

/-- Whatever fails, a pass does not panic and leaves a sound database. -/
theorem OvnSound.step (h : OvnSound sha256 st) (env : MasterEnv) {view : Database}
    (hSha : nameIndex = true ∨ Function.Injective sha256) (hView : Addressed view) :
    ∃ st' calls, runMaster sha256 env view st = .ok (st', calls) ∧ OvnSound sha256 st' := by
  by_cases hOpened : env.opened = true
  · obtain ⟨addresses, calls, -, hRun⟩ := runMaster_opened hOpened hView st
    refine ⟨_, calls, hRun, (h.ports_step env addresses).policy_step env hSha ?_ ?_⟩
    · exact hView.keldaHosts _
    · exact hView.injectiveHosts _
  · refine ⟨st, [], ?_, h⟩
    rw [runMaster, if_neg hOpened]
    rfl

end Invariant

section Passes

variable {sha256 : String → List UInt8} {nameIndex : Bool} {st : Server nameIndex}
  {loadBalancers : List LoadBalancer} {dbConns : List Connection}
  {hostnameToIP : String → Option String}

theorem Converged.send_balancers
    (h : Converged sha256 loadBalancers dbConns hostnameToIP (tables st))
    (hHosts : KeldaHosts hostnameToIP) (hLbs : DistinctLoadBalancers loadBalancers) (env : Env) :
    (Pass.loadBalancers env loadBalancers hostnameToIP).send sha256 st = (st, []) := by
  rw [Pass.send, updateLoadBalancerIPs_quiet hLbs ((holdsBalancers_iff hHosts).mp h.loadBalancers)]
  rfl

/-- Address sets and ACLs are in place, so nothing is sent for them. -/
theorem Converged.send_acls (h : Converged sha256 loadBalancers dbConns hostnameToIP (tables st))
    (hHosts : KeldaHosts hostnameToIP) (hInj : InjectiveHosts hostnameToIP) (env env' : Env) :
    (Pass.acls env env' dbConns hostnameToIP).send sha256 st = (st, []) := by
  have hExp := expectedSets_resolveConnections sha256 (env.ords 0) dbConns hHosts hInj
  have hSets : issue env (syncAddressSets nameIndex env (resolveConnections sha256 (env.ords 0)
      dbConns hostnameToIP).2 (tables st)).2 st = (st, []) := by
    rw [syncAddressSets_quiet hExp (h.addressSets _)]
    rfl
  rw [Pass.send, hSets]
  dsimp only
  rw [syncACLs_quiet (h.acls _)]
  rfl

/-- The passes one after another, and all their transactions. -/
def sendPasses (sha256 : String → List UInt8) :
    List Pass → Server nameIndex → Server nameIndex × List (Transaction nameIndex)
  | [], st => (st, [])
  | pass :: passes, st =>
    let sent := pass.send sha256 st
    let rest := sendPasses sha256 passes sent.1
    (rest.1, sent.2 ++ rest.2)

/-- The load balancers and the ACLs, with what the environment does meanwhile. -/
def Envs.passes (envs : Envs) (loadBalancers : List LoadBalancer) (dbConns : List Connection)
    (hostnameToIP : String → Option String) : List Pass :=
  [.loadBalancers envs.loadBalancers loadBalancers hostnameToIP,
    .acls envs.addressSets envs.acls dbConns hostnameToIP]

/-- An empty database in which the logical switch has been made. -/
def Server.withSwitch (nameIndex : Bool) : Server nameIndex :=
  (Server.empty nameIndex).exec (createLogicalSwitch lSwitch)

/-- What holds between any two passes once the switch exists. -/
structure Switched (sha256 : String → List UInt8) (st : Server nameIndex) : Prop where
  managed : Managed st
  switch : st.HasHolder .logicalSwitch lSwitch
  tables : (tables st).Sound sha256

/-- The tables of a new server are empty. -/
theorem switched_withSwitch : Switched sha256 (Server.withSwitch nameIndex) := by
  obtain ⟨hManaged, hReady, hParts⟩ :=
    switchPorts.exec_create (managed_empty : Managed (Server.empty nameIndex))
  have hTables : tables (Server.withSwitch nameIndex) = tables (Server.empty nameIndex) := by
    rw [tables, tables, ← hParts]
    rfl
  exact ⟨hManaged, hReady, hTables ▸ sound_empty⟩

theorem Switched.sendPasses (hSha : nameIndex = true ∨ Function.Injective sha256)
    {passes : List Pass} (hPasses : ∀ pass ∈ passes, pass.Valid) (h : Switched sha256 st) :
    Switched sha256 (sendPasses sha256 passes st).1 := by
  induction passes generalizing st with
  | nil => exact h
  | cons pass passes ih =>
      refine ih (fun pass' hMem => hPasses pass' (List.mem_cons_of_mem _ hMem)) ⟨h.managed.send _,
        send_hasHolder h.switch _, send_sound h.managed h.tables hSha (hPasses pass ?_)⟩
      exact List.mem_cons_self

/-- Whatever passes went before, with whatever calls failing, one pass without
failures makes the tables exact, and the next one sends no transaction. Address sets
are deleted by name; that this hits no other row takes either an index on the names
or a hash without collisions. -/
theorem updateTables_converges (hSha : nameIndex = true ∨ Function.Injective sha256)
    {passes : List Pass} (hPasses : ∀ pass ∈ passes, pass.Valid)
    (hHosts : KeldaHosts hostnameToIP) (hInj : InjectiveHosts hostnameToIP)
    (hLbs : DistinctLoadBalancers loadBalancers) (dbConns : List Connection) {envs : Envs}
    (hEnvs : envs.Reliable) :
    let before := (sendPasses sha256 passes (Server.withSwitch nameIndex)).1
    let after := (sendPasses sha256 (envs.passes loadBalancers dbConns hostnameToIP) before).1
    Converged sha256 loadBalancers dbConns hostnameToIP (tables after) ∧
      ∀ envs' : Envs, sendPasses sha256 (envs'.passes loadBalancers dbConns hostnameToIP) after =
        (after, []) := by
  have hBefore := switched_withSwitch.sendPasses hSha hPasses
  set before := (sendPasses sha256 passes (Server.withSwitch nameIndex)).1
  intro _ after
  have hTables : tables after = (updateTables sha256 nameIndex envs loadBalancers dbConns
      hostnameToIP (tables before)).1 := by
    have hSecond : tables after = _ := tables_send (hBefore.managed.send _)
      (send_hasHolder hBefore.switch _) (.acls envs.addressSets envs.acls dbConns hostnameToIP)
    rw [hSecond, tables_send hBefore.managed hBefore.switch]
    rfl
  have hAfter := updateTables_converged nameIndex dbConns hEnvs hBefore.tables hHosts hInj hLbs
  rw [← hTables] at hAfter
  refine ⟨hAfter, fun envs' => ?_⟩
  rw [Envs.passes, Network.sendPasses, hAfter.send_balancers hHosts hLbs]
  dsimp only
  rw [Network.sendPasses, hAfter.send_acls hHosts hInj]
  rfl

/-- Every call but the first mutation fails. -/
def flaky : Env := ⟨fun _ => .reversed, true, fun n => n = 0⟩

def dependable : Env := ⟨fun _ => .stored, true, fun _ => true⟩

def sampleLoadBalancers : List LoadBalancer :=
  [{ id := 1, name := "web", ip := "10.2.0.1", hostnames := ["web2", "web1"] }]

theorem updateTables_converges_sample :
    ∃ st : Server true, (sendPasses sampleSHA256 (Envs.passes ⟨dependable, dependable, dependable⟩
        sampleLoadBalancers sampleConnections sampleHosts) (sendPasses sampleSHA256
          [.acls flaky flaky [] sampleHosts, .loadBalancers flaky sampleLoadBalancers sampleHosts]
          (Server.withSwitch true)).1).1 = st ∧
      Converged sampleSHA256 sampleLoadBalancers sampleConnections sampleHosts (tables st) ∧
      (sendPasses sampleSHA256 (Envs.passes ⟨flaky, flaky, flaky⟩ sampleLoadBalancers
        sampleConnections sampleHosts) st).2 = [] := by
  have hEnv : dependable.Reliable := ⟨rfl, fun _ => rfl⟩
  have hLbs : DistinctLoadBalancers sampleLoadBalancers :=
    ⟨by simp [sampleLoadBalancers], by simp [sampleLoadBalancers]⟩
  have hPasses : ∀ pass ∈ [Pass.acls flaky flaky [] sampleHosts,
      .loadBalancers flaky sampleLoadBalancers sampleHosts], pass.Valid := by
    intro pass hPass
    simp only [List.mem_cons, List.not_mem_nil, or_false] at hPass
    rcases hPass with rfl | rfl
    · exact ⟨sampleHosts_kelda, sampleHosts_injective⟩
    · exact ⟨sampleHosts_kelda, sampleHosts_injective⟩
  obtain ⟨hConverged, hQuiet⟩ := @updateTables_converges sampleSHA256 true sampleLoadBalancers
    sampleHosts (.inl rfl) _ hPasses sampleHosts_kelda sampleHosts_injective hLbs
    sampleConnections ⟨dependable, dependable, dependable⟩ ⟨hEnv, hEnv, hEnv⟩
  exact ⟨_, rfl, hConverged, congrArg Prod.snd (hQuiet ⟨flaky, flaky, flaky⟩)⟩

end Passes

end Kelda.Network
