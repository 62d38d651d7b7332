import Kelda.Minion.Exact
import Kelda.Network.MasterRuns

/-! From the blueprint to the packets. The leader brings a blueprint into its own
tables, gives out addresses, names them, and writes what follows to OVN. Each of
the four loops runs on its own and reads what another one wrote. When they are
through, OVN lets exactly the packets pass that the blueprint allows. -/
namespace Kelda.Network

open DB Join Minion Database OVN RefStore UuidTable

section Reading

/-- The address sets of the database as OVN reads them. -/
def storedSets (rows : List SetRow) : List AddressSet :=
  rows.map (fun r => ⟨r.name, elements r.addresses⟩)

theorem eval_congr {sets sets' : String → List IPv4}
    (h : ∀ name a, a ∈ sets name ↔ a ∈ sets' name) (pkt : Packet) (e : Expr) :
    e.eval sets pkt = e.eval sets' pkt := by
  induction e with
  | addrSet side name =>
      rw [Expr.eval, Expr.eval]
      cases pkt.addr? side with
      | none => rfl
      | some a => simp only [h]
  | op o e e' ih ih' =>
      cases o <;> rw [Expr.eval, Expr.eval, ih, ih']
  | _ => rfl

theorem mem_lookupSet {sets : List AddressSet} (hNames : (sets.map AddressSet.name).Nodup)
    {name : String} {a : IPv4} :
    a ∈ lookupSet sets name ↔
      ∃ set ∈ sets, set.name = name ∧ ∃ ip ∈ set.addresses, IPv4.parse ip = some a := by
  rw [lookupSet]
  cases hFind : sets.find? (fun set => set.name = name) with
  | none =>
      have hNone : ∀ set ∈ sets, set.name ≠ name := by simpa using hFind
      constructor
      · intro h
        cases h
      · rintro ⟨set, hSet, hName, -⟩
        exact (hNone set hSet hName).elim
  | some found =>
      have hName : found.name = name := by simpa using List.find?_some hFind
      rw [List.mem_filterMap]
      constructor
      · exact fun h => ⟨found, List.mem_of_find?_eq_some hFind, hName, h⟩
      · rintro ⟨set, hSet, hEq, h⟩
        rwa [List.inj_on_of_nodup_map hNames (List.mem_of_find?_eq_some hFind) hSet
          (hName.trans hEq.symm)]

variable {acls acls' : List ACLCore} {sets sets' : List AddressSet}

/-- Which ACLs can be picked does not depend on the order of the tables. -/
theorem mem_picked_congr (hACLs : ∀ acl, acl ∈ acls ↔ acl ∈ acls')
    (hSets : ∀ name a, a ∈ lookupSet sets name ↔ a ∈ lookupSet sets' name) (dir : Direction)
    (pkt : Packet) (acl : ACLCore) :
    acl ∈ picked acls sets dir pkt ↔ acl ∈ picked acls' sets' dir pkt := by
  have hMatch : ∀ acl : ACLCore, acl.matchesPacket sets pkt = acl.matchesPacket sets' pkt := by
    intro acl
    rw [ACLCore.matchesPacket, ACLCore.matchesPacket]
    cases OVN.parse acl.matchText with
    | none => rfl
    | some e => exact eval_congr hSets pkt e
  simp only [mem_picked, hACLs, hMatch]

theorem allowed_congr (hACLs : ∀ acl, acl ∈ acls ↔ acl ∈ acls')
    (hSets : ∀ name a, a ∈ lookupSet sets name ↔ a ∈ lookupSet sets' name) {pkt : Packet} :
    Allowed acls sets pkt ↔ Allowed acls' sets' pkt := by
  simp only [Allowed, ne_eq, List.eq_nil_iff_forall_not_mem, mem_picked_congr hACLs hSets]

theorem dropped_congr (hACLs : ∀ acl, acl ∈ acls ↔ acl ∈ acls')
    (hSets : ∀ name a, a ∈ lookupSet sets name ↔ a ∈ lookupSet sets' name) {pkt : Packet} :
    Dropped acls sets pkt ↔ Dropped acls' sets' pkt := by
  simp only [Dropped, ne_eq, List.eq_nil_iff_forall_not_mem, mem_picked_congr hACLs hSets]

/-- No packet is both allowed and dropped. -/
theorem Dropped.not_allowed {pkt : Packet} (h : Dropped acls sets pkt) :
    ¬Allowed acls sets pkt := by
  intro hAllowed
  obtain ⟨acl, hACL⟩ := List.exists_mem_of_ne_nil _ (h .fromLport).1
  exact (hAllowed .fromLport).2 acl hACL ((h .fromLport).2 acl hACL)

end Reading

section Converged

variable {sha256 : String → List UInt8} {loadBalancers : List LoadBalancer}
  {dbConns : List Connection} {hostnameToIP : String → Option String} {db : Northbound}

theorem Converged.lookupSet_iff (h : Converged sha256 loadBalancers dbConns hostnameToIP db)
    (name : String) (a : IPv4) :
    a ∈ lookupSet (storedSets db.addressSets) name ↔
      a ∈ lookupSet (resolveConnections sha256 .stored dbConns hostnameToIP).2 name := by
  have hPerm := h.addressSets .stored
  have hStored : ((storedSets db.addressSets).map AddressSet.name).Nodup := by
    rw [storedSets, List.map_map]
    exact h.names
  have hResolved :
      ((resolveConnections sha256 .stored dbConns hostnameToIP).2.map AddressSet.name).Nodup := by
    have hNames := (hPerm.map SetRow.name).nodup_iff.mp h.names
    rwa [List.map_map] at hNames
  rw [mem_lookupSet hStored, mem_lookupSet hResolved]
  have hRows : ∀ r, r ∈ db.addressSets ↔
      ∃ set ∈ (resolveConnections sha256 .stored dbConns hostnameToIP).2, SetRow.ofSet set = r :=
    fun r => hPerm.mem_iff.trans List.mem_map
  simp only [storedSets, List.mem_map, exists_exists_and_eq_and, hRows, mem_elements, SetRow.ofSet,
    List.mem_toFinset]

theorem Converged.mem_acls (h : Converged sha256 loadBalancers dbConns hostnameToIP db)
    (acl : ACLCore) : acl ∈ db.acls.vals ↔
      acl ∈ expectedACLs (resolveConnections sha256 .stored dbConns hostnameToIP).1 :=
  ((h.acls .stored).2 acl).trans mem_expectedACLs_iff.symm

/-- OVN treats a packet by its tables as by the ACLs that were compiled. -/
theorem Converged.allowed_of_passes (h : Converged sha256 loadBalancers dbConns hostnameToIP db)
    (hHosts : KeldaHosts hostnameToIP)
    (hSha : Set.InjOn sha256 (hashedTexts hostnameToIP dbConns)) {pkt : Packet}
    (hICMP : pkt.payload? ≠ some .icmp) (hPasses : Passes dbConns hostnameToIP pkt) :
    Allowed db.acls.vals (storedSets db.addressSets) pkt :=
  (allowed_congr h.mem_acls h.lookupSet_iff).mpr
    (Network.allowed_of_passes hHosts hSha hICMP hPasses)

theorem Converged.dropped_of_not_passes
    (h : Converged sha256 loadBalancers dbConns hostnameToIP db)
    (hHosts : KeldaHosts hostnameToIP)
    (hSha : Set.InjOn sha256 (hashedTexts hostnameToIP dbConns)) {pkt : Packet}
    (hIP : pkt.payload?.isSome) (hICMP : pkt.payload? ≠ some .icmp)
    (hNot : ¬Passes dbConns hostnameToIP pkt) :
    Dropped db.acls.vals (storedSets db.addressSets) pkt :=
  (dropped_congr h.mem_acls h.lookupSet_iff).mpr
    (Network.dropped_of_not_passes hHosts hSha hIP hICMP hNot)

end Converged

section Enforced

/-- The blueprint lets the packet pass between the addresses of two names, as a
request or as a response. -/
def BlueprintPermits (bp : Blueprint) (view : Database) (src dst : IPv4) (sport dport : Nat) :
    Prop :=
  ∃ c, WantedConnection bp c ∧ ∃ f ∈ c.fromHosts, ∃ t ∈ c.toHosts,
    f ≠ Blueprint.publicInternetLabel ∧ t ≠ Blueprint.publicInternetLabel ∧
    ((Named view f src.text ∧ Named view t dst.text ∧ c.minPort ≤ dport ∧ dport ≤ c.maxPort) ∨
      (Named view t src.text ∧ Named view f dst.text ∧ c.minPort ≤ sport ∧ sport ≤ c.maxPort))

variable {nameIndex : Bool}

/-- OVN enforces the blueprint on every packet that is not ICMP. -/
structure Enforces (bp : Blueprint) (view : Database) (st : Server nameIndex) : Prop where
  allowed : ∀ src dst proto sport dport,
    Allowed (tables st).acls.vals (storedSets (tables st).addressSets)
        (.ip4 src dst (.ports proto sport dport)) ↔
      BlueprintPermits bp view src dst sport dport
  dropped : ∀ pkt : Packet, pkt.payload?.isSome → pkt.payload? ≠ some .icmp →
    (∀ src dst proto sport dport, pkt = .ip4 src dst (.ports proto sport dport) →
      ¬BlueprintPermits bp view src dst sport dport) →
    Dropped (tables st).acls.vals (storedSets (tables st).addressSets) pkt

/-- The names of the owners of addresses. -/
def ownerNames (view : Database) : List String :=
  (view.rows .container).map Container.hostname ++ (view.rows .loadBalancer).map LoadBalancer.name

/-- The tables of a leader that has brought a blueprint into them. -/
structure Deploys (bp : Blueprint) (view : Database) : Prop where
  connections : ∀ c, c ∈ (view.rows .connection).map connectionPolicy ↔ WantedConnection bp c
  names : (ownerNames view).Nodup
  hostnames : HoldsNames view (view.rows .hostname)

variable {sha256 : String → List UInt8} {bp : Blueprint} {view : Database}

theorem Named.address_unique (hNames : (ownerNames view).Nodup) {name ip ip' : String}
    (h : Named view name ip) (h' : Named view name ip') : ip = ip' := by
  obtain ⟨hContainers, hBalancers, hApart⟩ := List.nodup_append'.mp hNames
  generalize hName : name = name' at h'
  cases h with
  | @loadBalancer lb hRow hIP =>
      cases h' with
      | @loadBalancer lb' hRow' hIP' =>
          rw [List.inj_on_of_nodup_map hBalancers hRow hRow' hName]
      | @container c hRow' hName' hIP' =>
          exact (hApart (List.mem_map_of_mem hRow') (hName ▸ List.mem_map_of_mem hRow)).elim
  | @container c hRow hSome hIP =>
      cases h' with
      | @loadBalancer lb' hRow' hIP' =>
          exact (hApart (List.mem_map_of_mem hRow) (hName ▸ List.mem_map_of_mem hRow')).elim
      | @container c' hRow' hName' hIP' =>
          rw [List.inj_on_of_nodup_map hContainers hRow hRow' hName]

theorem Deploys.distinctNames (h : Deploys bp view) : DistinctNames view := by
  refine ⟨h.hostnames.nodup_names ?_, (List.nodup_append'.mp h.names).2.1⟩
  exact fun _ _ _ hNamed hNamed' => hNamed.address_unique h.names hNamed'

theorem Deploys.mapping_iff (h : Deploys bp view) (ord : MapOrder) {name ip : String} :
    getHostnameMappings ord view name = some ip ↔ Named view name ip := by
  rw [mapping_eq_some_iff h.distinctNames.hostnames, h.hostnames.names]

/-- The rows of the leader and the blueprint permit the same packets. -/
theorem Deploys.permits_iff (h : Deploys bp view) (ord : MapOrder) {src dst : IPv4}
    {sport dport : Nat} :
    Permits (view.rows .connection) (getHostnameMappings ord view) src dst sport dport ↔
      BlueprintPermits bp view src dst sport dport := by
  have hWanted : ∀ c, WantedConnection bp c ↔
      ∃ r ∈ view.rows .connection, connectionPolicy r = c :=
    fun c => (h.connections c).symm.trans List.mem_map
  simp only [Permits, BlueprintPermits, h.mapping_iff, hWanted, exists_exists_and_eq_and]
  rfl

/-- Where OVN holds what the leader asks for, and the leader what the blueprint
asks for, the blueprint is enforced. -/
theorem Deploys.enforces (h : Deploys bp view) (hView : Addressed view)
    (hTexts : Set.InjOn sha256
      (hashedTexts (getHostnameMappings .stored view) (view.rows .connection)))
    {st : Server nameIndex} (hOvn : OvnConverged sha256 view st) : Enforces bp view st := by
  have hTables := hOvn.tables (fun _ => .stored)
  have hConns : (selectDeployed (fun _ => .stored) view).connections = view.rows .connection :=
    List.filter_true _
  rw [hConns] at hTables
  refine ⟨fun src dst proto sport dport => ⟨fun hAllowed => ?_, fun hPermitted => ?_⟩,
    fun pkt hIP hICMP hNot => ?_⟩
  · by_contra hNot
    refine Dropped.not_allowed (hTables.dropped_of_not_passes (hView.keldaHosts _) hTexts rfl
      (by simp [Packet.payload?]) ?_) hAllowed
    exact fun hPasses => hNot ((h.permits_iff _).mp (passes_iff.mp hPasses))
  · exact hTables.allowed_of_passes (hView.keldaHosts _) hTexts (by simp [Packet.payload?])
      (passes_iff.mpr ((h.permits_iff _).mpr hPermitted))
  · refine hTables.dropped_of_not_passes (hView.keldaHosts _) hTexts hIP hICMP (fun hPasses => ?_)
    obtain ⟨src, dst, proto, sport, dport, rfl⟩ := hPasses.ports
    exact hNot src dst proto sport dport rfl ((h.permits_iff _).mp (passes_iff.mp hPasses))

end Enforced

section Leader

variable {sha256 : String → List UInt8} {nameIndex : Bool} {bp : Blueprint} {view mid : Database}

theorem exists_container_of_exact (h : PolicyExact bp view mid) {r : Container}
    (hr : r ∈ mid.rows .container) : ∃ c ∈ bp.containers, ContainerFields c r ∧
      ∀ r' ∈ mid.rows .container, r'.blueprintID = c.id → r' = r := by
  obtain ⟨c, hc, hID⟩ := h.noOtherContainer r hr
  obtain ⟨r₀, -, hFields, hOnly, -⟩ := h.containers c hc
  obtain rfl : r = r₀ := hOnly r hr hID
  exact ⟨c, hc, hFields, hOnly⟩

theorem exists_loadBalancer_of_exact (h : PolicyExact bp view mid) {r : LoadBalancer}
    (hr : r ∈ mid.rows .loadBalancer) : ∃ lb ∈ bp.loadBalancers, r.name = lb.name ∧
      ∀ r' ∈ mid.rows .loadBalancer, r'.name = lb.name → r' = r := by
  obtain ⟨lb, hLb, hName⟩ := h.noOtherLoadBalancer r hr
  obtain ⟨r₀, -, -, -, hOnly, -⟩ := h.loadBalancers lb hLb
  obtain rfl : r = r₀ := hOnly r hr hName
  exact ⟨lb, hLb, hName, hOnly⟩

/-- What the bindings guarantee about all names of a blueprint. -/
structure DistinctOwners (bp : Blueprint) : Prop extends UniqueNames bp where
  apart : ∀ c ∈ bp.containers, ∀ lb ∈ bp.loadBalancers, c.hostname ≠ lb.name

theorem nodup_ownerNames (h : PolicyExact bp view mid) (hNames : DistinctOwners bp) :
    (ownerNames mid).Nodup := by
  refine List.nodup_append'.mpr ⟨?_, ?_, fun name hContainer hBalancer => ?_⟩
  · refine ((mid.nodup .container).of_map _).map_on (fun r hr r' hr' hName => ?_)
    obtain ⟨c, hc, hFields, -⟩ := exists_container_of_exact h hr
    obtain ⟨c', hc', hFields', hOnly⟩ := exists_container_of_exact h hr'
    have hSame : c = c' := List.inj_on_of_nodup_map hNames.hostnames hc hc'
      (hFields.hostname.symm.trans (hName.trans hFields'.hostname))
    exact hOnly r hr (hSame ▸ hFields.blueprintID)
  · refine ((mid.nodup .loadBalancer).of_map _).map_on (fun r hr r' hr' hName => ?_)
    obtain ⟨lb, hLb, hEq, hOnly⟩ := exists_loadBalancer_of_exact h hr'
    exact hOnly r hr (hName.trans hEq)
  · obtain ⟨r, hr, rfl⟩ := List.mem_map.mp hContainer
    obtain ⟨r', hr', hName⟩ := List.mem_map.mp hBalancer
    obtain ⟨c, hc, hFields, -⟩ := exists_container_of_exact h hr
    obtain ⟨lb, hLb, hEq, -⟩ := exists_loadBalancer_of_exact h hr'
    exact hNames.apart c hc lb hLb (hFields.hostname.symm.trans (hName.symm.trans hEq))

/-- Names do not change with the addresses. -/
theorem SameButIPs.ownerNames_eq {before after : Database} (h : SameButIPs before after) :
    ownerNames after = ownerNames before := by
  have hContainers := congrArg (List.map Container.hostname) (h.owners .container)
  have hBalancers := congrArg (List.map LoadBalancer.name) (h.owners .loadBalancer)
  rw [List.map_map, List.map_map] at hContainers hBalancers
  exact congrArg₂ (· ++ ·) hContainers hBalancers

theorem holdsNames_of_sync {ords : Nat → MapOrder} {seen named : Database}
    (hLeader : etcdLeader (ords 0) seen = true)
    (h : syncHostnamesOnce ords seen view = .ok named) :
    Touches .hostname view named ∧ HoldsNames named (named.rows .hostname) := by
  obtain ⟨after, hRun, hTouches, hHolds⟩ := joinHostnames_holds (laterOrders ords 1) view
  rw [syncHostnamesOnce, hLeader, if_pos rfl] at h
  cases hRun.symm.trans h
  refine ⟨hTouches, hHolds.keys, fun name ip => (hHolds.names name ip).trans ?_⟩
  exact (Named.congr (hTouches.rows _ (by decide)) (hTouches.rows _ (by decide))).symm

/-- The leader of one blueprint. -/
structure Leads (bp : Blueprint) (view : Database) : Prop where
  leader : ∃ etcd, view.rows .etcd = [etcd] ∧ etcd.leader = true
  blueprint : ∃ bpRow, view.rows .blueprint = [bpRow] ∧ bpRow.blueprint = bp

theorem Leads.etcdLeader (h : Leads bp view) (ord : MapOrder) : etcdLeader ord view = true := by
  obtain ⟨etcd, hEtcd, hLeader⟩ := h.leader
  simpa [Minion.etcdLeader, view.selectAll_single hEtcd] using hLeader

theorem Leads.congr {view' : Database} (h : Leads bp view)
    (hEtcd : view'.rows .etcd = view.rows .etcd)
    (hBlueprint : view'.rows .blueprint = view.rows .blueprint) : Leads bp view' := by
  refine ⟨?_, ?_⟩
  · rw [hEtcd]
    exact h.leader
  · rw [hBlueprint]
    exact h.blueprint

theorem Leads.exact (h : Leads bp view) (hNames : DistinctOwners bp) (hValid : ValidHosts bp view)
    {ords : Nat → MapOrder} (hPolicy : updatePolicy ords view = .ok mid) :
    PolicyExact bp view mid := by
  obtain ⟨etcd, hEtcd, hLeader⟩ := h.leader
  obtain ⟨bpRow, hRow, rfl⟩ := h.blueprint
  obtain ⟨after, hApply, hApplied⟩ := applyPolicy_applied ords view bpRow.blueprint
  rw [updatePolicy_leader ords hEtcd hLeader hRow] at hPolicy
  cases hApply.symm.trans hPolicy
  exact hApplied.exact hNames.toUniqueNames hValid

/-- After its three steps a leader has the blueprint in its tables. -/
theorem Leads.deploys (h : Leads bp view) (hNames : DistinctOwners bp) (hValid : ValidHosts bp view)
    {ords ords' : Nat → MapOrder} (hPolicy : updatePolicy ords view = .ok mid)
    {addressed named : Database} (hSame : SameButIPs mid addressed)
    (hSync : syncHostnamesOnce ords' addressed addressed = .ok named) : Deploys bp named := by
  have hExact := h.exact hNames hValid hPolicy
  have hLeads : Leads bp addressed := by
    refine (h.congr (hExact.others .etcd (by decide)) (hExact.others .blueprint (by decide))).congr
      (hSame.others .etcd ?_) (hSame.others .blueprint ?_) <;>
    · intro o
      cases o <;> decide
  obtain ⟨hTouches, hHolds⟩ := holdsNames_of_sync (hLeads.etcdLeader _) hSync
  refine ⟨fun c => ?_, ?_, hHolds⟩
  · rw [hTouches.rows .connection (by decide),
      hSame.others .connection (fun o => by cases o <;> decide)]
    exact hExact.connections c
  · rw [ownerNames, hTouches.rows .container (by decide), hTouches.rows .loadBalancer (by decide)]
    show (ownerNames addressed).Nodup
    rw [hSame.ownerNames_eq]
    exact nodup_ownerNames hExact hNames

variable {passes : List (MasterEnv × Database)}

/-- A leader takes over a blueprint: it reconciles its tables, gives out addresses,
names them and makes one pass over OVN without failures. Whatever its tables held
before, and whatever earlier passes left in OVN, the blueprint is then enforced. -/
theorem blueprint_enforced (hSha : nameIndex = true ∨ Function.Injective sha256)
    (hPasses : ∀ pass ∈ passes, Addressed pass.2) (hView : Addressed view) (hLeads : Leads bp view)
    (hNames : DistinctOwners bp) (hValid : ValidHosts bp view)
    {ords ords' ords'' : Nat → MapOrder} {rand32 : Nat → UInt32} {addressed named : Database}
    (hPolicy : updatePolicy ords view = .ok mid)
    (hAddresses : updateIPsOnce ords' rand32 mid = .ok (none, addressed))
    (hSync : syncHostnamesOnce ords'' addressed addressed = .ok named)
    (hTexts : Set.InjOn sha256
      (hashedTexts (getHostnameMappings .stored named) (named.rows .connection)))
    {env : MasterEnv} (hEnv : env.Reliable) :
    ∃ st st' calls, runMasters sha256 passes (Server.empty nameIndex) = .ok st ∧
      runMaster sha256 env named st = .ok (st', calls) ∧ Enforces bp named st' := by
  have hNamed : Addressed named :=
    ((hView.policy hPolicy).addresses hAddresses).hostnames_step hSync
  have hSame : SameButIPs mid addressed := by
    obtain ⟨err, after, hRun, hSame, -⟩ := updateIPsOnce_refines ords' rand32 mid
    cases hRun.symm.trans hAddresses
    exact hSame
  have hDeploys : Deploys bp named := hLeads.deploys hNames hValid hPolicy hSame hSync
  obtain ⟨st, hRuns, hSound⟩ := ovnSound_empty.runs hSha hPasses
  obtain ⟨st', calls, hRun, hConverged⟩ :=
    runMaster_converged hSound hEnv hNamed hDeploys.distinctNames hTexts
  exact ⟨st, st', calls, hRuns, hRun, hDeploys.enforces hNamed hTexts hConverged⟩

theorem shopBlueprint_distinct : DistinctOwners shopBlueprint :=
  ⟨⟨by decide, by decide, by decide⟩, by decide⟩

theorem shopView_valid : ValidHosts shopBlueprint shopView :=
  ⟨by decide +kernel, by decide +kernel, by decide +kernel⟩

/-- The web server of the blueprint asks the database. -/
theorem blueprint_enforced_shop :
    ∃ (named : Database) (st' : Server true), Enforces shopBlueprint named st' ∧
      Allowed (tables st').acls.vals (storedSets (tables st').addressSets)
        (.ip4 ⟨10, 0, 0, 7⟩ ⟨10, 1, 0, 4⟩ (.ports .tcp 40000 5432)) := by
  have hRun : (updatePolicy (fun _ => .stored) shopView >>= fun mid =>
      updateIPsOnce (fun _ => .stored) (fun _ => 7) mid >>= fun res =>
        syncHostnamesOnce (fun _ => .stored) res.2 res.2 >>= fun view =>
          .ok (res.1, (view.rows .container).map (fun c => (c.hostname, c.ip)))) =
      .ok (none, [("db", "10.1.0.4"), ("web", "10.0.0.7")]) := by
    decide +kernel
  obtain ⟨mid, hPolicy, hRun⟩ := Except.exists_of_bind_eq_ok hRun
  obtain ⟨⟨err, addressed⟩, hAddresses, hRun⟩ := Except.exists_of_bind_eq_ok hRun
  obtain ⟨named, hSync, hRun⟩ := Except.exists_of_bind_eq_ok hRun
  obtain ⟨rfl, hRows⟩ := Prod.mk.inj (Except.ok.inj hRun)
  obtain ⟨-, st', -, -, -, hEnforces⟩ := blueprint_enforced (Or.inl rfl)
    (addressed_shopPasses switchless) addressed_shopView
    ⟨⟨_, rfl, rfl⟩, ⟨_, rfl, rfl⟩⟩ shopBlueprint_distinct shopView_valid hPolicy hAddresses hSync
    textBytes_injective.injOn steady_reliable
  refine ⟨named, st', hEnforces, (hEnforces.allowed _ _ _ _ _).mpr ?_⟩
  have hNamed : ∀ name ip, (name, ip) ∈ [("db", "10.1.0.4"), ("web", "10.0.0.7")] →
      Named named name ip := by
    intro name ip hMem
    rw [← hRows] at hMem
    obtain ⟨c, hc, hEq⟩ := List.mem_map.mp hMem
    obtain ⟨rfl, rfl⟩ := Prod.mk.inj hEq
    have hSome : ∀ e ∈ (named.rows .container).map (fun c => (c.hostname, c.ip)),
        e.1 ≠ "" ∧ e.2 ≠ "" := by
      rw [hRows]
      decide
    obtain ⟨hName, hIP⟩ := hSome _ (List.mem_map_of_mem hc)
    exact .container hc hName hIP
  exact ⟨⟨["web"], ["db"], 5432, 5433⟩, Or.inl (by decide), "web", by decide, "db", by decide,
    by decide, by decide, Or.inl ⟨hNamed _ _ (by decide), hNamed _ _ (by decide), by decide,
      by decide⟩⟩

/-- The loops of a leader may run in any order and any number of times. In every
state in which none of them has anything left to do, the blueprint is enforced. -/
theorem quiet_leader_enforces (hSha : nameIndex = true ∨ Function.Injective sha256)
    (hPasses : ∀ pass ∈ passes, Addressed pass.2) {start : Database} (hStart : Addressed start)
    (hRun : Relation.ReflTransGen HostStep start view) (hLeads : Leads bp view)
    (hNames : DistinctOwners bp) (hValid : ValidHosts bp view)
    {ords ords' : Nat → MapOrder} (hPolicy : updatePolicy ords view = .ok view)
    (hSync : syncHostnamesOnce ords' view view = .ok view)
    (hTexts : Set.InjOn sha256
      (hashedTexts (getHostnameMappings .stored view) (view.rows .connection)))
    {env : MasterEnv} (hEnv : env.Reliable) {st : Server nameIndex}
    (hRuns : runMasters sha256 passes (Server.empty nameIndex) = .ok st)
    (hQuiet : runMaster sha256 env view st = .ok (st, [])) : Enforces bp view st := by
  have hView : Addressed view := hStart.run hRun
  have hDeploys : Deploys bp view :=
    hLeads.deploys hNames hValid hPolicy (SameButIPs.refl view) hSync
  obtain ⟨reached, hReached, hSound⟩ := ovnSound_empty.runs hSha hPasses
  cases hReached.symm.trans hRuns
  obtain ⟨st', calls, hPass, hConverged⟩ :=
    runMaster_converged hSound hEnv hView hDeploys.distinctNames hTexts
  cases hPass.symm.trans hQuiet
  exact hDeploys.enforces hView hTexts hConverged

theorem updatePolicy_shopView :
    updatePolicy (fun _ => .stored) shopView = .ok shopView := by
  obtain ⟨after, hApply, hApplied⟩ :=
    applyPolicy_applied (fun _ => .stored) shopView shopBlueprint
  have hSame : (applyPolicy (fun _ => .stored) shopView shopBlueprint >>= fun after =>
      .ok ([TableType.blueprint, .machine, .container, .minion, .connection, .loadBalancer, .etcd,
        .placement, .image, .hostname].map (fun tt =>
          decide (shopView.rows tt = after.rows tt)))) = .ok (List.replicate 10 true) := by
    decide +kernel
  rw [hApply] at hSame
  have hRows : shopView.rows = after.rows := by
    have hAll := Except.ok.inj hSame
    simp only [List.map_cons, List.map_nil, List.replicate, List.cons.injEq, decide_eq_true_eq,
      and_true] at hAll
    funext tt
    cases tt <;> simp only [hAll]
  rw [updatePolicy_leader (fun _ => .stored) rfl rfl rfl]
  exact hApplied.applyPolicy_again shopBlueprint_distinct.toUniqueNames hRows _

theorem syncHostnamesOnce_shopView :
    syncHostnamesOnce (fun _ => .stored) shopView shopView = .ok shopView := by
  rw [syncHostnamesOnce, if_pos (by decide)]
  exact joinHostnames_settled _
    ⟨by decide +kernel, by decide +kernel, by decide +kernel, fun _ _ _ _ _ => rfl⟩

theorem quiet_leader_enforces_shop :
    ∃ st : Server true, runMaster textBytes steady shopView st = .ok (st, []) ∧
      Enforces shopBlueprint shopView st := by
  have hNames : DistinctNames shopView := ⟨by decide, by decide⟩
  have hEmpty : OvnSound textBytes (Server.empty true) := ovnSound_empty
  obtain ⟨st, calls, hRun, hConverged⟩ := runMaster_converged hEmpty steady_reliable
    addressed_shopView hNames textBytes_injective.injOn
  have hRuns : runMasters textBytes [(steady, shopView)] (Server.empty true) = .ok st := by
    rw [runMasters, List.foldlM_cons, hRun]
    rfl
  have hQuiet := hConverged.quiet addressed_shopView hNames steady
  exact ⟨st, hQuiet, quiet_leader_enforces (Or.inl rfl) (addressed_shopPasses _) addressed_shopView
    .refl ⟨⟨_, rfl, rfl⟩, ⟨_, rfl, rfl⟩⟩ shopBlueprint_distinct shopView_valid updatePolicy_shopView
    syncHostnamesOnce_shopView textBytes_injective.injOn steady_reliable hRuns hQuiet⟩

end Leader

end Kelda.Network
