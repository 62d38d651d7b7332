import Kelda.Etcd.Replicate
import Kelda.Network.AddressSets
import Kelda.Network.UniqueIPs

/-! The names of the cluster. The leader joins the Hostname table with the load
balancers and containers that have an address. The table lags behind those two,
but in every state of a run the map that is read from it is one to one, and its
addresses are addresses of containers. -/
namespace Kelda.Network

open DB Join Minion Database Allocation
open Etcd (hostnameKey renumberHostname)

section Join

/-- The rows that the leader wants: first the load balancers, then the containers. -/
def targetHostnames (ords : Nat → MapOrder) (view : Database) : List Hostname :=
  ((view.selectAll (ords 0) .loadBalancer).filter (fun lb => lb.ip ≠ "")).map
      (fun lb => { id := 0, hostname := lb.name, ip := lb.ip }) ++
    ((view.selectAll (ords 1) .container).filter (fun c => c.hostname ≠ "" ∧ c.ip ≠ "")).map
      (fun c => { id := 0, hostname := c.hostname, ip := c.ip })

def joinHostnames (ords : Nat → MapOrder) (view : Database) : Except String Database :=
  let res := hashJoin (ords 3) (targetHostnames ords view) (view.selectAll (ords 2) .hostname)
    hostnameKey hostnameKey
  (view.removeAll .hostname res.lonelyRights).addAll .hostname renumberHostname res.lonelyLefts

/-- Whether the minion leads is read by a transaction of its own, when the database
is `seen`. -/
def syncHostnamesOnce (ords : Nat → MapOrder) (seen view : Database) : Except String Database :=
  if etcdLeader (ords 0) seen then joinHostnames (laterOrders ords 1) view else .ok view

/-- The names that have an address, by the rows of their owners. -/
inductive Named (view : Database) : String → String → Prop where
  | loadBalancer {lb : LoadBalancer} (h : lb ∈ view.rows .loadBalancer) (hIP : lb.ip ≠ "") :
      Named view lb.name lb.ip
  | container {c : Container} (h : c ∈ view.rows .container) (hName : c.hostname ≠ "")
      (hIP : c.ip ≠ "") : Named view c.hostname c.ip

variable {ords : Nat → MapOrder} {view : Database}

theorem mem_targetHostnames {h : Hostname} :
    h ∈ targetHostnames ords view ↔ h.id = 0 ∧ Named view h.hostname h.ip := by
  rw [targetHostnames, List.mem_append, List.mem_map, List.mem_map]
  constructor
  · rintro (⟨lb, hLb, rfl⟩ | ⟨c, hc, rfl⟩)
    · obtain ⟨hRow, hIP⟩ := List.mem_filter.mp hLb
      exact ⟨rfl, .loadBalancer (view.mem_selectAll.mp hRow) (of_decide_eq_true hIP)⟩
    · obtain ⟨hRow, hSome⟩ := List.mem_filter.mp hc
      obtain ⟨hName, hIP⟩ := of_decide_eq_true hSome
      exact ⟨rfl, .container (view.mem_selectAll.mp hRow) hName hIP⟩
  · rintro ⟨hID, hNamed⟩
    obtain ⟨id, name, ip⟩ := h
    obtain rfl : id = 0 := hID
    cases hNamed with
    | @loadBalancer lb hRow hIP =>
        exact Or.inl ⟨lb, List.mem_filter.mpr ⟨view.mem_selectAll.mpr hRow, decide_eq_true hIP⟩, rfl⟩
    | @container c hRow hName hIP =>
        exact Or.inr ⟨c, List.mem_filter.mpr ⟨view.mem_selectAll.mpr hRow,
          decide_eq_true ⟨hName, hIP⟩⟩, rfl⟩

theorem joinHostnames_reconciled (ords : Nat → MapOrder) (view : Database) :
    ∃ view', joinHostnames ords view = .ok view' ∧
      Reconciled .hostname hostnameKey hostnameKey (fun _ r => r) renumberHostname
        (targetHostnames ords view) (view.rows .hostname) view.curID (view'.rows .hostname) ∧
      Touches .hostname view view' :=
  removeAll_addAll_reconciled .hostname view renumberHostname
    (hashJoin_reconciles (ords 3) (targetHostnames ords view) (view.selectAll (ords 2) .hostname)
      hostnameKey hostnameKey)
    (view.selectAll_perm _ _) (fun _ _ => rfl) (fun _ _ => rfl)

theorem joinHostnames_settled (ords : Nat → MapOrder) {view : Database}
    (h : Settled .hostname hostnameKey hostnameKey (fun _ r => r) (targetHostnames ords view)
      (view.rows .hostname)) : joinHostnames ords view = .ok view := by
  obtain ⟨hLefts, hRights⟩ := (h.perm (view.selectAll_perm (ords 2) .hostname)).nothing_lonely
    (hashJoin_reconciles (ords 3) (targetHostnames ords view) _ hostnameKey hostnameKey)
  rw [joinHostnames, hLefts, hRights]
  rfl

/-- The table holds the names of another view, each once. -/
structure HoldsNames (view : Database) (rows : List Hostname) : Prop where
  keys : (rows.map hostnameKey).Nodup
  names : ∀ name ip, (∃ r ∈ rows, r.hostname = name ∧ r.ip = ip) ↔ Named view name ip

theorem HoldsNames.named {rows : List Hostname} (h : HoldsNames view rows) {r : Hostname}
    (hr : r ∈ rows) : Named view r.hostname r.ip :=
  (h.names _ _).mp ⟨r, hr, rfl, rfl⟩

theorem HoldsNames.eq_of_fields {rows : List Hostname} (h : HoldsNames view rows)
    {r r' : Hostname} (hr : r ∈ rows) (hr' : r' ∈ rows) (hName : r.hostname = r'.hostname)
    (hIP : r.ip = r'.ip) : r = r' := by
  refine List.inj_on_of_nodup_map h.keys hr hr' ?_
  rw [hostnameKey, hostnameKey, hName, hIP]

/-- Where no name has two addresses, none has two rows. -/
theorem HoldsNames.nodup_names {rows : List Hostname} (h : HoldsNames view rows)
    (hUnique : ∀ name ip ip', Named view name ip → Named view name ip' → ip = ip') :
    (rows.map Hostname.hostname).Nodup :=
  (h.keys.of_map _).map_on (fun _ hr _ hr' hName => h.eq_of_fields hr hr' hName
    (hUnique _ _ _ (h.named hr) (hName ▸ h.named hr')))

theorem Named.congr {view' : Database} {name ip : String}
    (hLb : view'.rows .loadBalancer = view.rows .loadBalancer)
    (hC : view'.rows .container = view.rows .container) :
    Named view' name ip ↔ Named view name ip := by
  constructor
  · rintro (⟨h, hIP⟩ | ⟨h, hName, hIP⟩)
    · exact .loadBalancer (hLb ▸ h) hIP
    · exact .container (hC ▸ h) hName hIP
  · rintro (⟨h, hIP⟩ | ⟨h, hName, hIP⟩)
    · exact .loadBalancer (hLb.symm ▸ h) hIP
    · exact .container (hC.symm ▸ h) hName hIP

theorem holdsNames_of_reconciled {before after : List Hostname} {curID : Nat}
    (h : Reconciled .hostname hostnameKey hostnameKey (fun _ r => r) renumberHostname
      (targetHostnames ords view) before curID after) : HoldsNames view after := by
  refine ⟨h.keys, fun name ip => ⟨?_, fun hNamed => ?_⟩⟩
  · rintro ⟨r, hr, rfl, rfl⟩
    obtain ⟨d, hd, hKey, -⟩ := h.origin r hr
    obtain ⟨-, hName, hIP⟩ := Hostname.mk.injEq .. ▸ hKey
    rw [hName, hIP]
    exact (mem_targetHostnames.mp hd).2
  · obtain ⟨r, hr, hKey⟩ := h.covers ⟨0, name, ip⟩ (mem_targetHostnames.mpr ⟨rfl, hNamed⟩)
    obtain ⟨-, hName, hIP⟩ := Hostname.mk.injEq .. ▸ hKey
    exact ⟨r, hr, hName, hIP⟩

theorem joinHostnames_holds (ords : Nat → MapOrder) (view : Database) :
    ∃ view', joinHostnames ords view = .ok view' ∧ Touches .hostname view view' ∧
      HoldsNames view (view'.rows .hostname) := by
  obtain ⟨view', hRun, hRec, hTouches⟩ := joinHostnames_reconciled ords view
  exact ⟨view', hRun, hTouches, holdsNames_of_reconciled hRec⟩

/-- Whatever the table held, a leader makes it hold exactly the names that have an
address. Rows that were right keep their IDs, no other table is touched, and the
next run, in any order, changes nothing. -/
theorem syncHostnamesOnce_exact (ords : Nat → MapOrder) (seen view : Database)
    (hLeader : etcdLeader (ords 0) seen = true) :
    ∃ view', syncHostnamesOnce ords seen view = .ok view' ∧ Touches .hostname view view' ∧
      HoldsNames view (view'.rows .hostname) ∧
      (∀ r ∈ view'.rows .hostname, r ∈ view.rows .hostname ∨ view.curID < r.id) ∧
      ∀ ords' seen' later, later.rows = view'.rows →
        syncHostnamesOnce ords' seen' later = .ok later := by
  obtain ⟨view', hRun, hRec, hTouches⟩ := joinHostnames_reconciled (laterOrders ords 1) view
  have hOnce : syncHostnamesOnce ords seen view = .ok view' := by
    rw [syncHostnamesOnce, hLeader, if_pos rfl, hRun]
  refine ⟨view', hOnce, hTouches, holdsNames_of_reconciled hRec, fun r hr => ?_,
    fun ords' seen' later hRows => ?_⟩
  · obtain ⟨d, -, -, ⟨old, hOld, -, rfl⟩ | ⟨-, id, hId, rfl⟩⟩ := hRec.origin r hr
    · exact Or.inl hOld
    · exact Or.inr hId
  · rw [syncHostnamesOnce]
    split_ifs
    · apply joinHostnames_settled
      rw [hRows]
      refine hRec.settled (fun d => ?_) (fun _ _ _ _ _ _ => ⟨rfl, rfl⟩)
      rw [mem_targetHostnames, mem_targetHostnames, Named.congr]
      · rw [hRows, hTouches.rows _ (by decide)]
      · rw [hRows, hTouches.rows _ (by decide)]
    · rfl

theorem syncHostnamesOnce_exact_stale :
    ∃ view', syncHostnamesOnce (fun _ => .stored) staleView staleView = .ok view' ∧
      HoldsNames staleView (view'.rows .hostname) := by
  have hLeader : etcdLeader .stored staleView = true := by decide
  obtain ⟨view', hRun, -, hNames, -⟩ :=
    syncHostnamesOnce_exact (fun _ => .stored) staleView staleView hLeader
  exact ⟨view', hRun, hNames⟩

end Join

section Mappings

/-- The map from names to addresses. A later row replaces an earlier one with the
same name. -/
def getHostnameMappings (ord : MapOrder) (view : Database) (name : String) : Option String :=
  ((view.selectAll ord .hostname).foldl (fun m h => m.insert h.hostname h.ip)
    (∅ : StringMap String)).lookup name

theorem exists_row_of_lookup {rows : List Hostname} {name ip : String}
    (h : (rows.foldl (fun m h => m.insert h.hostname h.ip) (∅ : StringMap String)).lookup name =
      some ip) : ∃ r ∈ rows, r.hostname = name ∧ r.ip = ip := by
  induction rows using List.reverseRecOn with
  | nil => simp at h
  | append_singleton rows r ih =>
      rw [List.foldl_append, List.foldl_cons, List.foldl_nil] at h
      by_cases hName : name = r.hostname
      · rw [hName, Finmap.lookup_insert] at h
        exact ⟨r, by simp, hName.symm, Option.some.inj h⟩
      · rw [Finmap.lookup_insert_of_ne _ hName] at h
        obtain ⟨r', hr', hEq⟩ := ih h
        exact ⟨r', List.mem_append_left _ hr', hEq⟩

variable {ord : MapOrder} {view : Database} {name ip : String}

theorem exists_row_of_mapping (h : getHostnameMappings ord view name = some ip) :
    ∃ r ∈ view.rows .hostname, r.hostname = name ∧ r.ip = ip := by
  obtain ⟨r, hr, hEq⟩ := exists_row_of_lookup h
  exact ⟨r, view.mem_selectAll.mp hr, hEq⟩

/-- If no name has two rows, every row is found. -/
theorem mapping_eq_some_iff (hNames : ((view.rows .hostname).map Hostname.hostname).Nodup) :
    getHostnameMappings ord view name = some ip ↔
      ∃ r ∈ view.rows .hostname, r.hostname = name ∧ r.ip = ip := by
  have hPerm := view.selectAll_perm ord .hostname
  rw [getHostnameMappings,
    StringKeyed.lookup_foldl_insert ((hPerm.map Hostname.hostname).nodup_iff.mpr hNames)]
  simp only [view.mem_selectAll]

end Mappings

section Runs

/-- The addresses of the table of names: no two rows share one, and each is the
text of an address of the container subnet. -/
structure Resolvable (rows : List Hostname) : Prop where
  distinct : (rows.map Hostname.ip).Nodup
  kelda : ∀ r ∈ rows, r.ip ∈ keldaAddresses

/-- What holds of the addresses of a leader in every state. -/
structure Addressed (view : Database) : Prop where
  unique : UniqueIPs view
  kelda : ∀ ip ∈ assignedIPs view, ip ∈ keldaAddresses
  hostnames : Resolvable (view.rows .hostname)

/-- The steps of a minion: those of a leader, the rows that it takes over from
another one, and changes of the other tables. -/
inductive HostStep : Database → Database → Prop where
  | policy {ords : Nat → MapOrder} {view view' : Database}
      (h : updatePolicy ords view = .ok view') : HostStep view view'
  | addresses {ords : Nat → MapOrder} {rand32 : Nat → UInt32} {view view' : Database}
      (h : updateIPsOnce ords rand32 view = .ok (none, view')) : HostStep view view'
  | hostnames {ords : Nat → MapOrder} {seen view view' : Database}
      (h : syncHostnamesOnce ords seen view = .ok view') : HostStep view view'
  | copy {ords : Nat → MapOrder} {etcdRows : List Hostname} {view view' : Database}
      (hRows : Resolvable etcdRows) (h : Etcd.joinHostnames ords view etcdRows = .ok view') :
      HostStep view view'
  | other {view view' : Database} (h : ∀ o : Owner, view'.rows o.table = view.rows o.table)
      (hNames : view'.rows .hostname = view.rows .hostname) : HostStep view view'

variable {view view' : Database}

theorem mem_assignedIPs {ip : String} :
    ip ∈ assignedIPs view ↔ ip ≠ "" ∧ ∃ e ∈ owners view, e.2 = ip := by
  rw [assignedIPs_eq, List.mem_filter, List.mem_map, decide_eq_true_eq, and_comm]

/-- A name belongs to the owner of its address. -/
def Owner.hostname : (o : Owner) → RowOf o.table → String
  | .container, r => Container.hostname r
  | .loadBalancer, r => LoadBalancer.name r

theorem Named.exists_owner {name ip : String} (h : Named view name ip) :
    ∃ (o : Owner) (r : RowOf o.table), r ∈ view.rows o.table ∧ o.hostname r = name ∧
      o.ip r = ip ∧ ip ≠ "" := by
  cases h with
  | @loadBalancer lb hRow hIP => exact ⟨.loadBalancer, lb, hRow, rfl, rfl, hIP⟩
  | @container c hRow hName hIP => exact ⟨.container, c, hRow, rfl, rfl, hIP⟩

theorem Named.mem_assignedIPs {name ip : String} (h : Named view name ip) :
    ip ∈ assignedIPs view := by
  obtain ⟨o, r, hr, -, rfl, hSome⟩ := h.exists_owner
  exact Network.mem_assignedIPs.mpr ⟨hSome, _, Owner.mem_owners hr, rfl⟩

theorem Named.inj (hUnique : UniqueIPs view) {name name' ip : String} (h : Named view name ip)
    (h' : Named view name' ip) : name = name' := by
  obtain ⟨o, r, hr, rfl, rfl, hSome⟩ := h.exists_owner
  obtain ⟨o', r', hr', rfl, hIP, -⟩ := h'.exists_owner
  have hKey : o.key r = o'.key r' := (uniqueIPs_iff.mp hUnique _ (Owner.mem_owners hr) hSome).2 _
    (Owner.mem_owners hr') hIP.symm
  obtain ⟨rfl, hID⟩ := Prod.mk.inj hKey
  rw [view.eq_of_getID_eq hr hr' hID]

/-- Rows that hold the names of a leader are resolvable. -/
theorem HoldsNames.resolvable {rows : List Hostname} (h : HoldsNames view rows)
    (hUnique : UniqueIPs view) (hKelda : ∀ ip ∈ assignedIPs view, ip ∈ keldaAddresses) :
    Resolvable rows := by
  refine ⟨?_, fun r hr => hKelda _ (h.named hr).mem_assignedIPs⟩
  exact (h.keys.of_map _).map_on (fun r hr r' hr' hIP =>
    h.eq_of_fields hr hr' ((h.named hr).inj hUnique (hIP ▸ h.named hr')) hIP)

/-- The policy has no part in the table of names. -/
theorem updatePolicy_hostnames {ords : Nat → MapOrder} (h : updatePolicy ords view = .ok view') :
    view'.rows .hostname = view.rows .hostname := by
  rw [updatePolicy] at h
  split_ifs at h
  · obtain ⟨found, hFound, hRest⟩ := Except.exists_of_bind_eq_ok h
    cases found with
    | error err =>
        cases hRest
        rfl
    | ok bpRow =>
        obtain ⟨after, hApply, hApplied⟩ := applyPolicy_applied ords view bpRow.blueprint
        cases hApply.symm.trans hRest
        exact hApplied.others _ (by decide)
  · cases h
    rfl

theorem Addressed.policy {ords : Nat → MapOrder} (hView : Addressed view)
    (h : updatePolicy ords view = .ok view') : Addressed view' := by
  refine ⟨hView.unique.policy h, fun ip hip => ?_, ?_⟩
  · obtain ⟨hSome, e, he, rfl⟩ := mem_assignedIPs.mp hip
    exact hView.kelda _ (mem_assignedIPs.mpr ⟨hSome, e, updatePolicy_owners h he hSome, rfl⟩)
  · rw [updatePolicy_hostnames h]
    exact hView.hostnames

/-- An address is kept, or it is a new one of the subnet. -/
theorem Addressed.addresses {ords : Nat → MapOrder} {rand32 : Nat → UInt32}
    (hView : Addressed view) (h : updateIPsOnce ords rand32 view = .ok (none, view')) :
    Addressed view' := by
  obtain ⟨err, after, hRun, hSame, hBad, hGood⟩ := updateIPsOnce_refines ords rand32 view
  cases hRun.symm.trans h
  have hAttempts := hGood (fun h => (hBad h).1 rfl)
  obtain ⟨hKept, -⟩ := hAttempts.outcome (Kept.refl (nodup_owners view)) (by omega)
  refine ⟨hView.unique.addresses h, fun ip hip => ?_, ?_⟩
  · obtain ⟨hSome, e, he, rfl⟩ := mem_assignedIPs.mp hip
    rcases hKept.origin e he with hOld | ⟨-, hPool, -⟩
    · exact hView.kelda _ (mem_assignedIPs.mpr ⟨hSome, e, hOld, rfl⟩)
    · exact hPool
  · rw [hSame.others .hostname (fun o => by cases o <;> decide)]
    exact hView.hostnames

/-- A step that leaves the owners alone only has to keep the table of names. -/
theorem Addressed.of_owners (hView : Addressed view)
    (h : ∀ o : Owner, view'.rows o.table = view.rows o.table)
    (hNames : Resolvable (view'.rows .hostname)) : Addressed view' := by
  have hSame : owners view' = owners view := by
    simp only [owners, List.flatMap_cons, h]
  refine ⟨hView.unique.step (.other h), fun ip hip => ?_, hNames⟩
  rw [assignedIPs_eq, hSame, ← assignedIPs_eq] at hip
  exact hView.kelda ip hip

theorem Addressed.hostnames_step {ords : Nat → MapOrder} {seen : Database} (hView : Addressed view)
    (h : syncHostnamesOnce ords seen view = .ok view') : Addressed view' := by
  rw [syncHostnamesOnce] at h
  split_ifs at h
  · obtain ⟨after, hRun, hTouches, hHolds⟩ := joinHostnames_holds (laterOrders ords 1) view
    cases hRun.symm.trans h
    refine hView.of_owners (fun o => hTouches.rows _ (by cases o <;> decide)) ?_
    exact hHolds.resolvable hView.unique hView.kelda
  · cases h
    exact hView

theorem Resolvable.keys {rows : List Hostname} (h : Resolvable rows) :
    (rows.map hostnameKey).Nodup := by
  apply List.Nodup.of_map Hostname.ip
  rw [List.map_map]
  exact h.distinct

theorem Resolvable.of_perm {rows rows' : List Hostname} (h : Resolvable rows)
    (hPerm : (rows'.map hostnameKey).Perm (rows.map hostnameKey)) : Resolvable rows' := by
  have hIPs : (rows'.map Hostname.ip).Perm (rows.map Hostname.ip) := by
    have hMap := hPerm.map Hostname.ip
    rwa [List.map_map, List.map_map] at hMap
  refine ⟨hIPs.nodup_iff.mpr h.distinct, fun r hr => ?_⟩
  obtain ⟨r', hr', hIP⟩ := List.mem_map.mp (hIPs.mem_iff.mp (List.mem_map_of_mem hr))
  exact hIP ▸ h.kelda r' hr'

theorem Addressed.copy {ords : Nat → MapOrder} {etcdRows : List Hostname} (hView : Addressed view)
    (hRows : Resolvable etcdRows) (h : Etcd.joinHostnames ords view etcdRows = .ok view') :
    Addressed view' := by
  obtain ⟨after, hRun, hTouches, hCopied, -⟩ := Etcd.joinRows_copies .hostname renumberHostname
    hostnameKey (fun r => r) hView.hostnames.keys hRows.keys (fun _ => rfl) (fun _ _ => rfl)
    (fun _ _ => rfl) (fun _ _ _ _ hKey => hKey) ords
  cases hRun.symm.trans h
  exact hView.of_owners (fun o => hTouches.rows _ (by cases o <;> decide)) (hRows.of_perm hCopied)

theorem Addressed.step (hView : Addressed view) (h : HostStep view view') : Addressed view' := by
  cases h with
  | policy h => exact hView.policy h
  | addresses h => exact hView.addresses h
  | hostnames h => exact hView.hostnames_step h
  | copy hRows h => exact hView.copy hRows h
  | other h hNames => exact hView.of_owners h (hNames ▸ hView.hostnames)

theorem Addressed.run {start : Database} (hStart : Addressed start)
    (hRun : Relation.ReflTransGen HostStep start view) : Addressed view := by
  induction hRun with
  | refl => exact hStart
  | tail _ hStep ih => exact ih.step hStep

theorem Addressed.injectiveHosts (hView : Addressed view) (ord : MapOrder) :
    InjectiveHosts (getHostnameMappings ord view) := by
  intro name name' ip h h'
  obtain ⟨r, hr, rfl, rfl⟩ := exists_row_of_mapping h
  obtain ⟨r', hr', rfl, hIP⟩ := exists_row_of_mapping h'
  rw [List.inj_on_of_nodup_map hView.hostnames.distinct hr hr' hIP.symm]

theorem Addressed.keldaHosts (hView : Addressed view) (ord : MapOrder) :
    KeldaHosts (getHostnameMappings ord view) := by
  intro name ip h
  obtain ⟨r, hr, -, rfl⟩ := exists_row_of_mapping h
  exact mem_keldaAddresses.mp (hView.hostnames.kelda r hr)

/-- In every state of every run, the map that is read from the table of names is
one to one into the addresses of the container subnet. The table itself may be
behind the rows that it was made from. -/
theorem hostnameMappings_run {start : Database} (hStart : Addressed start)
    (hRun : Relation.ReflTransGen HostStep start view) (ord : MapOrder) :
    InjectiveHosts (getHostnameMappings ord view) ∧ KeldaHosts (getHostnameMappings ord view) :=
  ⟨(hStart.run hRun).injectiveHosts ord, (hStart.run hRun).keldaHosts ord⟩

theorem addressed_staleView : Addressed staleView := by
  refine ⟨⟨by decide, by decide⟩, fun ip hip => mem_keldaAddresses.mpr ?_, ⟨List.nodup_nil, by
    simp [staleView]⟩⟩
  have hAll : ip ∈ ["10.128.0.9", "10.0.0.7"] := hip
  rcases List.mem_cons.mp hAll with rfl | hLast
  · exact ⟨⟨10, 128, 0, 9⟩, rfl, by decide⟩
  · rw [List.mem_singleton.mp hLast]
    exact ⟨⟨10, 0, 0, 7⟩, rfl, by decide⟩

/-- A new leader goes through its three steps once. -/
theorem hostnameMappings_run_stale :
    ∃ view, Relation.ReflTransGen HostStep staleView view ∧
      getHostnameMappings .stored view "lb" = some "10.0.0.8" ∧
      InjectiveHosts (getHostnameMappings .stored view) := by
  have hRun : (updatePolicy (fun _ => .stored) staleView >>= fun mid =>
      updateIPsOnce (fun _ => .stored) (fun _ => 7) mid >>= fun res =>
        syncHostnamesOnce (fun _ => .stored) res.2 res.2 >>= fun view =>
          .ok (res.1, getHostnameMappings .stored view "lb")) = .ok (none, some "10.0.0.8") := by
    decide +kernel
  obtain ⟨mid, hPolicy, hRun⟩ := Except.exists_of_bind_eq_ok hRun
  obtain ⟨⟨err, named⟩, hAddresses, hRun⟩ := Except.exists_of_bind_eq_ok hRun
  obtain ⟨view, hNames, hRun⟩ := Except.exists_of_bind_eq_ok hRun
  obtain ⟨rfl, hMapping⟩ := Prod.mk.inj (Except.ok.inj hRun)
  have hSteps : Relation.ReflTransGen HostStep staleView view :=
    ((Relation.ReflTransGen.single (.policy hPolicy)).tail (.addresses hAddresses)).tail
      (.hostnames hNames)
  exact ⟨view, hSteps, hMapping, (hostnameMappings_run addressed_staleView hSteps .stored).1⟩

end Runs

end Kelda.Network
