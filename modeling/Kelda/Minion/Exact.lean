import Kelda.Minion.Policy

/-! The tables after `updatePolicy`, in terms of the blueprint. The bindings
make the names of a blueprint unique; nothing is assumed about the rows that a
call finds, except that the hostnames in its connections are hostnames. -/
namespace Kelda.Minion

open DB Database

/-- The fields of a container row that the policy decides. -/
structure ContainerFields (c : Blueprint.Container) (r : Container) : Prop where
  blueprintID : r.blueprintID = c.id
  command : r.command = c.command
  env : r.env = c.env
  filepathToContent : r.filepathToContent = c.filepathToContent
  image : r.image = c.image.name
  dockerfile : r.dockerfile = c.image.dockerfile
  hostname : r.hostname = c.hostname
  privileged : r.privileged = c.privileged
  volumeMounts : r.volumeMounts = c.volumeMounts

/-- The fields of a container row that the cluster decides. -/
structure SameContainer (old r : Container) : Prop where
  id : r.id = old.id
  ip : r.ip = old.ip
  minion : r.minion = old.minion
  podName : r.podName = old.podName
  status : r.status = old.status
  created : r.created = old.created

/-- The fields of a placement, without its ID. -/
structure PlacementFields (sp : Blueprint.Placement) (p : Placement) : Prop where
  id : p.id = 0
  targetContainer : p.targetContainer = sp.targetContainer
  exclusive : p.exclusive = sp.exclusive
  otherContainer : p.otherContainer = ""
  provider : p.provider = sp.provider
  size : p.size = sp.size
  region : p.region = sp.region
  floatingIP : p.floatingIP = sp.floatingIP

theorem placementFields_iff {sp : Blueprint.Placement} {p : Placement} :
    PlacementFields sp p ↔ placementRow sp = p := by
  constructor
  · rintro ⟨h₁, h₂, h₃, h₄, h₅, h₆, h₇, h₈⟩
    cases p
    simp_all [placementRow]
  · rintro rfl
    exact ⟨rfl, rfl, rfl, rfl, rfl, rfl, rfl, rfl⟩

theorem mergeContainer_fields (c : Blueprint.Container) (r : Container) :
    ContainerFields c (mergeContainer (containerRow c) r) :=
  ⟨rfl, rfl, rfl, rfl, rfl, rfl, rfl, rfl, rfl⟩

theorem mergeContainer_same (c r : Container) : SameContainer r (mergeContainer c r) :=
  ⟨rfl, rfl, rfl, rfl, rfl, rfl⟩

/-- What a connection row says, without its ID. -/
def connectionPolicy (r : Connection) : Blueprint.Connection :=
  ⟨r.fromHosts, r.toHosts, r.minPort, r.maxPort⟩

/-- The tables hold exactly what the blueprint asks for. A row that was there
before for the same thing is kept, with the fields that the policy does not
decide. -/
structure PolicyExact (bp : Blueprint) (before after : Database) : Prop where
  connections : ∀ c, c ∈ (after.rows .connection).map connectionPolicy ↔ WantedConnection bp c
  connectionsOnce : ((after.rows .connection).map connectionPolicy).Nodup
  containers : ∀ c ∈ bp.containers, ∃ r ∈ after.rows .container, ContainerFields c r ∧
    (∀ r' ∈ after.rows .container, r'.blueprintID = c.id → r' = r) ∧
    ((∃ old ∈ before.rows .container, old.blueprintID = c.id) →
      ∃ old ∈ before.rows .container, old.blueprintID = c.id ∧ SameContainer old r)
  noOtherContainer : ∀ r ∈ after.rows .container, ∃ c ∈ bp.containers, r.blueprintID = c.id
  loadBalancers : ∀ lb ∈ bp.loadBalancers, ∃ r ∈ after.rows .loadBalancer,
    r.name = lb.name ∧ r.hostnames = lb.hostnames ∧
    (∀ r' ∈ after.rows .loadBalancer, r'.name = lb.name → r' = r) ∧
    ((∃ old ∈ before.rows .loadBalancer, old.name = lb.name) →
      ∃ old ∈ before.rows .loadBalancer, old.name = lb.name ∧ r.id = old.id ∧ r.ip = old.ip)
  noOtherLoadBalancer : ∀ r ∈ after.rows .loadBalancer, ∃ lb ∈ bp.loadBalancers, r.name = lb.name
  placements : ∀ p, p ∈ (after.rows .placement).map placementKey ↔
    PortPlacement (after.rows .connection) p ∨ ∃ sp ∈ bp.placements, PlacementFields sp p
  placementsOnce : ((after.rows .placement).map placementKey).Nodup
  images : ∀ im, im ∈ (after.rows .image).map dbImageKey ↔
    im.dockerfile ≠ "" ∧ ∃ c ∈ bp.containers, c.image = im
  imagesOnce : ((after.rows .image).map dbImageKey).Nodup
  imagesKept : ∀ r ∈ after.rows .image,
    (∃ old ∈ before.rows .image, dbImageKey old = dbImageKey r) → r ∈ before.rows .image
  others : ∀ tt ∉ [TableType.image, .container, .loadBalancer, .connection, .placement],
    after.rows tt = before.rows tt

/-- All hostnames of connections, in the blueprint and in the table, are
hostnames. -/
structure ValidHosts (bp : Blueprint) (view : Database) : Prop where
  connections : ∀ c ∈ bp.connections, ∀ h ∈ c.fromHosts ++ c.toHosts, ValidHost h
  loadBalancers : ∀ lb ∈ bp.loadBalancers, ∀ h ∈ lb.hostnames, ValidHost h
  rows : ∀ r ∈ view.rows .connection, ∀ h ∈ r.fromHosts ++ r.toHosts, ValidHost h

theorem WantedConnection.valid {bp : Blueprint} {view : Database} (hValid : ValidHosts bp view)
    {c : Blueprint.Connection} (h : WantedConnection bp c) :
    ∀ x ∈ c.fromHosts ++ c.toHosts, ValidHost x := by
  rcases h with h | ⟨c₀, hc₀, lb, hLb, -, rfl⟩
  · exact hValid.connections c h
  · intro x hx
    rcases List.mem_append.mp hx with hx | hx
    · exact hValid.connections c₀ hc₀ x (List.mem_append_left _ hx)
    · exact hValid.loadBalancers lb hLb x hx

theorem bpKey_inj {c c' : Blueprint.Connection}
    (hc : ∀ x ∈ c.fromHosts ++ c.toHosts, ValidHost x)
    (hc' : ∀ x ∈ c'.fromHosts ++ c'.toHosts, ValidHost x) (h : bpKey c = bpKey c') : c = c' := by
  simp only [List.mem_append, or_imp, forall_and] at hc hc'
  obtain ⟨hFrom, hTo, hMin, hMax⟩ := connectionKey_inj hc.1 hc'.1 hc.2 hc'.2 h
  cases c
  cases c'
  simp_all

section Exact

variable {ords : Nat → MapOrder} {bp : Blueprint} {before after : Database}
  (h : Applied ords bp before after)

include h

theorem Applied.connection_rows (hUnique : UniqueNames bp) (hValid : ValidHosts bp before)
    (c : Blueprint.Connection) :
    c ∈ (after.rows .connection).map connectionPolicy ↔ WantedConnection bp c := by
  have hRow : ∀ r ∈ after.rows .connection, ∃ c', WantedConnection bp c' ∧
      connectionPolicy r = c' := by
    intro r hr
    obtain ⟨c', hc', hKey, hOrigin⟩ := h.connections.origin r hr
    rw [mem_expandConnections hUnique.loadBalancers] at hc'
    refine ⟨c', hc', ?_⟩
    rcases hOrigin with ⟨old, hOld, -, rfl⟩ | ⟨-, id, -, rfl⟩
    · exact bpKey_inj (hValid.rows r hOld) (hc'.valid hValid) hKey
    · rfl
  constructor
  · intro hc
    obtain ⟨r, hr, rfl⟩ := List.mem_map.mp hc
    obtain ⟨c', hc', hEq⟩ := hRow r hr
    exact hEq ▸ hc'
  · intro hc
    obtain ⟨r, hr, hKey⟩ :=
      h.connections.covers c ((mem_expandConnections hUnique.loadBalancers).mpr hc)
    obtain ⟨c', hc', rfl⟩ := hRow r hr
    exact bpKey_inj (hc'.valid hValid) (hc.valid hValid) hKey ▸ List.mem_map_of_mem hr

theorem Applied.container_row (hUnique : UniqueNames bp) {c : Blueprint.Container}
    (hc : c ∈ bp.containers) :
    ∃ r ∈ after.rows .container, ContainerFields c r ∧
      (∀ r' ∈ after.rows .container, r'.blueprintID = c.id → r' = r) ∧
      ((∃ old ∈ before.rows .container, old.blueprintID = c.id) →
        ∃ old ∈ before.rows .container, old.blueprintID = c.id ∧ SameContainer old r) := by
  have hWanted : containerRow c ∈ queryContainers (ords 4) bp :=
    (mem_queryContainers hUnique.hostnames).mpr ⟨c, hc, rfl⟩
  obtain ⟨r, hr, hOnly, hOrigin⟩ := h.containers.exists_row hWanted (by
    intro d hd hKey
    obtain ⟨c', hc', rfl⟩ := queryContainers_subset hd
    rw [List.inj_on_of_nodup_map hUnique.ids hc' hc hKey])
  refine ⟨r, hr, ?_, hOnly, ?_⟩
  · rcases hOrigin with ⟨old, -, -, rfl⟩ | ⟨-, id, -, rfl⟩
    · exact mergeContainer_fields c old
    · exact mergeContainer_fields c _
  · rintro ⟨old, hOld, hKey⟩
    rcases hOrigin with ⟨old', hOld', hKey', rfl⟩ | ⟨hNone, -⟩
    · exact ⟨old', hOld', hKey', mergeContainer_same _ _⟩
    · exact (hNone old hOld hKey).elim

theorem Applied.loadBalancer_row (hUnique : UniqueNames bp) {lb : Blueprint.LoadBalancer}
    (hLb : lb ∈ bp.loadBalancers) :
    ∃ r ∈ after.rows .loadBalancer, r.name = lb.name ∧ r.hostnames = lb.hostnames ∧
      (∀ r' ∈ after.rows .loadBalancer, r'.name = lb.name → r' = r) ∧
      ((∃ old ∈ before.rows .loadBalancer, old.name = lb.name) →
        ∃ old ∈ before.rows .loadBalancer, old.name = lb.name ∧ r.id = old.id ∧ r.ip = old.ip) := by
  obtain ⟨r, hr, hOnly, hOrigin⟩ := h.loadBalancers.exists_row (List.mem_map_of_mem hLb) (by
    intro d hd hKey
    obtain ⟨lb', hLb', rfl⟩ := List.mem_map.mp hd
    rw [List.inj_on_of_nodup_map hUnique.loadBalancers hLb' hLb hKey])
  refine ⟨r, hr, ?_, ?_, hOnly, ?_⟩
  · rcases hOrigin with ⟨old, -, -, rfl⟩ | ⟨-, id, -, rfl⟩ <;> rfl
  · rcases hOrigin with ⟨old, -, -, rfl⟩ | ⟨-, id, -, rfl⟩ <;> rfl
  · rintro ⟨old, hOld, hKey⟩
    rcases hOrigin with ⟨old', hOld', hKey', rfl⟩ | ⟨hNone, -⟩
    · exact ⟨old', hOld', hKey', rfl, rfl⟩
    · exact (hNone old hOld hKey).elim

theorem Applied.placement_rows (p : Placement) :
    p ∈ (after.rows .placement).map placementKey ↔
      PortPlacement (after.rows .connection) p ∨ ∃ sp ∈ bp.placements, PlacementFields sp p := by
  obtain ⟨connections, hPerm, hRows⟩ := h.placements
  simp only [placementFields_iff, ← List.mem_map]
  have hWanted : ∀ p, p ∈ wantedPlacements (ords 12) connections bp ↔
      PortPlacement (after.rows .connection) p ∨ p ∈ bp.placements.map placementRow := by
    intro p
    rw [wantedPlacements, List.mem_append, mem_portPlacements]
    exact or_congr_left ⟨PortPlacement.perm hPerm, PortPlacement.perm hPerm.symm⟩
  have hSelf : ∀ p ∈ wantedPlacements (ords 12) connections bp, placementKey p = p := by
    intro p hp
    rcases (hWanted p).mp hp with ⟨_, _, _, -, -, rfl⟩ | hp
    · rfl
    · obtain ⟨sp, -, rfl⟩ := List.mem_map.mp hp
      rfl
  rw [← hWanted, List.mem_map]
  constructor
  · rintro ⟨r, hr, rfl⟩
    obtain ⟨d, hd, hKey, -⟩ := hRows.origin r hr
    rwa [hKey, hSelf d hd]
  · intro hp
    obtain ⟨r, hr, hKey⟩ := hRows.covers p hp
    exact ⟨r, hr, hKey.trans (hSelf p hp)⟩

theorem Applied.image_rows (im : Blueprint.Image) :
    im ∈ (after.rows .image).map dbImageKey ↔
      im.dockerfile ≠ "" ∧ ∃ c ∈ bp.containers, c.image = im := by
  rw [← mem_queryImages, List.mem_map]
  constructor
  · rintro ⟨r, hr, rfl⟩
    obtain ⟨d, hd, hKey, -⟩ := h.images.origin r hr
    exact hKey ▸ hd
  · exact fun hIm => h.images.covers im hIm

theorem Applied.exact (hUnique : UniqueNames bp) (hValid : ValidHosts bp before) :
    PolicyExact bp before after where
  connections := h.connection_rows hUnique hValid
  connectionsOnce := by
    have hKeys : (after.rows .connection).map dbcKey =
        ((after.rows .connection).map connectionPolicy).map bpKey := by
      rw [List.map_map]
      rfl
    exact (hKeys ▸ h.connections.keys).of_map _
  containers := fun c hc => h.container_row hUnique hc
  noOtherContainer := fun r hr => by
    obtain ⟨d, hd, hKey, -⟩ := h.containers.origin r hr
    obtain ⟨c, hc, rfl⟩ := queryContainers_subset hd
    exact ⟨c, hc, hKey⟩
  loadBalancers := fun lb hLb => h.loadBalancer_row hUnique hLb
  noOtherLoadBalancer := fun r hr => by
    obtain ⟨d, hd, hKey, -⟩ := h.loadBalancers.origin r hr
    obtain ⟨lb, hLb, rfl⟩ := List.mem_map.mp hd
    exact ⟨lb, hLb, hKey⟩
  placements := h.placement_rows
  placementsOnce := by
    obtain ⟨connections, -, hRows⟩ := h.placements
    exact hRows.keys
  images := h.image_rows
  imagesOnce := h.images.keys
  imagesKept := fun r hr => by
    rintro ⟨old, hOld, hKey⟩
    obtain ⟨d, hd, hKey', hOrigin⟩ := h.images.origin r hr
    rcases hOrigin with ⟨old', hOld', -, rfl⟩ | ⟨hNone, -⟩
    · exact hOld'
    · exact (hNone old hOld (hKey.trans hKey')).elim
  others := h.others

end Exact

/-- A leader with one blueprint runs the five functions. -/
theorem updatePolicy_leader (ords : Nat → MapOrder) {view : Database} {etcd : Etcd}
    {bpRow : BlueprintRow} (hEtcd : view.rows .etcd = [etcd]) (hLeader : etcd.leader = true)
    (hBlueprint : view.rows .blueprint = [bpRow]) :
    updatePolicy ords view = applyPolicy ords view bpRow.blueprint := by
  have hIsLeader : etcdLeader (ords 0) view = true := by
    simpa [etcdLeader, view.selectAll_single hEtcd] using hLeader
  rw [updatePolicy, if_pos hIsLeader, getBlueprint_single hBlueprint]
  rfl

/-- For a leader `updatePolicy` is exact, from any content of the tables, and a
later call on the same rows changes nothing. -/
theorem updatePolicy_exact_idempotent (ords : Nat → MapOrder) (view : Database) (etcd : Etcd)
    (bpRow : BlueprintRow) (hEtcd : view.rows .etcd = [etcd]) (hLeader : etcd.leader = true)
    (hBlueprint : view.rows .blueprint = [bpRow]) (hUnique : UniqueNames bpRow.blueprint)
    (hValid : ValidHosts bpRow.blueprint view) :
    ∃ view', updatePolicy ords view = .ok view' ∧ PolicyExact bpRow.blueprint view view' ∧
      ∀ (ords' : Nat → MapOrder) (later : Database), later.rows = view'.rows →
        updatePolicy ords' later = .ok later := by
  obtain ⟨view', hApply, hApplied⟩ := applyPolicy_applied ords view bpRow.blueprint
  refine ⟨view', ?_, hApplied.exact hUnique hValid, ?_⟩
  · rw [updatePolicy_leader ords hEtcd hLeader hBlueprint, hApply]
  · intro ords' later hRows
    have hOther : ∀ tt ∉ [TableType.image, .container, .loadBalancer, .connection, .placement],
        later.rows tt = view.rows tt := fun tt h => by rw [hRows, hApplied.others tt h]
    rw [updatePolicy_leader ords' ((hOther .etcd (by decide)).trans hEtcd) hLeader
      ((hOther .blueprint (by decide)).trans hBlueprint)]
    exact hApplied.applyPolicy_again hUnique hRows ords'

/-- A web server behind a load balancer, open to the public on one port. -/
def sampleBlueprint : Blueprint where
  containers := [⟨"1a", ⟨"nginx", "FROM nginx"⟩, ["serve"], ∅, ∅, "web", false, []⟩]
  loadBalancers := [⟨"lb", ["web"]⟩]
  connections := [⟨["public"], ["lb"], 80, 80⟩]
  placements := [⟨"web", false, "Amazon", "m4.large", "", ""⟩]
  machines := []

/-- A leader whose tables hold repeated rows, one of them with an address. -/
def sampleView : Database where
  rows
    | .blueprint => [⟨1, sampleBlueprint⟩]
    | .etcd => [{ id := 2, leader := true }]
    | .container => [{ id := 3, blueprintID := "1a", ip := "10.0.0.9" },
        { id := 4, blueprintID := "1a" }, { id := 5, blueprintID := "gone" }]
    | .connection => [{ id := 6, fromHosts := ["public"], toHosts := ["web"] },
        { id := 7, fromHosts := ["public"], toHosts := ["web"] }]
    | _ => []
  shouldAlert := fun _ => false
  curID := 7
  nodup := fun tt => by cases tt <;> decide
  bounded := fun tt => by cases tt <;> decide

theorem updatePolicy_exact_idempotent_sample :
    ∃ view', updatePolicy (fun _ => MapOrder.reversed) sampleView = .ok view' ∧
      PolicyExact sampleBlueprint sampleView view' ∧
      ∀ (ords' : Nat → MapOrder) (later : Database), later.rows = view'.rows →
        updatePolicy ords' later = .ok later :=
  updatePolicy_exact_idempotent (fun _ => MapOrder.reversed) sampleView
    { id := 2, leader := true } ⟨1, sampleBlueprint⟩ rfl rfl rfl
    ⟨by decide, by decide, by decide⟩ ⟨by decide +kernel, by decide +kernel, by decide +kernel⟩

end Kelda.Minion
