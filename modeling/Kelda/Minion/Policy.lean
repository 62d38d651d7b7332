import Kelda.Minion.Reconcile
import Kelda.Minion.Wanted

/-! The outcome of `updatePolicy`. Each of the five tables is reconciled by its
own function; together they are exact, and a second call changes nothing. -/
namespace Kelda.Minion

open DB Join Database

section Tables

variable (ords : Nat → MapOrder) (view : Database) (bp : Blueprint)

theorem updateImages_reconciled :
    ∃ view', updateImages ords view bp = .ok view' ∧
      Reconciled .image id dbImageKey (fun _ r => r) fillImage (queryImages bp)
        (view.rows .image) view.curID (view'.rows .image) ∧ Touches .image view view' := by
  obtain ⟨mid, hAdd, h⟩ := addAll_removeAll_reconciled .image view fillImage
    (hashJoin_reconciles (ords 1) (queryImages bp) (view.selectAll (ords 0) .image) id dbImageKey)
    (view.selectAll_perm _ _) (fun _ _ => rfl) (fun _ _ => rfl)
  refine ⟨_, ?_, h⟩
  rw [updateImages, hAdd]
  rfl

theorem updateContainers_reconciled :
    ∃ view', updateContainers ords view bp = .ok view' ∧
      Reconciled .container Container.blueprintID Container.blueprintID mergeContainer
        mergeContainer (queryContainers (ords 0) bp) (view.rows .container) view.curID
        (view'.rows .container) ∧ Touches .container view view' :=
  commitAll_reconciled .container view
    (hashJoin_reconciles (ords 2) (queryContainers (ords 0) bp) (view.selectAll (ords 1) .container)
      Container.blueprintID Container.blueprintID)
    (view.selectAll_perm _ _) (fun _ _ => rfl) (fun _ _ => rfl)

theorem updateLoadBalancers_reconciled :
    ∃ view', updateLoadBalancers ords view bp = .ok view' ∧
      Reconciled .loadBalancer LoadBalancer.name LoadBalancer.name mergeLoadBalancer
        mergeLoadBalancer (bp.loadBalancers.map loadBalancerRow) (view.rows .loadBalancer)
        view.curID (view'.rows .loadBalancer) ∧ Touches .loadBalancer view view' :=
  commitAll_reconciled .loadBalancer view
    (hashJoin_reconciles (ords 1) (bp.loadBalancers.map loadBalancerRow)
      (view.selectAll (ords 0) .loadBalancer) LoadBalancer.name LoadBalancer.name)
    (view.selectAll_perm _ _) (fun _ _ => rfl) (fun _ _ => rfl)

theorem updateConnections_reconciled :
    ∃ view', updateConnections ords view bp = .ok view' ∧
      Reconciled .connection bpKey dbcKey (fun _ r => r) fillConnection (expandConnections bp)
        (view.rows .connection) view.curID (view'.rows .connection) ∧
      Touches .connection view view' :=
  removeAll_addAll_reconciled .connection view fillConnection
    (hashJoin_reconciles (ords 1) (expandConnections bp) (view.selectAll (ords 0) .connection)
      bpKey dbcKey)
    (view.selectAll_perm _ _) (fun _ _ => rfl) (fun _ _ => rfl)

/-- The placements that the policy asks for, given the connections as they
were read. -/
def wantedPlacements (ord : MapOrder) (connections : List Connection) (bp : Blueprint) :
    List Placement :=
  portPlacements ord connections ++ bp.placements.map placementRow

theorem updatePlacements_reconciled :
    ∃ view', updatePlacements ords view bp = .ok view' ∧
      Reconciled .placement placementKey placementKey (fun _ r => r) fillPlacement
        (wantedPlacements (ords 1) (view.selectAll (ords 0) .connection) bp)
        (view.rows .placement) view.curID (view'.rows .placement) ∧
      Touches .placement view view' := by
  obtain ⟨mid, hAdd, h⟩ := addAll_removeAll_reconciled .placement view fillPlacement
    (hashJoin_reconciles (ords 3)
      (wantedPlacements (ords 1) (view.selectAll (ords 0) .connection) bp)
      (view.selectAll (ords 2) .placement) placementKey placementKey)
    (view.selectAll_perm _ _) (fun _ _ => rfl) (fun _ _ => rfl)
  refine ⟨_, ?_, h⟩
  rw [wantedPlacements] at hAdd
  rw [updatePlacements, hAdd]
  rfl

end Tables

/-- What the five functions together leave in the tables, for any blueprint. -/
structure Applied (ords : Nat → MapOrder) (bp : Blueprint) (before after : Database) :
    Prop where
  images : Reconciled .image id dbImageKey (fun _ r => r) fillImage (queryImages bp)
    (before.rows .image) before.curID (after.rows .image)
  containers : Reconciled .container Container.blueprintID Container.blueprintID mergeContainer
    mergeContainer (queryContainers (ords 4) bp) (before.rows .container) before.curID
    (after.rows .container)
  loadBalancers : Reconciled .loadBalancer LoadBalancer.name LoadBalancer.name mergeLoadBalancer
    mergeLoadBalancer (bp.loadBalancers.map loadBalancerRow) (before.rows .loadBalancer)
    before.curID (after.rows .loadBalancer)
  connections : Reconciled .connection bpKey dbcKey (fun _ r => r) fillConnection
    (expandConnections bp) (before.rows .connection) before.curID (after.rows .connection)
  placements : ∃ connections, connections.Perm (after.rows .connection) ∧
    Reconciled .placement placementKey placementKey (fun _ r => r) fillPlacement
      (wantedPlacements (ords 12) connections bp) (before.rows .placement) before.curID
      (after.rows .placement)
  others : ∀ tt ∉ [TableType.image, .container, .loadBalancer, .connection, .placement],
    after.rows tt = before.rows tt

/-- The functions never panic, whatever the tables hold. -/
theorem applyPolicy_applied (ords : Nat → MapOrder) (view : Database) (bp : Blueprint) :
    ∃ view', applyPolicy ords view bp = .ok view' ∧ Applied ords bp view view' := by
  obtain ⟨v₁, h₁, hImages, t₁⟩ := updateImages_reconciled (laterOrders ords 2) view bp
  obtain ⟨v₂, h₂, hContainers, t₂⟩ := updateContainers_reconciled (laterOrders ords 4) v₁ bp
  obtain ⟨v₃, h₃, hLoadBalancers, t₃⟩ := updateLoadBalancers_reconciled (laterOrders ords 7) v₂ bp
  obtain ⟨v₄, h₄, hConnections, t₄⟩ := updateConnections_reconciled (laterOrders ords 9) v₃ bp
  obtain ⟨v₅, h₅, hPlacements, t₅⟩ := updatePlacements_reconciled (laterOrders ords 11) v₄ bp
  refine ⟨v₅, ?_, ?_⟩
  · simp only [applyPolicy, bind, Except.bind, h₁, h₂, h₃, h₄, h₅]
  · have c₂ := t₁.curID
    have c₃ := c₂.trans t₂.curID
    have c₄ := c₃.trans t₃.curID
    have c₅ := c₄.trans t₄.curID
    constructor
    · rw [t₅.rows _ (by decide), t₄.rows _ (by decide), t₃.rows _ (by decide),
        t₂.rows _ (by decide)]
      exact hImages
    · rw [t₅.rows _ (by decide), t₄.rows _ (by decide), t₃.rows _ (by decide),
        ← t₁.rows _ (by decide)]
      exact hContainers.of_le c₂
    · rw [t₅.rows _ (by decide), t₄.rows _ (by decide), ← t₁.rows _ (by decide),
        ← t₂.rows _ (by decide)]
      exact hLoadBalancers.of_le c₃
    · rw [t₅.rows _ (by decide), ← t₁.rows _ (by decide), ← t₂.rows _ (by decide),
        ← t₃.rows _ (by decide)]
      exact hConnections.of_le c₄
    · refine ⟨v₄.selectAll (laterOrders ords 11 0) .connection, ?_, ?_⟩
      · rw [t₅.rows _ (by decide)]
        exact v₄.selectAll_perm _ _
      · rw [← t₁.rows _ (by decide), ← t₂.rows _ (by decide), ← t₃.rows _ (by decide),
          ← t₄.rows _ (by decide)]
        exact hPlacements.of_le c₅
    · intro tt hTT
      simp only [List.mem_cons, List.not_mem_nil, or_false, not_or] at hTT
      obtain ⟨n₁, n₂, n₃, n₄, n₅⟩ := hTT
      rw [t₅.rows tt n₅, t₄.rows tt n₄, t₃.rows tt n₃, t₂.rows tt n₂, t₁.rows tt n₁]

section Settled

variable (ords : Nat → MapOrder) {view : Database} {bp : Blueprint}

theorem updateImages_settled
    (h : Settled .image id dbImageKey (fun _ r => r) (queryImages bp) (view.rows .image)) :
    updateImages ords view bp = .ok view := by
  obtain ⟨hLefts, hRights⟩ := (h.perm (view.selectAll_perm (ords 0) .image)).nothing_lonely
    (hashJoin_reconciles (ords 1) (queryImages bp) _ id dbImageKey)
  rw [updateImages, hLefts, hRights]
  rfl

theorem updateContainers_settled
    (h : Settled .container Container.blueprintID Container.blueprintID mergeContainer
      (queryContainers (ords 0) bp) (view.rows .container)) :
    updateContainers ords view bp = .ok view := by
  have hRows := view.selectAll_perm (ords 1) .container
  have hJoin := hashJoin_reconciles (ords 2) (queryContainers (ords 0) bp)
    (view.selectAll (ords 1) .container) Container.blueprintID Container.blueprintID
  obtain ⟨hLefts, hRights⟩ := (h.perm hRows).nothing_lonely hJoin
  have hCommit := commitAll_settled _ view hJoin hRows (h.perm hRows)
  rw [← List.append_nil (hashJoin ..).pairs] at hCommit
  rw [updateContainers, hLefts, hRights]
  exact hCommit

theorem updateLoadBalancers_settled
    (h : Settled .loadBalancer LoadBalancer.name LoadBalancer.name mergeLoadBalancer
      (bp.loadBalancers.map loadBalancerRow) (view.rows .loadBalancer)) :
    updateLoadBalancers ords view bp = .ok view := by
  have hRows := view.selectAll_perm (ords 0) .loadBalancer
  have hJoin := hashJoin_reconciles (ords 1) (bp.loadBalancers.map loadBalancerRow)
    (view.selectAll (ords 0) .loadBalancer) LoadBalancer.name LoadBalancer.name
  obtain ⟨hLefts, hRights⟩ := (h.perm hRows).nothing_lonely hJoin
  have hCommit := commitAll_settled _ view hJoin hRows (h.perm hRows)
  rw [← List.append_nil (hashJoin ..).pairs] at hCommit
  rw [updateLoadBalancers, hLefts, hRights]
  exact hCommit

theorem updateConnections_settled
    (h : Settled .connection bpKey dbcKey (fun _ r => r) (expandConnections bp)
      (view.rows .connection)) :
    updateConnections ords view bp = .ok view := by
  obtain ⟨hLefts, hRights⟩ := (h.perm (view.selectAll_perm (ords 0) .connection)).nothing_lonely
    (hashJoin_reconciles (ords 1) (expandConnections bp) _ bpKey dbcKey)
  rw [updateConnections, hLefts, hRights]
  rfl

theorem updatePlacements_settled
    (h : Settled .placement placementKey placementKey (fun _ r => r)
      (wantedPlacements (ords 1) (view.selectAll (ords 0) .connection) bp)
      (view.rows .placement)) :
    updatePlacements ords view bp = .ok view := by
  obtain ⟨hLefts, hRights⟩ := (h.perm (view.selectAll_perm (ords 2) .placement)).nothing_lonely
    (hashJoin_reconciles (ords 3) _ _ placementKey placementKey)
  rw [wantedPlacements] at hLefts hRights
  rw [updatePlacements, hLefts, hRights]
  rfl

end Settled

/-- What the bindings guarantee about the names of a blueprint. -/
structure UniqueNames (bp : Blueprint) : Prop where
  hostnames : (bp.containers.map Blueprint.Container.hostname).Nodup
  ids : (bp.containers.map Blueprint.Container.id).Nodup
  loadBalancers : (bp.loadBalancers.map Blueprint.LoadBalancer.name).Nodup

/-- A second round finds every table as it left it. The flags and the counter
do not matter. -/
theorem Applied.applyPolicy_again {ords : Nat → MapOrder} {bp : Blueprint}
    {before after later : Database} (h : Applied ords bp before after) (hUnique : UniqueNames bp)
    (hRows : later.rows = after.rows) (ords' : Nat → MapOrder) :
    applyPolicy ords' later bp = .ok later := by
  have hImages : updateImages (laterOrders ords' 2) later bp = .ok later := by
    apply updateImages_settled
    rw [hRows]
    exact h.images.settled (fun _ => Iff.rfl) (fun _ _ _ _ _ _ => ⟨rfl, rfl⟩)
  have hContainers : updateContainers (laterOrders ords' 4) later bp = .ok later := by
    apply updateContainers_settled
    rw [hRows]
    refine h.containers.settled (fun r => ?_) ?_
    · rw [mem_queryContainers hUnique.hostnames, mem_queryContainers hUnique.hostnames]
    · intro d hd d' hd' hKey r
      obtain ⟨c, hc, rfl⟩ := queryContainers_subset hd
      obtain ⟨c', hc', rfl⟩ := queryContainers_subset hd'
      obtain rfl : c = c' := List.inj_on_of_nodup_map hUnique.ids hc hc' hKey
      exact ⟨rfl, rfl⟩
  have hLoadBalancers : updateLoadBalancers (laterOrders ords' 7) later bp = .ok later := by
    apply updateLoadBalancers_settled
    rw [hRows]
    refine h.loadBalancers.settled (fun _ => Iff.rfl) ?_
    intro d hd d' hd' hKey r
    obtain ⟨lb, hLb, rfl⟩ := List.mem_map.mp hd
    obtain ⟨lb', hLb', rfl⟩ := List.mem_map.mp hd'
    obtain rfl : lb = lb' := List.inj_on_of_nodup_map hUnique.loadBalancers hLb hLb' hKey
    exact ⟨rfl, rfl⟩
  have hConnections : updateConnections (laterOrders ords' 9) later bp = .ok later := by
    apply updateConnections_settled
    rw [hRows]
    exact h.connections.settled (fun _ => Iff.rfl) (fun _ _ _ _ _ _ => ⟨rfl, rfl⟩)
  have hPlacements : updatePlacements (laterOrders ords' 11) later bp = .ok later := by
    apply updatePlacements_settled
    rw [hRows]
    obtain ⟨connections, hPerm, hPlacements⟩ := h.placements
    refine hPlacements.settled (fun p => ?_) (fun _ _ _ _ _ _ => ⟨rfl, rfl⟩)
    have hSame : (later.selectAll (laterOrders ords' 11 0) .connection).Perm connections := by
      refine (later.selectAll_perm _ _).trans ?_
      rw [hRows]
      exact hPerm.symm
    rw [wantedPlacements, wantedPlacements, List.mem_append, List.mem_append, mem_portPlacements,
      mem_portPlacements]
    exact or_congr_left ⟨PortPlacement.perm hSame, PortPlacement.perm hSame.symm⟩
  simp only [applyPolicy, bind, Except.bind, hImages, hContainers, hLoadBalancers, hConnections,
    hPlacements]

end Kelda.Minion
