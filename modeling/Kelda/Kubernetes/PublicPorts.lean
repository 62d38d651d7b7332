import Kelda.Kubernetes.Scheduling
import Kelda.Minion.Exact
import Kelda.Minion.PortPlacements
import Kelda.Network.NAT

/-! A public port of a worker leads to one container. The policy keeps the containers
of a port apart by placements, the scheduler reads these as affinities, and the worker
forwards the port by its own rules. -/
namespace Kelda.Network.NAT

open DB Minion Kubernetes

/-- The containers whose pods are on a worker with these labels. A pod comes if the
worker satisfies its affinity, and goes at any time. -/
inductive Scheduled (labels : StringMap String) (placements : List Placement) :
    List String → Prop where
  | empty : Scheduled labels placements []
  | arrive {pods : List String} {host : String} (h : Scheduled labels placements pods)
      (hFits : Satisfies labels (pods.map (fun pod => (∅ : StringMap String).insert hostnameKey pod))
        ((toAffinities placements).lookup host)) : Scheduled labels placements (host :: pods)
  | leave {pods pods' : List String} (h : Scheduled labels placements pods)
      (hRest : pods'.Sublist pods) : Scheduled labels placements pods'

/-- No pod is next to one that a placement keeps it apart from. -/
theorem Scheduled.apart {labels : StringMap String} {placements : List Placement}
    {pods : List String} (h : Scheduled labels placements pods) :
    pods.Pairwise (fun a b => b ≠ "" → exclusiveRule a b ∉ placements.map placementKey) := by
  induction h with
  | empty => exact .nil
  | leave _ hRest ih => exact ih.sublist hRest
  | arrive _ hFits ih =>
      refine List.pairwise_cons.mpr ⟨fun other hOther hSome hRule => ?_, ih⟩
      obtain ⟨plcm, hPlcm, hKey⟩ := List.mem_map.mp hRule
      rw [toAffinities, satisfies_lookup_iff] at hFits
      have hSorted := (sortSlice_perm placementLess placements).mem_iff.mpr hPlcm
      have hTarget := congrArg Placement.targetContainer hKey
      have hExclusive : plcm.exclusive = true := congrArg Placement.exclusive hKey
      have hContainer : plcm.otherContainer = other := congrArg Placement.otherContainer hKey
      have hTerm : podAffinityTerm other ∈ podTerms plcm := by
        simp [podTerms, hExclusive, hContainer, hSome]
      exact (hFits plcm hSorted hTarget).2 _ hTerm _ (List.mem_map_of_mem hOther)
        (podAffinityTerm_matches.mpr (Finmap.lookup_insert _))

/-- Whatever the tables of a leader held, after a policy update no worker forwards one
port to two containers: those of one port never meet on a worker, in whatever order
their pods come and go. -/
theorem public_port_exclusive (ords : Nat → MapOrder) {view : Database} {etcd : DB.Etcd}
    {bpRow : BlueprintRow} (hEtcd : view.rows .etcd = [etcd]) (hLeader : etcd.leader = true)
    (hBlueprint : view.rows .blueprint = [bpRow]) :
    ∃ view', updatePolicy ords view = .ok view' ∧ ∀ ord labels (containers : List DB.Container),
      Scheduled labels (view'.selectAll ord .placement) (containers.map (fun c => c.hostname)) →
      (∀ c ∈ containers, c.hostname ≠ "" ∧ c.hostname ≠ Blueprint.publicInternetLabel) →
      (containers.map (fun c => c.ip)).Nodup →
      ∀ ords' publicInterface port, ∀ protocol ∈ protocols,
        let rules := preroutingRules ords' publicInterface containers (view'.rows .connection)
        containers.Pairwise (fun c d => c.hostname ≠ d.hostname →
          dnatRule publicInterface protocol port c.ip ∈ rules →
          dnatRule publicInterface protocol port d.ip ∉ rules) := by
  obtain ⟨view', hApply, hApplied⟩ := applyPolicy_applied ords view bpRow.blueprint
  refine ⟨view', by rw [updatePolicy_leader ords hEtcd hLeader hBlueprint, hApply], ?_⟩
  intro ord labels containers hPods hHosts hIPs ords' publicInterface port protocol hProtocol rules
  have hReceives : ∀ c ∈ containers, dnatRule publicInterface protocol port c.ip ∈ rules →
      MayReceive (view'.rows .connection) c.hostname port := by
    intro c hc hRule
    by_contra hNot
    have hCount := preroutingRules_follow ords' publicInterface (view'.rows .connection) hIPs
      c hc port protocol hProtocol
    rw [if_neg hNot] at hCount
    exact List.count_eq_zero.mp hCount hRule
  refine (List.pairwise_map.mp hPods.apart).imp_of_mem (fun {c d} hc hd hApart hNe hRule hRule' => ?_)
  obtain ⟨conn, hConn, hFrom, hTo, hPort⟩ := hReceives c hc hRule
  obtain ⟨conn', hConn', hFrom', hTo', hPort'⟩ := hReceives d hd hRule'
  have hConflict : Conflict (view'.rows .connection) c.hostname d.hostname :=
    ⟨hNe, (hHosts c hc).2, (hHosts d hd).2, conn, hConn, conn', hConn', hFrom, hFrom',
      hPort.trans hPort'.symm, hTo, hTo'⟩
  refine hApart (hHosts d hd).1 ?_
  rw [((view'.selectAll_perm ord .placement).map placementKey).mem_iff, hApplied.placement_rows]
  have hRule : exclusiveRule c.hostname d.hostname ∈ portPlacements ord (view'.rows .connection) :=
    (mem_portPlacements_of_ne hNe).mpr hConflict
  exact Or.inl (mem_portPlacements.mp hRule)

/-- A leader of two containers on one public port. -/
def crowdedView : Database where
  rows
    | .blueprint => [⟨1, ⟨[], [], [⟨["public"], ["red", "blue"], 80, 80⟩], [], [], [], "", []⟩⟩]
    | .etcd => [{ id := 2, leader := true }]
    | _ => []
  shouldAlert := fun _ => false
  curID := 2
  nodup := fun tt => by cases tt <;> decide
  bounded := fun tt => by cases tt <;> decide

/-- The one may run on a worker, but not next to the other. -/
theorem public_port_exclusive_crowded :
    ∃ view', updatePolicy (fun _ => .stored) crowdedView = .ok view' ∧ ∀ labels,
      Scheduled labels (view'.selectAll .stored .placement) ["red"] ∧
        ¬Scheduled labels (view'.selectAll .stored .placement) ["red", "blue"] := by
  obtain ⟨view', hRun, hExclusive⟩ := public_port_exclusive (fun _ => .stored)
    (show crowdedView.rows .etcd = [{ id := 2, leader := true }] from rfl) rfl rfl
  have hRules : (updatePolicy (fun _ => .stored) crowdedView >>= fun view => .ok (decide
      ((∀ plcm ∈ view.rows .placement, nodeTerms plcm = []) ∧ ∀ c ∈ sampleContainers,
        dnatRule "eth0" "tcp" 80 c.ip ∈ preroutingRules (fun _ => .stored) "eth0" sampleContainers
          (view.rows .connection)))) = .ok true := by
    decide +kernel
  rw [hRun] at hRules
  obtain ⟨hNodes, hBoth⟩ := of_decide_eq_true (Except.ok.inj hRules)
  refine ⟨view', hRun, fun labels => ⟨.arrive .empty ?_, fun hPods => ?_⟩⟩
  · rw [toAffinities, satisfies_lookup_iff]
    intro plcm hPlcm _
    have hRow := view'.mem_selectAll.mp ((sortSlice_perm placementLess _).mem_iff.mp hPlcm)
    simp [hNodes plcm hRow]
  · have hApart := hExclusive .stored labels sampleContainers hPods (by decide) (by decide)
      (fun _ => .stored) "eth0" 80 "tcp" (by decide)
    exact (List.pairwise_cons.mp hApart).1 _ (List.mem_singleton_self _) (by decide)
      (hBoth _ (by simp [sampleContainers])) (hBoth _ (by simp [sampleContainers]))

end Kelda.Network.NAT
