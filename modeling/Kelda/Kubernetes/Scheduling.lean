import Kelda.Kubernetes.TermOrder
import Kelda.Lib.StringMap

/-! What affinities mean to the scheduler, with the labels that the nodes are given. -/
namespace Kelda.Kubernetes

open DB StringKeyed

section NodeLabels

structure Node where
  name : String
  /-- The types of the addresses, and the addresses. -/
  addresses : List (String × String)
  labels : StringMap String

def getPrivateIP (node : Node) : Except String String :=
  match node.addresses.find? (fun addr => addr.1 = "InternalIP") with
  | some addr => .ok addr.2
  | none => .error "no private address"

def workerLabels (node : Minion) : StringMap String :=
  ofEntries [(providerKey, node.provider), (regionKey, node.region), (sizeKey, node.size),
    (floatingIPKey, node.floatingIP)]

def nodeToLabels (nodes : List Minion) : StringMap (StringMap String) :=
  nodes.foldl (fun m node => m.insert node.privateIP (workerLabels node)) ∅

/-- The labels of a node so far, and whether they have been changed. -/
def setLabel : StringMap String × Bool → String × String → StringMap String × Bool
  | (labels, needsUpdate), (key, exp) =>
    if labels.lookup key = some exp then (labels, needsUpdate) else (labels.insert key exp, true)

/-- The node with its labels brought up to date, and whether they have been changed.
Nodes that are not known are left alone. -/
def labelNode (ord : MapOrder) (nodes : List Minion) (node : Node) : Node × Bool :=
  match getPrivateIP node with
  | .error _ => (node, false)
  | .ok privateIP =>
    match (nodeToLabels nodes).lookup privateIP with
    | none => (node, false)
    | some labels =>
      let res := (range ord labels).foldl setLabel (node.labels, false)
      ({ node with labels := res.1 }, res.2)

/-- The updates that are sent. -/
def updateNodeLabels (ords : Nat → MapOrder) (nodes : List Minion) (nodesList : List Node) :
    List Node :=
  nodesList.zipIdx.filterMap (fun e =>
    let res := labelNode (ords e.2) nodes e.1
    if res.2 then some res.1 else none)

theorem lookup_nodeToLabels {nodes : List Minion} {worker : Minion} (hWorker : worker ∈ nodes)
    (hOwn : ∀ node ∈ nodes, node.privateIP = worker.privateIP → node = worker) :
    (nodeToLabels nodes).lookup worker.privateIP = some (workerLabels worker) := by
  induction nodes using List.reverseRecOn with
  | nil => cases hWorker
  | append_singleton nodes node ih =>
      rw [nodeToLabels, List.foldl_append, List.foldl_cons, List.foldl_nil]
      by_cases hIP : node.privateIP = worker.privateIP
      · have hEq := hOwn node (List.mem_append_right _ (List.mem_singleton_self _)) hIP
        rw [hEq, Finmap.lookup_insert]
      · rw [Finmap.lookup_insert_of_ne _ (Ne.symm hIP)]
        apply ih
        · rcases List.mem_append.mp hWorker with hMem | hMem
          · exact hMem
          · exact absurd (congrArg Minion.privateIP (List.mem_singleton.mp hMem)).symm hIP
        · exact fun node' hNode' => hOwn node' (List.mem_append_left _ hNode')

theorem lookup_setLabel (st : StringMap String × Bool) (e : String × String) (key : String) :
    (setLabel st e).1.lookup key = if key = e.1 then some e.2 else st.1.lookup key := by
  rw [setLabel]
  by_cases hKey : key = e.1
  · rw [if_pos hKey, hKey]
    split_ifs with hSame
    · exact hSame
    · exact Finmap.lookup_insert _
  · rw [if_neg hKey]
    split_ifs
    · rfl
    · exact Finmap.lookup_insert_of_ne _ hKey

theorem lookup_foldl_setLabel {es : List (String × String)} (hNodup : (es.map Prod.fst).Nodup)
    {e : String × String} (he : e ∈ es) (st : StringMap String × Bool) :
    (es.foldl setLabel st).1.lookup e.1 = some e.2 := by
  induction es using List.reverseRecOn with
  | nil => cases he
  | append_singleton es e' ih =>
      rw [List.foldl_append, List.foldl_cons, List.foldl_nil, lookup_setLabel]
      rw [List.map_append, List.nodup_append'] at hNodup
      rcases List.mem_append.mp he with hMem | hMem
      · have hNe : e.1 ≠ e'.1 := by
          intro hEq
          exact hNodup.2.2 (List.mem_map_of_mem hMem) (by simp [hEq])
        rw [if_neg hNe]
        exact ih hNodup.1 hMem
      · rw [List.mem_singleton.mp hMem, if_pos rfl]

/-- The labels of a node are those of its worker. -/
theorem lookup_labelNode {ord : MapOrder} {nodes : List Minion} {worker : Minion} {node : Node}
    {privateIP : String} (hNode : getPrivateIP node = .ok privateIP)
    (hWritten : (nodeToLabels nodes).lookup privateIP = some (workerLabels worker))
    {key value : String} (h : (workerLabels worker).lookup key = some value) :
    (labelNode ord nodes node).1.labels.lookup key = some value := by
  rw [labelNode, hNode]
  simp only [hWritten]
  have hMem : (key, value) ∈ range ord (workerLabels worker) := mem_range.mpr h
  exact lookup_foldl_setLabel (nodup_range ord _) hMem _

end NodeLabels

section Scheduler

/-- Kubernetes compares the label of the node with the values. A node without the
label meets only the negative requirement. -/
def NodeSelectorRequirement.Holds (labels : StringMap String) (r : NodeSelectorRequirement) :
    Prop :=
  match r.operator with
  | .opIn => ∃ value ∈ r.values, labels.lookup r.key = some value
  | .opNotIn => ∀ value ∈ r.values, labels.lookup r.key ≠ some value

/-- A pod matches if it has all the labels. -/
def PodAffinityTerm.Matches (term : PodAffinityTerm) (pod : StringMap String) : Prop :=
  ∀ key value, term.matchLabels.lookup key = some value → pod.lookup key = some value

/-- A node with these labels and pods satisfies the affinity of a pod, if it has one.
A node selector term without requirements matches no node. -/
def Satisfies (labels : StringMap String) (pods : List (StringMap String)) :
    Option Affinity → Prop
  | none => True
  | some affinity =>
    (∀ reqs, affinity.nodeAffinity = some reqs → reqs ≠ [] ∧ ∀ r ∈ reqs, r.Holds labels) ∧
      ∀ terms, affinity.podAntiAffinity = some terms → ∀ term ∈ terms, ∀ pod ∈ pods,
        ¬term.Matches pod

/-- The attributes of a worker, next to what a placement says about them. -/
def attributes (plcm : Placement) (worker : Minion) : List (String × String) :=
  [(plcm.provider, worker.provider), (plcm.region, worker.region), (plcm.size, worker.size),
    (plcm.floatingIP, worker.floatingIP)]

/-- What a placement asks of the worker of its target. -/
def Permits (plcm : Placement) (worker : Minion) (pods : List (StringMap String)) : Prop :=
  if plcm.exclusive then
    (∀ a ∈ attributes plcm worker, a.1 ≠ "" → a.1 ≠ a.2) ∧
      (plcm.otherContainer ≠ "" → ∀ pod ∈ pods, pod.lookup hostnameKey ≠ some plcm.otherContainer)
  else ∀ a ∈ attributes plcm worker, a.1 ≠ "" → a.1 = a.2

variable {labels : StringMap String} {pods : List (StringMap String)} {worker : Minion}
  {plcm : Placement}

theorem podAffinityTerm_matches {other : String} {pod : StringMap String} :
    (podAffinityTerm other).Matches pod ↔ pod.lookup hostnameKey = some other := by
  constructor
  · intro h
    exact h hostnameKey other (Finmap.lookup_insert _)
  · intro h key value hLookup
    by_cases hKey : key = hostnameKey
    · rw [podAffinityTerm, hKey, Finmap.lookup_insert] at hLookup
      rw [hKey, h, hLookup]
    · rw [podAffinityTerm, Finmap.lookup_insert_of_ne _ hKey, Finmap.lookup_empty] at hLookup
      cases hLookup

theorem nodeRequirement_holds {key value actual : String} {exclusive : Bool}
    (hLabel : labels.lookup key = some actual) :
    (nodeRequirement key value exclusive).Holds labels ↔
      if exclusive then value ≠ actual else value = actual := by
  cases exclusive <;> simp [NodeSelectorRequirement.Holds, nodeRequirement, hLabel, eq_comm]

/-- The four labels of a worker. -/
theorem lookup_workerLabels {e : String × String}
    (he : e ∈ [(providerKey, worker.provider), (regionKey, worker.region), (sizeKey, worker.size),
      (floatingIPKey, worker.floatingIP)]) : (workerLabels worker).lookup e.1 = some e.2 := by
  have hKeys : ([(providerKey, worker.provider), (regionKey, worker.region),
      (sizeKey, worker.size), (floatingIPKey, worker.floatingIP)].map Prod.fst).Nodup := by
    change [providerKey, regionKey, sizeKey, floatingIPKey].Nodup
    decide
  exact (lookup_foldl_insert hKeys).mpr ⟨e, he, rfl, rfl⟩

theorem nodeTerms_hold_iff (hLabels : ∀ key value, (workerLabels worker).lookup key = some value →
      labels.lookup key = some value) :
    (∀ r ∈ nodeTerms plcm, r.Holds labels) ↔ ∀ a ∈ attributes plcm worker, a.1 ≠ "" →
      if plcm.exclusive then a.1 ≠ a.2 else a.1 = a.2 := by
  have hTerms : (∀ r ∈ nodeTerms plcm, r.Holds labels) ↔ ∀ c ∈ nodeConstraints plcm, c.2 ≠ "" →
      (nodeRequirement c.1 c.2 plcm.exclusive).Holds labels := by
    constructor
    · intro h c hc hValue
      exact h _ (mem_nodeTerms.mpr ⟨c, hc, hValue, rfl⟩)
    · intro h r hr
      obtain ⟨c, hc, hValue, rfl⟩ := mem_nodeTerms.mp hr
      exact h c hc hValue
  have hProvider : labels.lookup providerKey = some worker.provider :=
    hLabels _ _ (lookup_workerLabels (e := (providerKey, worker.provider)) (by simp))
  have hRegion : labels.lookup regionKey = some worker.region :=
    hLabels _ _ (lookup_workerLabels (e := (regionKey, worker.region)) (by simp))
  have hSize : labels.lookup sizeKey = some worker.size :=
    hLabels _ _ (lookup_workerLabels (e := (sizeKey, worker.size)) (by simp))
  have hFloatingIP : labels.lookup floatingIPKey = some worker.floatingIP :=
    hLabels _ _ (lookup_workerLabels (e := (floatingIPKey, worker.floatingIP)) (by simp))
  rw [hTerms]
  simp only [nodeConstraints, attributes, List.forall_mem_cons, nodeRequirement_holds hProvider,
    nodeRequirement_holds hRegion, nodeRequirement_holds hSize, nodeRequirement_holds hFloatingIP,
    List.not_mem_nil, false_imp_iff, implies_true]

/-- The terms of a placement are what it asks for. -/
theorem permits_iff (hLabels : ∀ key value, (workerLabels worker).lookup key = some value →
      labels.lookup key = some value) :
    Permits plcm worker pods ↔ (∀ r ∈ nodeTerms plcm, r.Holds labels) ∧
      ∀ term ∈ podTerms plcm, ∀ pod ∈ pods, ¬term.Matches pod := by
  rw [nodeTerms_hold_iff hLabels, Permits, podTerms]
  cases hExclusive : plcm.exclusive with
  | false => simp
  | true =>
      by_cases hOther : plcm.otherContainer = ""
      · simp [hOther]
      · simp [hOther, podAffinityTerm_matches]

theorem extend_none_eq_some {α : Type} {terms terms' : List α} :
    extend none terms = some terms' ↔ terms ≠ [] ∧ terms' = terms := by
  rw [extend]
  split_ifs with hNil
  · simp [hNil]
  · simp [hNil, eq_comm]

/-- Each placement adds its terms to the affinity of its target, and nothing else is
added to it. -/
theorem satisfies_lookup_iff (l : List Placement) (target : String) :
    Satisfies labels pods ((l.foldl addPlacement ∅).lookup target) ↔
      ∀ plcm ∈ l, plcm.targetContainer = target → (∀ r ∈ nodeTerms plcm, r.Holds labels) ∧
        ∀ term ∈ podTerms plcm, ∀ pod ∈ pods, ¬term.Matches pod := by
  have hMem : ∀ plcm, plcm ∈ placementsOf l target ↔ plcm ∈ l ∧ plcm.targetContainer = target := by
    intro plcm
    simp [placementsOf]
  rw [lookup_affinities]
  split_ifs with hNone
  · refine iff_of_true trivial (fun plcm hp hTarget => ?_)
    have hPlcm := (hMem plcm).mpr ⟨hp, hTarget⟩
    rw [hNone] at hPlcm
    cases hPlcm
  · simp only [Satisfies, extend_none_eq_some]
    constructor
    · rintro ⟨hNode, hPod⟩ plcm hp hTarget
      have hPlcm := (hMem plcm).mpr ⟨hp, hTarget⟩
      constructor
      · intro r hr
        have hAll : r ∈ (placementsOf l target).flatMap nodeTerms :=
          List.mem_flatMap.mpr ⟨plcm, hPlcm, hr⟩
        exact (hNode _ ⟨List.ne_nil_of_mem hAll, rfl⟩).2 r hAll
      · intro term hTerm
        have hAll : term ∈ (placementsOf l target).flatMap podTerms :=
          List.mem_flatMap.mpr ⟨plcm, hPlcm, hTerm⟩
        exact hPod _ ⟨List.ne_nil_of_mem hAll, rfl⟩ term hAll
    · intro h
      constructor
      · rintro reqs ⟨hSome, rfl⟩
        refine ⟨hSome, fun r hr => ?_⟩
        obtain ⟨plcm, hPlcm, hr⟩ := List.mem_flatMap.mp hr
        obtain ⟨hp, hTarget⟩ := (hMem plcm).mp hPlcm
        exact (h plcm hp hTarget).1 r hr
      · rintro terms ⟨-, rfl⟩ term hTerm
        obtain ⟨plcm, hPlcm, hTerm⟩ := List.mem_flatMap.mp hTerm
        obtain ⟨hp, hTarget⟩ := (hMem plcm).mp hPlcm
        exact (h plcm hp hTarget).2 term hTerm

/-- The scheduler admits a worker for a container exactly if the placements of the
container do. -/
theorem toAffinities_exact (placements : List Placement) (target : String) (ord : MapOrder)
    (nodes : List Minion) (worker : Minion) (node : Node) (pods : List (StringMap String))
    (privateIP : String) (hNode : getPrivateIP node = .ok privateIP)
    (hWritten : (nodeToLabels nodes).lookup privateIP = some (workerLabels worker)) :
    (Satisfies (labelNode ord nodes node).1.labels pods ((toAffinities placements).lookup target) ↔
      ∀ plcm ∈ placements, plcm.targetContainer = target → Permits plcm worker pods) ∧
      ((∀ plcm ∈ placements, plcm.targetContainer ≠ target) →
        (toAffinities placements).lookup target = none) := by
  have hLabels : ∀ key value, (workerLabels worker).lookup key = some value →
      (labelNode ord nodes node).1.labels.lookup key = some value :=
    fun key value h => lookup_labelNode hNode hWritten h
  have hMem : ∀ plcm, plcm ∈ sortSlice placementLess placements ↔ plcm ∈ placements :=
    fun plcm => (sortSlice_perm placementLess placements).mem_iff
  constructor
  · rw [toAffinities, satisfies_lookup_iff]
    simp only [hMem, permits_iff hLabels]
  · intro hNone
    rw [toAffinities, lookup_affinities, if_pos]
    rw [placementsOf, List.filter_eq_nil_iff]
    intro plcm hp hTarget
    exact hNone plcm ((hMem plcm).mp hp) (of_decide_eq_true hTarget)

/-- A worker with a pod that the container must not share a machine with. -/
def sharedWorker : Minion := { id := 1, privateIP := "10.0.0.1", provider := "Amazon" }

def sharedNode : Node := ⟨"node", [("InternalIP", "10.0.0.1")], ∅⟩

def sharedPod : StringMap String := (∅ : StringMap String).insert hostnameKey "db"

def sharedRule : Placement :=
  { id := 1, targetContainer := "app", exclusive := true, otherContainer := "db" }

theorem toAffinities_exact_shared :
    ¬Satisfies (labelNode .stored [sharedWorker] sharedNode).1.labels [sharedPod]
      ((toAffinities [sharedRule]).lookup "app") := by
  intro h
  have hPermits := (toAffinities_exact [sharedRule] "app" .stored [sharedWorker] sharedWorker
    sharedNode [sharedPod] "10.0.0.1" rfl (lookup_nodeToLabels (List.mem_singleton_self _)
      (fun _ hNode _ => List.mem_singleton.mp hNode))).1.mp h _ (List.mem_singleton_self _) rfl
  exact hPermits.2 (by decide) _ (List.mem_singleton_self _) (Finmap.lookup_insert _)

end Scheduler

end Kelda.Kubernetes
