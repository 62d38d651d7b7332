import Kelda.Kubernetes.Affinity
import Kelda.Lib.Words

/-! The terms of an affinity stand in the order of the IDs of the placements. The
IDs are given out in the order of a walk over a map, so that another leader may
number the same placements differently. -/
namespace Kelda.Kubernetes

open DB

section Terms

/-- The terms that a placement adds to the anti-affinity of its target. -/
def podTerms (plcm : Placement) : List PodAffinityTerm :=
  if plcm.otherContainer ≠ "" ∧ plcm.exclusive = true then [podAffinityTerm plcm.otherContainer]
  else []

/-- The requirements that it adds to the node affinity. -/
def nodeTerms (plcm : Placement) : List NodeSelectorRequirement :=
  ((nodeConstraints plcm).filter (fun c => c.2 ≠ "")).map
    (fun c => nodeRequirement c.1 c.2 plcm.exclusive)

/-- A field is only set once there is a term. -/
def extend {α : Type} (old : Option (List α)) (terms : List α) : Option (List α) :=
  if terms = [] then old else some (old.getD [] ++ terms)

theorem extend_append {α : Type} (old : Option (List α)) (terms terms' : List α) :
    extend (extend old terms) terms' = extend old (terms ++ terms') := by
  by_cases hTerms : terms = []
  · rw [hTerms, List.nil_append, extend, extend, if_pos rfl]
    rfl
  · by_cases hTerms' : terms' = []
    · rw [hTerms', List.append_nil, extend, if_pos rfl]
    · rw [extend, if_neg hTerms', extend, if_neg hTerms, extend,
        if_neg (by simp [hTerms]), Option.getD_some, List.append_assoc]

theorem extend_none_inj {α : Type} {terms terms' : List α}
    (h : extend none terms = extend none terms') : terms = terms' := by
  rw [extend, extend] at h
  split at h <;> split at h <;> simp_all

theorem foldl_nodeConstraints (exclusive : Bool) (cs : List (String × String))
    (affinity : Affinity) :
    cs.foldl (fun affinity c =>
        if c.2 = "" then affinity else handleNodeAffinity affinity c.1 c.2 exclusive) affinity =
      { affinity with
        nodeAffinity := extend affinity.nodeAffinity
          ((cs.filter (fun c => c.2 ≠ "")).map (fun c => nodeRequirement c.1 c.2 exclusive)) } := by
  induction cs generalizing affinity with
  | nil => rfl
  | cons c cs ih =>
      rw [List.foldl_cons, ih]
      by_cases hEmpty : c.2 = ""
      · rw [if_pos hEmpty, List.filter_cons_of_neg (by simpa using hEmpty)]
      · rw [if_neg hEmpty, List.filter_cons_of_pos (by simpa using hEmpty), List.map_cons,
          ← List.singleton_append, ← extend_append]
        rfl

/-- A placement adds its terms at the end. -/
theorem addConstraint_eq (affinity : Affinity) (plcm : Placement) :
    addConstraint affinity plcm =
      { podAntiAffinity := extend affinity.podAntiAffinity (podTerms plcm)
        nodeAffinity := extend affinity.nodeAffinity (nodeTerms plcm) } := by
  rw [addConstraint, foldl_nodeConstraints, podTerms, nodeTerms]
  by_cases hOther : plcm.otherContainer = ""
  · simp [hOther, extend]
  · cases plcm.exclusive with
    | false => simp [hOther, handlePodAffinity, extend]
    | true => simp [hOther, handlePodAffinity, extend]

end Terms

section Order

variable {l l' : List Placement} {target : String}

def placementsOf (l : List Placement) (target : String) : List Placement :=
  l.filter (fun plcm => plcm.targetContainer = target)

/-- Only the placements of a target count for its affinity. -/
theorem lookup_foldl_addPlacement (l : List Placement) (targetToAffinity : StringMap Affinity)
    (target : String) :
    (l.foldl addPlacement targetToAffinity).lookup target =
      (placementsOf l target).foldl (fun a plcm => some (addConstraint (a.getD {}) plcm))
        (targetToAffinity.lookup target) := by
  induction l generalizing targetToAffinity with
  | nil => rfl
  | cons plcm l ih =>
      rw [List.foldl_cons, ih, placementsOf, placementsOf, List.filter_cons]
      by_cases hTarget : plcm.targetContainer = target
      · rw [if_pos (decide_eq_true hTarget), List.foldl_cons, addPlacement, hTarget,
          Finmap.lookup_insert]
      · have hOther : target ≠ plcm.targetContainer := fun h => hTarget h.symm
        rw [if_neg (by simpa using hTarget), addPlacement, Finmap.lookup_insert_of_ne _ hOther]

theorem foldl_addConstraint (ps : List Placement) (affinity : Affinity) :
    ps.foldl (fun a plcm => some (addConstraint (a.getD {}) plcm)) (some affinity) =
      some { podAntiAffinity := extend affinity.podAntiAffinity (ps.flatMap podTerms)
             nodeAffinity := extend affinity.nodeAffinity (ps.flatMap nodeTerms) } := by
  induction ps generalizing affinity with
  | nil => rfl
  | cons plcm ps ih =>
      rw [List.foldl_cons, Option.getD_some, ih, addConstraint_eq, extend_append, extend_append,
        List.flatMap_cons, List.flatMap_cons]

/-- The affinity of a target has the terms of all its placements. -/
theorem lookup_affinities (l : List Placement) (target : String) :
    (l.foldl addPlacement ∅).lookup target =
      if placementsOf l target = [] then none
      else some
        { podAntiAffinity := extend none ((placementsOf l target).flatMap podTerms)
          nodeAffinity := extend none ((placementsOf l target).flatMap nodeTerms) } := by
  rw [lookup_foldl_addPlacement, Finmap.lookup_empty]
  cases placementsOf l target with
  | nil => rfl
  | cons plcm ps =>
      rw [if_neg (List.cons_ne_nil _ _), List.foldl_cons, foldl_addConstraint, Option.getD_none,
        addConstraint_eq, extend_append, extend_append, List.flatMap_cons, List.flatMap_cons]

/-- Placements in another order give the same affinities if the terms of each
target stay the same. -/
theorem affinities_eq_iff (h : l.Perm l') :
    l.foldl addPlacement ∅ = l'.foldl addPlacement ∅ ↔ ∀ target,
      (placementsOf l target).flatMap podTerms = (placementsOf l' target).flatMap podTerms ∧
      (placementsOf l target).flatMap nodeTerms = (placementsOf l' target).flatMap nodeTerms := by
  have hNone : ∀ target, placementsOf l target = [] ↔ placementsOf l' target = [] := by
    intro target
    have hPerm : (placementsOf l target).Perm (placementsOf l' target) := h.filter _
    exact ⟨fun hNil => List.nil_perm.mp (hNil ▸ hPerm), fun hNil => List.perm_nil.mp (hNil ▸ hPerm)⟩
  constructor
  · intro hEq target
    have hLookup := congrArg (fun m : StringMap Affinity => m.lookup target) hEq
    simp only [lookup_affinities, hNone target] at hLookup
    split at hLookup
    · next hNil => rw [hNil, (hNone target).mpr hNil]; exact ⟨rfl, rfl⟩
    · simp only [Option.some.injEq, Affinity.mk.injEq] at hLookup
      exact ⟨extend_none_inj hLookup.1, extend_none_inj hLookup.2⟩
  · intro hTerms
    apply Finmap.ext_lookup
    intro target
    simp only [lookup_affinities, hNone target, (hTerms target).1, (hTerms target).2]

/-- The terms of two placements may be exchanged. -/
def Exchangeable (p q : Placement) : Prop :=
  podTerms p ++ podTerms q = podTerms q ++ podTerms p ∧
    nodeTerms p ++ nodeTerms q = nodeTerms q ++ nodeTerms p

/-- No order matters exactly if any two placements of one target may be
exchanged. -/
theorem affinities_perm_iff (l : List Placement) :
    (∀ l', l.Perm l' → l.foldl addPlacement ∅ = l'.foldl addPlacement ∅) ↔
      ∀ p ∈ l, ∀ q ∈ l, p.targetContainer = q.targetContainer → Exchangeable p q := by
  constructor
  · intro h p hp q hq hTarget
    by_cases hEq : p = q
    · rw [hEq]
      exact ⟨rfl, rfl⟩
    have hq' : q ∈ l.erase p := (List.mem_erase_of_ne (fun h => hEq h.symm)).mpr hq
    have hFirst : l.Perm (p :: q :: (l.erase p).erase q) :=
      (List.perm_cons_erase hp).trans ((List.perm_cons_erase hq').cons p)
    have hSecond : l.Perm (q :: p :: (l.erase p).erase q) := hFirst.trans (List.Perm.swap ..)
    have hSame := (h _ hFirst).symm.trans (h _ hSecond)
    have hTerms := (affinities_eq_iff (List.Perm.swap ..)).mp hSame q.targetContainer
    simp only [placementsOf, List.filter_cons, hTarget, decide_true, if_true, List.flatMap_cons,
      ← List.append_assoc, List.append_cancel_right_eq] at hTerms
    exact hTerms
  · intro h l' hPerm
    rw [affinities_eq_iff hPerm]
    intro target
    have hExchange : ∀ p ∈ placementsOf l target, ∀ q ∈ placementsOf l target,
        Exchangeable p q := by
      intro p hp q hq
      simp only [placementsOf, List.mem_filter, decide_eq_true_eq] at hp hq
      exact h p hp.1 q hq.1 (hp.2.trans hq.2.symm)
    exact ⟨Words.flatMap_eq_of_perm (hPerm.filter _) (fun p hp q hq => (hExchange p hp q hq).1),
      Words.flatMap_eq_of_perm (hPerm.filter _) (fun p hp q hq => (hExchange p hp q hq).2)⟩

end Order

section Exchange

variable {p q : Placement}

/-- The placement restricts the machine. -/
def OnMachine (plcm : Placement) : Prop := ∃ c ∈ nodeConstraints plcm, c.2 ≠ ""

/-- The restrictions are the same. -/
structure SameMachine (p q : Placement) : Prop where
  provider : p.provider = q.provider
  region : p.region = q.region
  size : p.size = q.size
  floatingIP : p.floatingIP = q.floatingIP
  exclusive : p.exclusive = q.exclusive

theorem podAffinityTerm_inj {first second : String} :
    podAffinityTerm first = podAffinityTerm second ↔ first = second := by
  constructor
  · intro h
    have hLookup := congrArg (fun term => term.matchLabels.lookup hostnameKey) h
    simpa [podAffinityTerm] using hLookup
  · intro h
    rw [h]

/-- Terms of other containers may only be exchanged with themselves. -/
theorem podTerms_comm_iff :
    podTerms p ++ podTerms q = podTerms q ++ podTerms p ↔
      (p.exclusive = true → q.exclusive = true → p.otherContainer ≠ "" → q.otherContainer ≠ "" →
        p.otherContainer = q.otherContainer) := by
  by_cases hp : p.otherContainer ≠ "" ∧ p.exclusive = true
  · by_cases hq : q.otherContainer ≠ "" ∧ q.exclusive = true
    · rw [podTerms, if_pos hp, podTerms, if_pos hq]
      simp only [List.cons_append, List.nil_append, List.cons.injEq, podAffinityTerm_inj]
      constructor
      · intro h _ _ _ _
        exact h.1
      · intro h
        have hEq := h hp.2 hq.2 hp.1 hq.1
        exact ⟨hEq, hEq.symm, trivial⟩
    · rw [podTerms, podTerms, if_neg hq, List.append_nil, List.nil_append]
      exact ⟨fun _ _ hExcl _ hOther => absurd ⟨hOther, hExcl⟩ hq, fun _ => rfl⟩
  · rw [podTerms, if_neg hp, List.append_nil, List.nil_append]
    exact ⟨fun _ hExcl _ hOther _ => absurd ⟨hOther, hExcl⟩ hp, fun _ => rfl⟩

theorem nodeRequirement_inj {key key' value value' : String} {exclusive exclusive' : Bool}
    (h : nodeRequirement key value exclusive = nodeRequirement key' value' exclusive') :
    key = key' ∧ value = value' ∧ exclusive = exclusive' := by
  simp only [nodeRequirement, NodeSelectorRequirement.mk.injEq, List.cons.injEq, and_true] at h
  obtain ⟨hKey, hOp, hValue⟩ := h
  refine ⟨hKey, hValue, ?_⟩
  cases exclusive <;> cases exclusive' <;> simp_all

theorem nodup_nodeConstraints (plcm : Placement) :
    ((nodeConstraints plcm).map Prod.fst).Nodup := by
  change [providerKey, regionKey, sizeKey, floatingIPKey].Nodup
  decide

theorem mem_nodeTerms {plcm : Placement} {r : NodeSelectorRequirement} :
    r ∈ nodeTerms plcm ↔ ∃ c ∈ nodeConstraints plcm, c.2 ≠ "" ∧
      r = nodeRequirement c.1 c.2 plcm.exclusive := by
  simp only [nodeTerms, List.mem_map, List.mem_filter, decide_eq_true_eq]
  constructor
  · rintro ⟨c, ⟨hc, hValue⟩, rfl⟩
    exact ⟨c, hc, hValue, rfl⟩
  · rintro ⟨c, hc, hValue, rfl⟩
    exact ⟨c, ⟨hc, hValue⟩, rfl⟩

theorem nodeTerms_ne_nil_iff {plcm : Placement} : nodeTerms plcm ≠ [] ↔ OnMachine plcm := by
  constructor
  · intro h
    obtain ⟨r, hr⟩ := List.exists_mem_of_ne_nil _ h
    obtain ⟨c, hc, hValue, -⟩ := mem_nodeTerms.mp hr
    exact ⟨c, hc, hValue⟩
  · rintro ⟨c, hc, hValue⟩
    exact List.ne_nil_of_mem (mem_nodeTerms.mpr ⟨c, hc, hValue, rfl⟩)

theorem nodup_nodeTerms (plcm : Placement) : (nodeTerms plcm).Nodup := by
  have hKeys : ((nodeTerms plcm).map NodeSelectorRequirement.key).Nodup := by
    rw [nodeTerms, List.map_map]
    exact (nodup_nodeConstraints plcm).sublist (List.filter_sublist.map _)
  exact hKeys.of_map

/-- The requirements say what the restrictions are. -/
theorem constraint_of_nodeTerms_eq (h : nodeTerms p = nodeTerms q) {c : String × String}
    (hc : c ∈ nodeConstraints p) (hValue : c.2 ≠ "") :
    c ∈ nodeConstraints q ∧ p.exclusive = q.exclusive := by
  have hMem : nodeRequirement c.1 c.2 p.exclusive ∈ nodeTerms q :=
    h ▸ mem_nodeTerms.mpr ⟨c, hc, hValue, rfl⟩
  obtain ⟨c', hc', -, hEq⟩ := mem_nodeTerms.mp hMem
  obtain ⟨hKey, hVal, hExclusive⟩ := nodeRequirement_inj hEq
  rw [Prod.ext hKey hVal]
  exact ⟨hc', hExclusive⟩

theorem value_eq_of_nodeTerms_eq (h : nodeTerms p = nodeTerms q) (key : String)
    {value value' : String} (hp : (key, value) ∈ nodeConstraints p) (hq : (key, value') ∈ nodeConstraints q) :
    value = value' := by
  by_cases hValue : value = ""
  · by_cases hValue' : value' = ""
    · rw [hValue, hValue']
    · have hp' := (constraint_of_nodeTerms_eq h.symm hq hValue').1
      exact (Prod.ext_iff.mp (List.inj_on_of_nodup_map (nodup_nodeConstraints p) hp hp' rfl)).2
  · have hq' := (constraint_of_nodeTerms_eq h hp hValue).1
    exact (Prod.ext_iff.mp (List.inj_on_of_nodup_map (nodup_nodeConstraints q) hq' hq rfl)).2

theorem nodeTerms_eq_iff (hp : OnMachine p) : nodeTerms p = nodeTerms q ↔ SameMachine p q := by
  constructor
  · intro h
    obtain ⟨c, hc, hValue⟩ := hp
    constructor
    · exact value_eq_of_nodeTerms_eq h providerKey (by simp [nodeConstraints])
        (by simp [nodeConstraints])
    · exact value_eq_of_nodeTerms_eq h regionKey (by simp [nodeConstraints])
        (by simp [nodeConstraints])
    · exact value_eq_of_nodeTerms_eq h sizeKey (by simp [nodeConstraints])
        (by simp [nodeConstraints])
    · exact value_eq_of_nodeTerms_eq h floatingIPKey (by simp [nodeConstraints])
        (by simp [nodeConstraints])
    · exact (constraint_of_nodeTerms_eq h hc hValue).2
  · intro h
    rw [nodeTerms, nodeTerms, nodeConstraints, nodeConstraints, h.provider, h.region, h.size,
      h.floatingIP, h.exclusive]

theorem nodeTerms_comm_iff :
    nodeTerms p ++ nodeTerms q = nodeTerms q ++ nodeTerms p ↔
      (OnMachine p → OnMachine q → SameMachine p q) := by
  constructor
  · intro h hp hq
    rw [← nodeTerms_eq_iff hp]
    exact Words.eq_of_append_comm (nodeTerms_ne_nil_iff.mpr hp) (nodeTerms_ne_nil_iff.mpr hq)
      (nodup_nodeTerms p) (nodup_nodeTerms q) h
  · intro h
    by_cases hp : OnMachine p
    · by_cases hq : OnMachine q
      · rw [(nodeTerms_eq_iff hp).mpr (h hp hq)]
      · rw [not_not.mp (mt nodeTerms_ne_nil_iff.mp hq), List.append_nil, List.nil_append]
    · rw [not_not.mp (mt nodeTerms_ne_nil_iff.mp hp), List.append_nil, List.nil_append]

end Exchange

section History

variable {view view' : Database}

def dropID (plcm : Placement) : Placement := { plcm with id := 0 }

/-- The same placements with other IDs. -/
def SamePlacements (view view' : Database) : Prop :=
  ((view.rows .placement).map dropID).Perm ((view'.rows .placement).map dropID)

theorem foldl_dropID (l : List Placement) :
    (l.map dropID).foldl addPlacement ∅ = l.foldl addPlacement ∅ := by
  rw [List.foldl_map]
  rfl

/-- The table is sorted in one way, whatever the order of the walk. -/
theorem toAffinities_selectAll (ord : MapOrder) :
    toAffinities (view.selectAll ord .placement) =
      (sortSlice placementLess (view.rows .placement)).foldl addPlacement ∅ := by
  have hLess : ∀ a b : Placement, placementLess a b = true ↔ a.id < b.id :=
    fun a b => decide_eq_true_iff
  rw [toAffinities, sortSlice_eq hLess (view.selectAll_perm ord .placement)]
  exact ((view.selectAll_perm ord .placement).map Placement.id).nodup_iff.mpr
    (view.nodup .placement)

/-- Number placements in the order in which they stand. -/
def renumber (l : List Placement) : List Placement :=
  (l.zipIdx 1).map (fun e => { e.1 with id := e.2 })

theorem map_dropID_renumber (l : List Placement) : (renumber l).map dropID = l.map dropID := by
  have hFst : ((l.zipIdx 1).map Prod.fst).map dropID = l.map dropID := by rw [List.zipIdx_map_fst]
  rw [← hFst, renumber, List.map_map, List.map_map]
  rfl

theorem map_id_renumber (l : List Placement) :
    (renumber l).map Placement.id = List.range' 1 l.length := by
  rw [← List.zipIdx_map_snd 1 l, renumber, List.map_map]
  rfl

/-- A leader that inserted the placements in this order. -/
def numbered (l : List Placement) : Database where
  rows
    | .placement => renumber l
    | _ => []
  shouldAlert := fun _ => false
  curID := l.length
  nodup := fun tt => by
    cases tt with
    | placement =>
        change ((renumber l).map Placement.id).Nodup
        rw [map_id_renumber]
        exact List.nodup_range'
    | _ => simp
  bounded := fun tt => by
    cases tt with
    | placement =>
        intro r hr
        have hID : r.id ∈ (renumber l).map Placement.id := List.mem_map_of_mem hr
        rw [map_id_renumber, List.mem_range'_1] at hID
        change r.id ≤ l.length
        omega
    | _ => simp

/-- Its affinities have the terms in this order. -/
theorem toAffinities_numbered (l : List Placement) (ord : MapOrder) :
    toAffinities ((numbered l).selectAll ord .placement) = l.foldl addPlacement ∅ := by
  have hSorted : (renumber l).Pairwise (fun a b => placementLess b a = false) := by
    have hIDs : ((renumber l).map Placement.id).Pairwise (· < ·) := by
      rw [map_id_renumber]
      exact List.pairwise_lt_range'
    apply (List.pairwise_map.mp hIDs).imp
    intro a b hLt
    exact decide_eq_false (by omega)
  have hSlice : sortSlice placementLess (renumber l) = renumber l := hSorted.insertionSort_eq
  rw [toAffinities_selectAll]
  change (sortSlice placementLess (renumber l)).foldl addPlacement ∅ = _
  rw [hSlice, ← foldl_dropID, map_dropID_renumber, foldl_dropID]

/-- The affinities do not depend on the IDs exactly if, for each target, all
exclusive placements name the same other container, and all placements on
machines are the same. -/
theorem toAffinities_history_iff (view : Database) :
    (∀ view', SamePlacements view view' → ∀ ord ord',
      toAffinities (view.selectAll ord .placement) =
        toAffinities (view'.selectAll ord' .placement)) ↔
    ∀ p ∈ view.rows .placement, ∀ q ∈ view.rows .placement,
      p.targetContainer = q.targetContainer →
        (p.exclusive = true → q.exclusive = true → p.otherContainer ≠ "" →
          q.otherContainer ≠ "" → p.otherContainer = q.otherContainer) ∧
        (OnMachine p → OnMachine q → SameMachine p q) := by
  have hExchange := affinities_perm_iff (view.rows .placement)
  simp only [Exchangeable, podTerms_comm_iff, nodeTerms_comm_iff] at hExchange
  rw [← hExchange]
  constructor
  · intro h l' hPerm
    have hFirst := h (numbered (view.rows .placement))
      (List.Perm.of_eq (map_dropID_renumber _).symm) .stored .stored
    have hSecond := h (numbered l')
      ((hPerm.map dropID).trans (List.Perm.of_eq (map_dropID_renumber _).symm)) .stored .stored
    rw [toAffinities_numbered] at hFirst hSecond
    exact hFirst.symm.trans hSecond
  · intro h view' hSame ord ord'
    rw [toAffinities_selectAll, toAffinities_selectAll,
      ← h _ (sortSlice_perm placementLess (view.rows .placement)).symm]
    have hSorted : ((sortSlice placementLess (view'.rows .placement)).map dropID).Perm
        ((view.rows .placement).map dropID) :=
      ((sortSlice_perm placementLess (view'.rows .placement)).map dropID).trans hSame.symm
    obtain ⟨l', hPerm, hMap⟩ := List.Perm.exists_map_eq hSorted
    rw [h l' hPerm.symm, ← foldl_dropID l', ← hMap, foldl_dropID]

/-- A container that must not run next to two others. -/
def awayFrom (otherContainer : String) : Placement :=
  { id := 0, targetContainer := "web", exclusive := true, otherContainer := otherContainer }

/-- Two leaders that inserted its placements in different orders. -/
theorem renumbered_affinities_differ :
    SamePlacements (numbered [awayFrom "db", awayFrom "cache"])
        (numbered [awayFrom "cache", awayFrom "db"]) ∧
      toAffinities ((numbered [awayFrom "db", awayFrom "cache"]).selectAll .stored .placement) ≠
        toAffinities
          ((numbered [awayFrom "cache", awayFrom "db"]).selectAll .stored .placement) := by
  constructor
  · exact List.Perm.swap ..
  · rw [toAffinities_numbered, toAffinities_numbered]
    decide

end History

end Kelda.Kubernetes
