import Kelda.Kubernetes.Status

/-! What a round of status updates reports about the containers, and what it
leaves behind of earlier rounds. -/
namespace Kelda.Kubernetes

open DB Join Minion

variable {sha1 : String → String} {items : List Pod} {secretClient : String → Option String}
  {view view' after after' : Database} {ords ords' : Nat → MapOrder} {c d : DB.Container}

/-- The key of a row, which is the same for all walks over its maps. -/
def rowKey (sha1 : String → String) (dbc : DB.Container) : JoinKey :=
  dbcKey sha1 (fun _ => .stored) dbc

/-- Some pod has the key of the container. -/
def HasPod (sha1 : String → String) (items : List Pod) (dbc : DB.Container) : Prop :=
  ∃ pod ∈ items, podKey pod = some (rowKey sha1 dbc)

section Round

/-- The join of a round. -/
def joined (sha1 : String → String) (ords : Nat → MapOrder) (items : List Pod) (view : Database) :
    Result DB.Container Pod :=
  hashJoin (laterOrders ords 2 0) (view.selectAll (ords 0) .container) items
    (fun dbc => some (rowKey sha1 dbc)) podKey

theorem joined_reconciles :
    Reconciles (view.selectAll (ords 0) .container) items (fun dbc => some (rowKey sha1 dbc)) podKey
      (joined sha1 ords items view) :=
  hashJoin_reconciles ..

theorem joinContainersToPods_eq :
    joinContainersToPods sha1 (laterOrders ords 2) (view.selectAll (ords 0) .container) items =
      ((joined sha1 ords items view).pairs, (joined sha1 ords items view).lonelyLefts) := by
  have hKey : (fun dbc => some (dbcKey sha1 (laterOrders (laterOrders ords 2) 1) dbc)) =
      fun dbc => some (rowKey sha1 dbc) := by
    funext dbc
    rw [rowKey, dbcKey_eq]
  rw [joinContainersToPods, hKey, joined]

/-- The rows that the join returns are different rows of the table. The others
share their key with one of them. -/
theorem exists_untouched (sha1 : String → String) (ords : Nat → MapOrder) (items : List Pod)
    (view : Database) :
    ∃ untouched, (untouched ++ (joined sha1 ords items view).pairs.map Pair.L ++
      (joined sha1 ords items view).lonelyLefts).Perm (view.rows .container) := by
  have hJoin : Reconciles _ _ _ _ (joined sha1 ords items view) := joined_reconciles
  obtain ⟨picked, hPerm, hSub⟩ := hJoin.leftKeys.of_map.subperm hJoin.lefts
  obtain ⟨untouched, hAll⟩ := hSub.exists_perm_append
  refine ⟨untouched, ?_⟩
  rw [List.append_assoc]
  exact List.perm_append_comm.trans ((hPerm.symm.append_right _).trans
    (hAll.symm.trans (view.selectAll_perm _ _)))

/-- A round always succeeds. The rows with a pod and those without one are
rewritten, the others are left. -/
structure Reported (sha1 : String → String) (ords : Nat → MapOrder) (items : List Pod)
    (view after : Database) (untouched : List DB.Container) (status : DB.Container → String) :
    Prop where
  before : (untouched ++ (joined sha1 ords items view).pairs.map Pair.L ++
    (joined sha1 ords items view).lonelyLefts).Perm (view.rows .container)
  after : (after.rows .container).Perm
    (untouched ++ (joined sha1 ords items view).pairs.map (fun p => withPod p.L p.R) ++
      (joined sha1 ords items view).lonelyLefts.map (fun dbc => withoutPod dbc (status dbc)))

theorem exists_reported (sha1 : String → String) (ords : Nat → MapOrder) (items : List Pod)
    (secretClient : String → Option String) (view : Database) :
    ∃ after untouched status,
      updateContainerStatuses sha1 ords (some items) secretClient view = .ok after ∧
      Reported sha1 ords items view after untouched status := by
  obtain ⟨untouched, hBefore⟩ := exists_untouched sha1 ords items view
  have hRights : ((joined sha1 ords items view).pairs.map Pair.swap).map Pair.R =
      (joined sha1 ords items view).pairs.map Pair.L := by
    rw [List.map_map]
    rfl
  have hPaired : ((untouched ++ (joined sha1 ords items view).lonelyLefts) ++
      ((joined sha1 ords items view).pairs.map Pair.swap).map Pair.R).Perm
      (view.rows .container) := by
    rw [hRights]
    refine List.Perm.trans ?_ hBefore
    rw [List.append_assoc, List.append_assoc]
    exact List.perm_append_comm.append_left _
  have hWith : ∀ (pod : Pod) (dbc : RowOf .container),
      getID .container (withPod dbc pod) = getID .container dbc := fun _ _ => rfl
  obtain ⟨mid, hCommit, hMid, -, -⟩ := view.commitAll_perm hWith _ hPaired
  rw [List.map_map] at hMid
  let status : DB.Container → String := statusForContainer sha1 (laterOrders ords 7)
    (KeyedMap.fill imageKeyOf (mid.selectAll (ords 1) .image)) secretClient
  have hLonely : ((untouched ++ (joined sha1 ords items view).pairs.map
      (fun p => withPod p.L p.R)) ++ (joined sha1 ords items view).lonelyLefts).Perm
      (mid.rows .container) := by
    refine List.Perm.trans ?_ hMid.symm
    rw [List.append_assoc, List.append_assoc]
    exact List.perm_append_comm.append_left _
  have hWithout : ∀ dbc : RowOf .container,
      getID .container (withoutPod dbc (status dbc)) = getID .container dbc := fun _ => rfl
  obtain ⟨after, hEach, hAfter, -, -⟩ := mid.commitEach_perm hWithout _ hLonely
  refine ⟨after, untouched, status, ?_, hBefore, hAfter⟩
  rw [updateContainerStatuses, joinContainersToPods_eq]
  change (view.commitAll .container (fun pod dbc => withPod dbc pod)
    ((joined sha1 ords items view).pairs.map Pair.swap)).bind _ = _
  rw [hCommit]
  exact hEach

/-- The rows after a round, each with the row that it was. -/
theorem Reported.cases {untouched : List DB.Container} {status : DB.Container → String}
    (h : Reported sha1 ords items view after untouched status) {r : DB.Container}
    (hr : r ∈ after.rows .container) :
    ∃ dbc ∈ view.rows .container, r = dbc ∨
      (∃ pod, items.find? (fun pod => podKey pod = some (rowKey sha1 dbc)) = some pod ∧
        r = withPod dbc pod) ∨
      ¬HasPod sha1 items dbc ∧ ∃ text, r = withoutPod dbc text := by
  have hJoin : Reconciles _ _ _ _ (joined sha1 ords items view) := joined_reconciles
  have hIn : ∀ dbc, dbc ∈ untouched ++ (joined sha1 ords items view).pairs.map Pair.L ++
      (joined sha1 ords items view).lonelyLefts → dbc ∈ view.rows .container :=
    fun dbc => h.before.mem_iff.mp
  rw [h.after.mem_iff, List.mem_append, List.mem_append] at hr
  rcases hr with (hr | hr) | hr
  · exact ⟨r, hIn r (List.mem_append_left _ (List.mem_append_left _ hr)), Or.inl rfl⟩
  · obtain ⟨p, hp, rfl⟩ := List.mem_map.mp hr
    refine ⟨p.L, hIn p.L (List.mem_append_left _ (List.mem_append_right _
      (List.mem_map_of_mem hp))), Or.inr (Or.inl ⟨p.R, ?_, rfl⟩)⟩
    rw [hJoin.sameKey p hp]
    rcases first_of_mem_pairs items hp with hNone | ⟨-, hFirst⟩
    · cases hNone
    · exact hFirst
  · obtain ⟨dbc, hDbc, rfl⟩ := List.mem_map.mp hr
    refine ⟨dbc, hIn dbc (List.mem_append_right _ hDbc), Or.inr (Or.inr ⟨?_, _, rfl⟩)⟩
    rintro ⟨pod, hPod, hKey⟩
    exact hJoin.unmatched dbc hDbc pod hPod hKey.symm

end Round

section Past

/-- A container without what the rounds say about it. -/
def eraseStatus (dbc : DB.Container) : DB.Container :=
  { dbc with
    status := ""
    created := 0
    podName := ""
    minion := "" }

/-- Tables that differ only in what the rounds say. -/
structure SameButStatus (view view' : Database) : Prop where
  containers : ((view.rows .container).map eraseStatus).Perm
    ((view'.rows .container).map eraseStatus)
  images : view.rows .image = view'.rows .image

theorem rowKey_eraseStatus (dbc : DB.Container) :
    rowKey sha1 (eraseStatus dbc) = rowKey sha1 dbc := rfl

/-- What a container with a pod is told. -/
def report (sha1 : String → String) (items : List Pod) (dbc : DB.Container) : DB.Container :=
  match items.find? (fun pod => podKey pod = some (rowKey sha1 dbc)) with
  | some pod => withPod dbc pod
  | none => dbc

/-- It does not depend on what it was told before. -/
theorem report_eraseStatus (h : HasPod sha1 items c) :
    report sha1 items (eraseStatus c) = report sha1 items c := by
  obtain ⟨pod, hPod, hKey⟩ := h
  rw [report, report, rowKey_eraseStatus]
  cases hFind : items.find? (fun pod => podKey pod = some (rowKey sha1 c)) with
  | some pod => rfl
  | none =>
      rw [List.find?_eq_none] at hFind
      exact absurd (decide_eq_true hKey) (hFind pod hPod)

/-- If each container has a pod and a key of its own, all are told. -/
theorem Reported.rows_perm {untouched : List DB.Container} {status : DB.Container → String}
    (h : Reported sha1 ords items view after untouched status)
    (hPods : ∀ dbc ∈ view.rows .container, HasPod sha1 items dbc)
    (hKeys : ((view.rows .container).map (rowKey sha1)).Nodup) :
    (after.rows .container).Perm ((view.rows .container).map (report sha1 items)) := by
  have hJoin : Reconciles _ _ _ _ (joined sha1 ords items view) := joined_reconciles
  have hLonely : (joined sha1 ords items view).lonelyLefts = [] := by
    rw [hJoin.lonelyLefts_eq_nil_iff]
    intro dbc hDbc
    exact hPods dbc (view.mem_selectAll.mp hDbc)
  have hBefore := h.before
  have hAfter := h.after
  rw [hLonely, List.append_nil] at hBefore
  rw [hLonely, List.map_nil, List.append_nil] at hAfter
  have hUntouched : untouched = [] := by
    refine List.eq_nil_iff_forall_not_mem.mpr (fun dbc hDbc => ?_)
    have hMem : dbc ∈ view.rows .container := hBefore.mem_iff.mp (List.mem_append_left _ hDbc)
    obtain ⟨dbc', hPicked, hKey⟩ := hJoin.covers dbc (view.mem_selectAll.mpr hMem)
    rw [hLonely, List.append_nil] at hPicked
    have hMem' : dbc' ∈ view.rows .container :=
      hBefore.mem_iff.mp (List.mem_append_right _ hPicked)
    obtain rfl := List.inj_on_of_nodup_map hKeys hMem' hMem (Option.some.inj hKey)
    have hNodup := hBefore.nodup_iff.mpr hKeys.of_map
    exact (List.nodup_append'.mp hNodup).2.2 hDbc hPicked
  rw [hUntouched, List.nil_append] at hBefore hAfter
  refine hAfter.trans (List.Perm.trans (List.Perm.of_eq ?_) (hBefore.map _))
  rw [List.map_map]
  apply List.map_congr_left
  intro p hp
  rcases first_of_mem_pairs items hp with hNone | ⟨-, hFirst⟩
  · cases hNone
  · simp only [Function.comp_apply, report, hJoin.sameKey p hp, hFirst]

/-- A container without a pod keeps the name of its pod and its worker. -/
theorem Reported.keeps {untouched : List DB.Container} {status : DB.Container → String}
    (h : Reported sha1 ords items view after untouched status) (hc : c ∈ view.rows .container)
    (hPod : ¬HasPod sha1 items c) {r : DB.Container} (hr : r ∈ after.rows .container)
    (hID : r.id = c.id) : r.podName = c.podName ∧ r.minion = c.minion := by
  obtain ⟨dbc, hDbc, hCases⟩ := h.cases hr
  have hSame : dbc.id = c.id → dbc = c := view.eq_of_getID_eq hDbc hc
  rcases hCases with rfl | ⟨pod, hFind, rfl⟩ | ⟨-, text, rfl⟩
  · obtain rfl := hSame hID
    exact ⟨rfl, rfl⟩
  · obtain rfl := hSame hID
    have hKey := List.find?_some hFind
    exact absurd ⟨pod, List.mem_of_find?_eq_some hFind, of_decide_eq_true hKey⟩ hPod
  · obtain rfl := hSame hID
    exact ⟨rfl, rfl⟩

/-- The IDs are those of the table. -/
theorem Reported.exists_row {untouched : List DB.Container} {status : DB.Container → String}
    (h : Reported sha1 ords items view after untouched status) (hc : c ∈ view.rows .container) :
    ∃ r ∈ after.rows .container, r.id = c.id := by
  rw [← h.before.mem_iff, List.mem_append, List.mem_append] at hc
  simp only [h.after.mem_iff, List.mem_append, List.mem_map]
  rcases hc with (hc | hc) | hc
  · exact ⟨c, Or.inl (Or.inl hc), rfl⟩
  · obtain ⟨p, hp, rfl⟩ := List.mem_map.mp hc
    exact ⟨_, Or.inl (Or.inr ⟨p, hp, rfl⟩), rfl⟩
  · exact ⟨_, Or.inr ⟨c, hc, rfl⟩, rfl⟩

/-- A container that is followed by another one with its key is left. -/
theorem Reported.left_alone {untouched : List DB.Container} {status : DB.Container → String}
    (h : Reported sha1 ords items view after untouched status) (hc : c ∈ view.rows .container)
    {rest : List DB.Container} (hLast : view.selectAll (ords 0) .container = rest ++ [d])
    (hKey : rowKey sha1 c = rowKey sha1 d) (hNe : c ≠ d) : c ∈ after.rows .container := by
  rw [← h.before.mem_iff, List.append_assoc, List.mem_append] at hc
  rcases hc with hc | hc
  · rw [h.after.mem_iff]
    exact List.mem_append_left _ (List.mem_append_left _ hc)
  · have hLookup := lookup_of_result hc
    have hFilled := KeyedMap.lookup_fill_append (fun dbc => some (rowKey sha1 dbc)) rest d
    rw [hLast, hKey, hFilled] at hLookup
    exact absurd (Option.some.inj hLookup).symm hNe

/-- Another past of one container. -/
theorem exists_other_past (hc : c ∈ view.rows .container) {c' : DB.Container}
    (hErase : eraseStatus c = eraseStatus c') :
    ∃ view', SameButStatus view view' ∧ c' ∈ view'.rows .container ∧
      ∀ dbc ∈ view.rows .container, dbc ≠ c → dbc ∈ view'.rows .container := by
  have hID : (eraseStatus c).id = (eraseStatus c').id := by rw [hErase]
  obtain ⟨view', -, hRows, -, hTouches⟩ := view.commit_spec hc (show getID .container c =
    getID .container c' from hID)
  have hReplaced : ∀ dbc ∈ view.rows .container,
      (if getID .container dbc = getID .container c' then c' else dbc) =
        if dbc = c then c' else dbc := by
    intro dbc hDbc
    by_cases hEq : dbc = c
    · rw [if_pos hEq, if_pos (show getID .container dbc = getID .container c' by rw [hEq]; exact hID)]
    · rw [if_neg hEq, if_neg]
      intro hSame
      exact hEq (view.eq_of_getID_eq hDbc hc (hSame.trans hID.symm))
  rw [Database.replaceRow, List.map_congr_left hReplaced] at hRows
  refine ⟨view', ⟨?_, (hTouches.rows .image (by decide)).symm⟩, ?_, ?_⟩
  · rw [hRows, List.map_map]
    refine List.Perm.of_eq (List.map_congr_left (fun dbc _ => ?_))
    rw [Function.comp_apply]
    split
    · next hEq => rw [hEq, hErase]
    · rfl
  · rw [hRows]
    exact List.mem_map.mpr ⟨c, hc, if_pos rfl⟩
  · intro dbc hDbc hNe
    rw [hRows]
    exact List.mem_map.mpr ⟨dbc, hDbc, if_neg hNe⟩

/-- Tables with different pasts have the same keys. -/
theorem SameButStatus.keys_perm (h : SameButStatus view view') :
    ((view.rows .container).map (rowKey sha1)).Perm ((view'.rows .container).map (rowKey sha1)) := by
  have hKeys := h.containers.map (rowKey sha1)
  rw [List.map_map, List.map_map] at hKeys
  exact hKeys

theorem SameButStatus.hasPod (h : SameButStatus view view')
    (hPods : ∀ dbc ∈ view.rows .container, HasPod sha1 items dbc) :
    ∀ dbc ∈ view'.rows .container, HasPod sha1 items dbc := by
  intro dbc hDbc
  have hKey : rowKey sha1 dbc ∈ (view.rows .container).map (rowKey sha1) :=
    h.keys_perm.mem_iff.mpr (List.mem_map_of_mem hDbc)
  obtain ⟨dbc', hDbc', hEq⟩ := List.mem_map.mp hKey
  obtain ⟨pod, hPod, hPodKey⟩ := hPods dbc' hDbc'
  exact ⟨pod, hPod, hEq ▸ hPodKey⟩

theorem map_report_eraseStatus (hPods : ∀ dbc ∈ view.rows .container, HasPod sha1 items dbc) :
    ((view.rows .container).map eraseStatus).map (report sha1 items) =
      (view.rows .container).map (report sha1 items) := by
  rw [List.map_map]
  exact List.map_congr_left (fun dbc hDbc => report_eraseStatus (hPods dbc hDbc))

/-- A round reports the same whatever the last round has reported. -/
def ReportsAlike (sha1 : String → String) (items : List Pod) (view : Database) : Prop :=
  ∀ view' ords ords', SameButStatus view view' → ∃ after after' u u' s s',
    Reported sha1 ords items view after u s ∧ Reported sha1 ords' items view' after' u' s' ∧
    (after.rows .container).Perm (after'.rows .container)

/-- A container without a pod keeps the name of the pod that it had. -/
theorem ReportsAlike.hasPod (h : ReportsAlike sha1 items view) :
    ∀ c ∈ view.rows .container, HasPod sha1 items c := by
  intro c hc
  by_contra hPod
  let c' : DB.Container := { c with podName := c.podName ++ "x" }
  have hErase : eraseStatus c = eraseStatus c' := rfl
  obtain ⟨view', hSame, hc', -⟩ := exists_other_past hc hErase
  obtain ⟨after, after', u, u', s, s', hReported, hReported', hPerm⟩ :=
    h view' (fun _ => .stored) (fun _ => .stored) hSame
  obtain ⟨r, hr, hID⟩ := hReported.exists_row hc
  have hName := (hReported.keeps hc hPod hr hID).1
  have hName' := (hReported'.keeps hc' hPod (hPerm.mem_iff.mp hr) hID).1
  rw [hName] at hName'
  have hLength := congrArg String.length hName'
  simp [c'] at hLength

/-- Of two containers with one key, the one that is left keeps its status. -/
theorem ReportsAlike.keys_nodup (h : ReportsAlike sha1 items view) :
    ((view.rows .container).map (rowKey sha1)).Nodup := by
  rw [List.nodup_map_iff_inj_on (view.nodup .container).of_map]
  intro c hc d hd hKey
  by_contra hNe
  let c' : DB.Container := { c with status := c.status ++ "x" }
  have hErase : eraseStatus c = eraseStatus c' := rfl
  obtain ⟨view', hSame, hc', hOthers⟩ := exists_other_past hc hErase
  have hd' : d ∈ view'.rows .container := hOthers d hd (fun hEq => hNe hEq.symm)
  have hNe' : c' ≠ d := by
    intro hEq
    have hID : c'.id = d.id := by rw [hEq]
    exact hNe (view.eq_of_getID_eq hc hd hID)
  obtain ⟨ord, hLast⟩ := view.exists_selectAll_eq
    ((List.perm_cons_erase hd).trans (List.perm_append_singleton d _).symm)
  obtain ⟨ord', hLast'⟩ := view'.exists_selectAll_eq
    ((List.perm_cons_erase hd').trans (List.perm_append_singleton d _).symm)
  obtain ⟨after, after', u, u', s, s', hReported, hReported', hPerm⟩ :=
    h view' (fun _ => ord) (fun _ => ord') hSame
  have hLeft := hReported.left_alone hc hLast hKey hNe
  have hLeft' := hReported'.left_alone hc' hLast' hKey hNe'
  have hEq : c = c' := after'.eq_of_getID_eq (hPerm.mem_iff.mp hLeft) hLeft' rfl
  have hLength := congrArg (fun dbc => dbc.status.length) hEq
  simp [c'] at hLength

/-- The rows do not depend on the past, and nothing is left of it, exactly if
each container has a pod and a key of its own. -/
theorem updateContainerStatuses_forgets_iff (sha1 : String → String) (items : List Pod)
    (secretClient : String → Option String) (view : Database) :
    ((∀ view', SameButStatus view view' → ∀ ords ords', ∃ after after',
        updateContainerStatuses sha1 ords (some items) secretClient view = .ok after ∧
        updateContainerStatuses sha1 ords' (some items) secretClient view' = .ok after' ∧
        (after.rows .container).Perm (after'.rows .container)) ∧
      ∀ ords after, updateContainerStatuses sha1 ords (some items) secretClient view = .ok after →
        ∀ c ∈ view.rows .container, ¬HasPod sha1 items c →
        ∀ r ∈ after.rows .container, r.id = c.id → r.podName = "" ∧ r.minion = "") ↔
    (∀ c ∈ view.rows .container, HasPod sha1 items c) ∧
      ((view.rows .container).map (rowKey sha1)).Nodup := by
  constructor
  · rintro ⟨hForgets, -⟩
    have hAlike : ReportsAlike sha1 items view := by
      intro view' ords ords' hSame
      obtain ⟨after, u, s, hRun, hReported⟩ := exists_reported sha1 ords items secretClient view
      obtain ⟨after', u', s', hRun', hReported'⟩ :=
        exists_reported sha1 ords' items secretClient view'
      obtain ⟨first, second, hFirst, hSecond, hPerm⟩ := hForgets view' hSame ords ords'
      rw [hRun] at hFirst
      rw [hRun'] at hSecond
      cases hFirst
      cases hSecond
      exact ⟨_, _, u, u', s, s', hReported, hReported', hPerm⟩
    exact ⟨hAlike.hasPod, hAlike.keys_nodup⟩
  · rintro ⟨hPods, hKeys⟩
    refine ⟨?_, fun ords after _ c hc hPod => absurd (hPods c hc) hPod⟩
    intro view' hSame ords ords'
    obtain ⟨after, u, s, hRun, hReported⟩ := exists_reported sha1 ords items secretClient view
    obtain ⟨after', u', s', hRun', hReported'⟩ :=
      exists_reported sha1 ords' items secretClient view'
    have hPods' := hSame.hasPod hPods
    have hRows := hReported.rows_perm hPods hKeys
    have hRows' := hReported'.rows_perm hPods' (hSame.keys_perm.nodup_iff.mp hKeys)
    rw [← map_report_eraseStatus hPods] at hRows
    rw [← map_report_eraseStatus hPods'] at hRows'
    exact ⟨after, after', hRun, hRun', hRows.trans ((hSame.containers.map _).trans hRows'.symm)⟩

/-- A container that ran on a worker, and the same container as a new row. -/
def staleContainer : DB.Container :=
  { id := 1, hostname := "web", podName := "web-1", minion := "172.31.0.2" }

def freshContainer : DB.Container := { id := 1, hostname := "web" }

def oneContainer (dbc : DB.Container) : Database where
  rows
    | .container => [dbc]
    | _ => []
  shouldAlert := fun _ => false
  curID := dbc.id
  nodup := fun tt => by cases tt <;> simp
  bounded := fun tt => by cases tt <;> simp [getID]

/-- No pod is there, but the row still names the worker. -/
theorem stale_worker_stays :
    SameButStatus (oneContainer staleContainer) (oneContainer freshContainer) ∧
      ∃ after after',
        updateContainerStatuses (fun s => s) (fun _ => .stored) (some []) (fun _ => none)
          (oneContainer staleContainer) = .ok after ∧
        updateContainerStatuses (fun s => s) (fun _ => .stored) (some []) (fun _ => none)
          (oneContainer freshContainer) = .ok after' ∧
        (∃ r ∈ after.rows .container, r.podName = "web-1" ∧ r.minion = "172.31.0.2") ∧
        ¬(after.rows .container).Perm (after'.rows .container) := by
  have hStale : staleContainer ∈ (oneContainer staleContainer).rows .container :=
    List.mem_singleton_self _
  have hFresh : freshContainer ∈ (oneContainer freshContainer).rows .container :=
    List.mem_singleton_self _
  have hNoPod : ∀ dbc, ¬HasPod (fun s => s) [] dbc := by
    rintro dbc ⟨pod, hPod, -⟩
    cases hPod
  obtain ⟨after, u, s, hRun, hReported⟩ := exists_reported (fun s => s) (fun _ => .stored) []
    (fun _ => none) (oneContainer staleContainer)
  obtain ⟨after', u', s', hRun', hReported'⟩ := exists_reported (fun s => s) (fun _ => .stored) []
    (fun _ => none) (oneContainer freshContainer)
  obtain ⟨r, hr, hID⟩ := hReported.exists_row hStale
  have hKept := hReported.keeps hStale (hNoPod _) hr hID
  refine ⟨⟨List.Perm.refl _, rfl⟩, after, after', hRun, hRun', ⟨r, hr, hKept⟩, fun hPerm => ?_⟩
  have hKept' := hReported'.keeps hFresh (hNoPod _) (hPerm.mem_iff.mp hr) hID
  rw [hKept.1] at hKept'
  exact absurd hKept'.1 (by decide)

end Past

end Kelda.Kubernetes
