import Kelda.Cloud.Fixpoint
import Kelda.Cloud.Identity
import Kelda.Cloud.Namespaces

/-! The machines that run, against what the database knows about them. A provider
lists its machines without their roles; the foreman learns these one by one and
forgets them when a connection is lost. -/
namespace Kelda.Cloud

open DB Database Join GreedyMatching

/-- A machine that runs, as its provider lists it, and the role that it was booted
with. -/
structure Instance where
  machine : Machine
  role : Role

/-- What a listed machine shows of what was asked for. A provider reports the disk
sizes of all machines of one kind, or of none of them. -/
def spec (disks : Bool × String → Bool) (m : Machine) : Bool × String × Int :=
  (m.preemptible, m.size, if disks (m.preemptible, m.size) then m.diskSize else 0)

section Matching

variable {cld : Cloud} {disks : Bool × String → Bool} {truth : Machine → Role}
  {bpms dbms : List Machine}

/-- The rows stand for machines that are those of the blueprint. The roles in the
rows may be missing, but are not wrong. A machine may still lack its floating IP. -/
structure Fits (cld : Cloud) (disks : Bool × String → Bool) (truth : Machine → Role)
    (bpms dbms : List Machine) : Prop where
  desired : ∀ bpm ∈ bpms, cld.owns bpm = true ∧ bpm.diskSize ≠ 0 ∧ bpm.cloudID = "" ∧
    bpm.role ≠ .none
  owned : ∀ dbm ∈ dbms, cld.owns dbm = true
  disk : ∀ dbm ∈ dbms, dbm.diskSize ≠ 0 ↔ disks (dbm.preemptible, dbm.size) = true
  truthful : ∀ dbm ∈ dbms, dbm.role = .none ∨ dbm.role = truth dbm
  kinds : (dbms.map (fun dbm => (spec disks dbm, truth dbm))).Perm
    (bpms.map (fun bpm => (spec disks bpm, bpm.role)))
  floating : ∀ dbm ∈ dbms, dbm.floatingIP ≠ "" → ∃ bpm ∈ bpms,
    bpm.floatingIP = dbm.floatingIP ∧ spec disks bpm = spec disks dbm ∧ bpm.role = truth dbm
  held : dbms.Pairwise (fun dbm dbm' => dbm.floatingIP = dbm'.floatingIP → dbm.floatingIP = "")
  distinct : bpms.Pairwise (fun bpm bpm' => bpm.floatingIP = bpm'.floatingIP → bpm.floatingIP = "")

/-- A floating IP stands at one position. -/
theorem position_eq_of_floatingIP {l : List Machine}
    (h : l.Pairwise (fun m m' => m.floatingIP = m'.floatingIP → m.floatingIP = ""))
    {i i' : Fin l.length} (hEq : (l.get i).floatingIP = (l.get i').floatingIP)
    (hSome : (l.get i).floatingIP ≠ "") : i = i' := by
  rw [List.pairwise_iff_get] at h
  rcases lt_trichotomy i i' with hLt | hSame | hGt
  · exact absurd (h i i' hLt hEq) hSome
  · exact hSame
  · exact absurd (h i' i hGt hEq.symm) (hEq ▸ hSome)

namespace Fits

variable (h : Fits cld disks truth bpms dbms)

include h

theorem matches_iff {bpm dbm : Machine} (hb : bpm ∈ bpms) (hd : dbm ∈ dbms) : Matches bpm dbm ↔
      spec disks bpm = spec disks dbm ∧ (dbm.role = .none ∨ dbm.role = bpm.role) := by
  obtain ⟨hOwns, hDisk, -, hRole⟩ := h.desired bpm hb
  have hOwned := h.owned dbm hd
  rw [owns, decide_eq_true_eq] at hOwns hOwned
  have hKnown := h.disk dbm hd
  rw [matches_iff_compatible]
  constructor
  · rintro ⟨-, -, hPreemptible, hSize, hDisks, hRoles⟩
    refine ⟨?_, ?_⟩
    · rw [spec, spec, hPreemptible, hSize]
      split_ifs with hReported
      · rw [hDisks hDisk (hKnown.mpr hReported)]
      · rfl
    · by_cases hNone : dbm.role = .none
      · exact Or.inl hNone
      · exact Or.inr (hRoles hRole hNone).symm
  · rintro ⟨hSpec, hRoles⟩
    simp only [spec, Prod.mk.injEq] at hSpec
    obtain ⟨hPreemptible, hSize, hDisks⟩ := hSpec
    refine ⟨hOwns.1.trans hOwned.1.symm, hOwns.2.trans hOwned.2.symm, hPreemptible, hSize, ?_, ?_⟩
    · intro _ hSome
      rwa [hPreemptible, hSize, if_pos (hKnown.mp hSome), if_pos (hKnown.mp hSome)] at hDisks
    · intro _ hSome
      exact (hRoles.resolve_left hSome).symm

/-- A shared floating IP counts more than a known role. -/
theorem score_eq {bpm dbm : Machine} (hb : bpm ∈ bpms) (hMatch : Matches bpm dbm) :
    scoreOf bpm dbm = 10 - (if SharesIP bpm dbm then 2 else 0) -
      (if dbm.role ≠ .none then 1 else 0) := by
  obtain ⟨-, -, hNoID, hRole⟩ := h.desired bpm hb
  rw [scoreOf_desired hMatch hNoID]
  congr 1
  exact if_congr ⟨fun hRoles => hRoles.2, fun hKnown => ⟨hRole, hKnown⟩⟩ rfl rfl

theorem score_at {i : Fin bpms.length} {j : Fin dbms.length}
    (hMatch : Matches (bpms.get i) (dbms.get j)) :
    indexScore bpms dbms scoreOf i j = 10 - (if SharesIP (bpms.get i) (dbms.get j) then 2 else 0) -
      (if (dbms.get j).role ≠ .none then 1 else 0) :=
  h.score_eq (List.get_mem _ _) hMatch

/-- There are as many rows of a kind as machines in the blueprint. -/
theorem card_kind (p : (Bool × String × Int) × Role → Prop) [DecidablePred p] :
    (Finset.univ.filter (fun j => p (spec disks (dbms.get j), truth (dbms.get j)))).card =
      (Finset.univ.filter (fun i => p (spec disks (bpms.get i), (bpms.get i).role))).card := by
  rw [Lists.card_positions dbms (fun m => p (spec disks m, truth m)),
    Lists.card_positions bpms (fun m => p (spec disks m, m.role))]
  have hCount := h.kinds.countP_eq p
  rwa [List.countP_map, List.countP_map] at hCount

variable {M : List (Fin bpms.length × Fin dbms.length)}
  (hStable : Stable (indexScore bpms dbms scoreOf) M)

include hStable

/-- A machine with a floating IP is matched by it. -/
theorem paired_floating {j : Fin dbms.length} (hSome : (dbms.get j).floatingIP ≠ "") :
    ∃ i, (i, j) ∈ M ∧ (bpms.get i).floatingIP = (dbms.get j).floatingIP := by
  obtain ⟨bpm, hb, hIP, hSpec, hRole⟩ := h.floating _ (List.get_mem dbms j) hSome
  obtain ⟨i, rfl⟩ := List.get_of_mem hb
  have hTrue : (dbms.get j).role = .none ∨ (dbms.get j).role = (bpms.get i).role := by
    rw [hRole]
    exact h.truthful _ (List.get_mem _ _)
  have hMatch := (h.matches_iff hb (List.get_mem dbms j)).mpr ⟨hSpec, hTrue⟩
  have hShared : SharesIP (bpms.get i) (dbms.get j) := ⟨hIP, hSome⟩
  have hScore := h.score_at hMatch
  rw [if_pos hShared] at hScore
  -- whatever is as good shares a floating IP, and there is only one with this one
  have hShares : ∀ i' j', (i', j') ∈ M →
      indexScore bpms dbms scoreOf i' j' ≤ indexScore bpms dbms scoreOf i j →
        SharesIP (bpms.get i') (dbms.get j') := by
    intro i' j' hm hLe
    by_contra hNot
    rw [hScore, h.score_at (Cloud.matches_iff.mpr (hStable.nonneg _ hm)), if_neg hNot] at hLe
    split_ifs at hLe <;> omega
  rcases hStable.dominated i j (Cloud.matches_iff.mp hMatch) with ⟨j', hm, hLe⟩ | ⟨i', hm, hLe⟩
  · obtain ⟨hEq, -⟩ := hShares i j' hm hLe
    have hSame : j = j' := position_eq_of_floatingIP h.held (hIP.symm.trans hEq) hSome
    exact ⟨i, hSame ▸ hm, hIP⟩
  · exact ⟨i', hm, (hShares i' j hm hLe).1⟩

/-- What is matched shows the same, and its role is right if it is known or if the
pair shares a floating IP. -/
theorem true_role {i : Fin bpms.length} {j : Fin dbms.length} (hm : (i, j) ∈ M)
    (hSure : (dbms.get j).role ≠ .none ∨ SharesIP (bpms.get i) (dbms.get j)) :
    spec disks (bpms.get i) = spec disks (dbms.get j) ∧
      (bpms.get i).role = truth (dbms.get j) := by
  obtain ⟨hSpec, hRoles⟩ := (h.matches_iff (List.get_mem bpms i) (List.get_mem dbms j)).mp
    (Cloud.matches_iff.mpr (hStable.nonneg _ hm))
  refine ⟨hSpec, ?_⟩
  rcases hSure with hKnown | ⟨hIP, hSome⟩
  · rw [← hRoles.resolve_left hKnown]
    exact (h.truthful _ (List.get_mem _ _)).resolve_left hKnown
  · obtain ⟨bpm, hb, hIP', -, hRole⟩ := h.floating _ (List.get_mem dbms j) hSome
    obtain ⟨i', rfl⟩ := List.get_of_mem hb
    rw [← hRole, position_eq_of_floatingIP h.distinct (hIP'.trans hIP.symm) (hIP'.symm ▸ hSome)]

/-- A floating IP that a matched machine lacks is at no machine. -/
theorem floating_free {i : Fin bpms.length} {j : Fin dbms.length} (hm : (i, j) ∈ M)
    (hDiffer : (bpms.get i).floatingIP ≠ (dbms.get j).floatingIP) :
    (bpms.get i).floatingIP ≠ "" ∧
      ∀ dbm ∈ dbms, dbm.floatingIP ≠ (bpms.get i).floatingIP := by
  have hNone : (dbms.get j).floatingIP = "" := by
    by_contra hSome
    obtain ⟨i', hm', hIP⟩ := h.paired_floating hStable hSome
    have hSame : i = i' :=
      congrArg Prod.fst (List.inj_on_of_nodup_map hStable.matching.right hm hm' rfl)
    exact hDiffer (hSame ▸ hIP)
  have hSome : (bpms.get i).floatingIP ≠ "" := fun hEmpty => hDiffer (hEmpty.trans hNone.symm)
  refine ⟨hSome, fun dbm hdbm hIP => ?_⟩
  obtain ⟨j', rfl⟩ := List.get_of_mem hdbm
  obtain ⟨i', hm', hIP'⟩ := h.paired_floating hStable (hIP.symm ▸ hSome)
  obtain rfl : i' = i := position_eq_of_floatingIP h.distinct (hIP'.trans hIP) (by
    rw [hIP', hIP]
    exact hSome)
  have hSame : j = j' :=
    congrArg Prod.snd (List.inj_on_of_nodup_map hStable.matching.left hm hm' rfl)
  exact hDiffer (hSame ▸ hIP.symm)

/-- Every row is matched: the machines with floating IPs by these, then those whose
role is known within their role, and the others with whatever is left. -/
theorem exists_bpm (j : Fin dbms.length) : ∃ i, (i, j) ∈ M := by
  by_cases hIP : (dbms.get j).floatingIP = ""
  · have hScores : ∀ i, Matches (bpms.get i) (dbms.get j) →
        indexScore bpms dbms scoreOf i j = 10 - (if (dbms.get j).role ≠ .none then 1 else 0) := by
      intro i hMatch
      rw [h.score_at hMatch, if_neg (fun hShares => hShares.2 hIP)]
      ring
    by_cases hNone : (dbms.get j).role = .none
    · have hMatch : ∀ i, spec disks (bpms.get i) = spec disks (dbms.get j) →
          Matches (bpms.get i) (dbms.get j) := fun i hSpec =>
        (h.matches_iff (List.get_mem _ _) (List.get_mem _ _)).mpr ⟨hSpec, Or.inl hNone⟩
      refine hStable.exists_left (h.card_kind (fun k => k.1 = spec disks (dbms.get j))).le
        (by simp) ?_ ?_
      · intro i hi
        exact Cloud.matches_iff.mp (hMatch i (Finset.mem_filter.mp hi).2)
      · intro i hi j' hm hLe
        obtain ⟨hSpec, -⟩ := (h.matches_iff (List.get_mem bpms i) (List.get_mem dbms j')).mp
          (Cloud.matches_iff.mpr (hStable.nonneg _ hm))
        exact Finset.mem_filter.mpr
          ⟨Finset.mem_univ _, hSpec.symm.trans (Finset.mem_filter.mp hi).2⟩
    · have hTrue := (h.truthful _ (List.get_mem dbms j)).resolve_left hNone
      have hMatch : ∀ i, (spec disks (bpms.get i), (bpms.get i).role) =
          (spec disks (dbms.get j), truth (dbms.get j)) →
            Matches (bpms.get i) (dbms.get j) := by
        intro i hKind
        obtain ⟨hSpec, hRole⟩ := Prod.mk.inj hKind
        exact (h.matches_iff (List.get_mem _ _) (List.get_mem _ _)).mpr
          ⟨hSpec, Or.inr (hTrue.trans hRole.symm)⟩
      refine hStable.exists_left
        (h.card_kind (fun k => k = (spec disks (dbms.get j), truth (dbms.get j)))).le (by simp) ?_ ?_
      · intro i hi
        exact Cloud.matches_iff.mp (hMatch i (Finset.mem_filter.mp hi).2)
      · intro i hi j' hm hLe
        have hKind := (Finset.mem_filter.mp hi).2
        have hSure : (dbms.get j').role ≠ .none ∨ SharesIP (bpms.get i) (dbms.get j') := by
          by_contra hNot
          rw [not_or, not_not] at hNot
          rw [hScores i (hMatch i hKind), h.score_at (Cloud.matches_iff.mpr (hStable.nonneg _ hm)),
            if_neg hNot.2, if_pos hNone, if_neg (not_not.mpr hNot.1)] at hLe
          omega
        obtain ⟨hSpec, hRole⟩ := h.true_role hStable hm hSure
        refine Finset.mem_filter.mpr ⟨Finset.mem_univ _, ?_⟩
        rw [← hKind, hSpec, hRole]
  · obtain ⟨i, hm, -⟩ := h.paired_floating hStable hIP
    exact ⟨i, hm⟩

/-- Nothing is left over on either side. -/
theorem nothing_lonely {ll : List (Fin bpms.length)} {lr : List (Fin dbms.length)}
    {res : Result Machine Machine} (hPositions : Positions bpms dbms res M ll lr) :
    ll = [] ∧ lr = [] := by
  have hRights : lr = [] := by
    refine List.eq_nil_iff_forall_not_mem.mpr (fun j hj => ?_)
    obtain ⟨i, hm⟩ := h.exists_bpm hStable j
    have hNodup := hPositions.rights.nodup_iff.mpr (List.nodup_finRange _)
    exact (List.nodup_append'.mp hNodup).2.2 (List.mem_map_of_mem hm) hj
  refine ⟨?_, hRights⟩
  have hLefts := hPositions.lefts.length_eq
  have hRows := hPositions.rights.length_eq
  have hKinds := h.kinds.length_eq
  simp only [hRights, List.length_append, List.length_map, List.length_finRange, List.length_nil]
    at hLefts hRows hKinds
  exact List.length_eq_zero_iff.mp (by omega)

end Fits

end Matching

section Sync

variable {cld : Cloud} {disks : Bool × String → Bool} {fleet : List Instance}

/-- What the provider lists. -/
structure Listable (cld : Cloud) (disks : Bool × String → Bool) (fleet : List Instance) : Prop where
  list : CloudList cld (fleet.map Instance.machine)
  disk : ∀ inst ∈ fleet, inst.machine.diskSize ≠ 0 ↔
    disks (inst.machine.preemptible, inst.machine.size) = true

/-- The role of the machine with the cloud ID of a row. -/
def roleOf (fleet : List Instance) (m : Machine) : Role :=
  match fleet.find? (fun inst => inst.machine.cloudID = m.cloudID) with
  | some inst => inst.role
  | none => .none

theorem Listable.nil : Listable cld disks [] :=
  ⟨⟨by simp, List.nodup_nil, by simp, by simp⟩, by simp⟩

theorem Listable.nodup_cloudIDs (h : Listable cld disks fleet) :
    (fleet.map (fun inst => inst.machine.cloudID)).Nodup := by
  have hNodup := h.list.distinct
  rwa [List.map_map] at hNodup

theorem Listable.eq_of_cloudID (h : Listable cld disks fleet) {inst inst' : Instance}
    (hi : inst ∈ fleet) (hi' : inst' ∈ fleet)
    (hID : inst.machine.cloudID = inst'.machine.cloudID) : inst = inst' :=
  List.inj_on_of_nodup_map h.nodup_cloudIDs hi hi' hID

theorem Listable.roleOf_eq (h : Listable cld disks fleet) {inst : Instance} (hi : inst ∈ fleet)
    {m : Machine} (hID : m.cloudID = inst.machine.cloudID) : roleOf fleet m = inst.role := by
  rw [roleOf]
  cases hFind : fleet.find? (fun inst => inst.machine.cloudID = m.cloudID) with
  | none =>
      have hNone := List.find?_eq_none.mp hFind inst hi
      exact absurd hID.symm (by simpa using hNone)
  | some found =>
      have hFound : found.machine.cloudID = m.cloudID := by simpa using List.find?_some hFind
      exact congrArg Instance.role
        (h.eq_of_cloudID (List.mem_of_find?_eq_some hFind) hi (hFound.trans hID))

/-- A row describes the machine with its cloud ID. -/
structure Describes (dbm : Machine) (inst : Instance) : Prop where
  preemptible : dbm.preemptible = inst.machine.preemptible
  size : dbm.size = inst.machine.size
  diskSize : dbm.diskSize = inst.machine.diskSize

/-- The rows of a region tell no lies: a role that they know is that of the machine
with the same cloud ID, and no other row has this ID. -/
structure Truthful (fleet : List Instance) (dbms : List Machine) : Prop where
  agrees : ∀ dbm ∈ dbms, ∀ inst ∈ fleet, dbm.cloudID = inst.machine.cloudID → Describes dbm inst
  known : ∀ dbm ∈ dbms, dbm.role = .none ∨ ∃ inst ∈ fleet,
    dbm.cloudID = inst.machine.cloudID ∧ dbm.role = inst.role
  once : ∀ dbm ∈ dbms, ∀ dbm' ∈ dbms, dbm.role ≠ .none → dbm.cloudID = dbm'.cloudID → dbm = dbm'

theorem Truthful.of_subset {dbms dbms' : List Machine} (h : Truthful fleet dbms)
    (hSub : dbms' ⊆ dbms) : Truthful fleet dbms' where
  agrees := fun dbm hdbm => h.agrees dbm (hSub hdbm)
  known := fun dbm hdbm => h.known dbm (hSub hdbm)
  once := fun dbm hdbm dbm' hdbm' => h.once dbm (hSub hdbm) dbm' (hSub hdbm')

/-- The rows of a region after they have been compared with the list: one for each
machine. -/
structure Rows (fleet : List Instance) (dbms : List Machine) : Prop where
  listed : (dbms.map cloudPart).Perm (fleet.map (fun inst => cloudPart inst.machine))
  truthful : ∀ dbm ∈ dbms, dbm.role = .none ∨ dbm.role = roleOf fleet dbm

/-- A row that knows a role is paired with its own machine. -/
theorem paired_own {cms dbms : List Machine} (hFleet : Listable cld disks fleet)
    (hPerm : cms.Perm (fleet.map Instance.machine)) (hOwned : ∀ dbm ∈ dbms, cld.owns dbm = true)
    (hNodup : dbms.Nodup) (hTruth : Truthful fleet dbms)
    {M : List (Fin dbms.length × Fin cms.length)}
    (hStable : Stable (indexScore dbms cms scoreOf) M) {i : Fin dbms.length} {j : Fin cms.length}
    (hm : (i, j) ∈ M) (hKnown : (dbms.get i).role ≠ .none) :
    (dbms.get i).role = roleOf fleet (cms.get j) := by
  have hList : CloudList cld cms := hFleet.list.perm hPerm
  obtain ⟨inst, hInst, hID, hRole⟩ := (hTruth.known _ (List.get_mem dbms i)).resolve_left hKnown
  have hDescribes := hTruth.agrees _ (List.get_mem dbms i) inst hInst hID
  have hMem : inst.machine ∈ cms := hPerm.mem_iff.mpr (List.mem_map_of_mem hInst)
  obtain ⟨j₀, hj₀⟩ := List.get_of_mem hMem
  have hNoRole := hList.noRole _ (List.get_mem cms j₀)
  have hMatch : Matches (dbms.get i) (cms.get j₀) := by
    have hOwns := hOwned _ (List.get_mem dbms i)
    have hOwns' := hList.owned _ (List.get_mem cms j₀)
    rw [owns, decide_eq_true_eq] at hOwns hOwns'
    rw [hj₀] at hOwns' hNoRole ⊢
    exact matches_iff_compatible.mpr ⟨hOwns.1.trans hOwns'.1.symm, hOwns.2.trans hOwns'.2.symm,
      hDescribes.preemptible, hDescribes.size, fun _ _ => hDescribes.diskSize,
      fun _ hSome => absurd hNoRole hSome⟩
  have hZero : ∀ i' j', Matches (dbms.get i') (cms.get j') →
      indexScore dbms cms scoreOf i' j' ≤ 0 → (dbms.get i').cloudID = (cms.get j').cloudID := by
    intro i' j' hMatch' hLe
    rw [indexScore, scoreOf_listed hMatch' (hList.named _ (List.get_mem _ _))
      (hList.noRole _ (List.get_mem _ _))] at hLe
    by_contra hNot
    rw [if_neg hNot] at hLe
    split_ifs at hLe <;> omega
  have hOwn : indexScore dbms cms scoreOf i j₀ = 0 := by
    rw [indexScore, scoreOf_listed hMatch (hList.named _ (List.get_mem _ _)) hNoRole,
      if_pos (by rw [hj₀, hID])]
  have hPaired : (i, j₀) ∈ M := by
    have hAdmissible := fun {i' j'} (hm' : (i', j') ∈ M) =>
      matches_iff.mpr (hStable.nonneg _ hm')
    rcases hStable.dominated i j₀ hOwn.ge with ⟨j', hm', hLe⟩ | ⟨i', hm', hLe⟩
    · have hSame := hZero i j' (hAdmissible hm') (hLe.trans hOwn.le)
      rw [hID, ← hj₀] at hSame
      exact hList.position_eq hSame ▸ hm'
    · have hSame := hZero i' j₀ (hAdmissible hm') (hLe.trans hOwn.le)
      rw [hj₀, ← hID] at hSame
      have hRow := hTruth.once _ (List.get_mem dbms i) _ (List.get_mem dbms i') hKnown hSame.symm
      exact (hNodup.get_inj_iff.mp hRow) ▸ hm'
  have hPosition : j = j₀ :=
    congrArg Prod.snd (List.inj_on_of_nodup_map hStable.matching.left hm hPaired rfl)
  rw [hPosition, hj₀, hFleet.roleOf_eq hInst rfl, hRole]

/-- Truthful rows stay truthful, and there is one for each machine. -/
theorem syncDBWithCloud_truthful {cms : List Machine} (hFleet : Listable cld disks fleet)
    (hPerm : cms.Perm (fleet.map Instance.machine)) {view view' : Database} {ord : MapOrder}
    (hTruth : Truthful fleet ((view.rows .machine).filter cld.owns))
    (hRun : cld.syncDBWithCloud cms ord view = .ok view') :
    Rows fleet ((view'.rows .machine).filter cld.owns) := by
  have hSelect : (cld.selectMachines ord view).Perm ((view.rows .machine).filter cld.owns) :=
    (ord.perm (view.rows .machine)).filter _
  have hList : CloudList cld cms := hFleet.list.perm hPerm
  obtain ⟨after, M, ll, lr, hSync, hPositions, hStable, hRows⟩ :=
    syncDBWithCloud_rows cld hList.owned ord view rfl
  cases hSync.symm.trans hRun
  constructor
  · refine (hRows.map cloudPart).trans ?_
    rw [List.map_append, map_cloudPart_addedRows, List.map_map]
    have hParts := ((Lists.get_perm hPositions.rights).map cloudPart).trans (hPerm.map cloudPart)
    simp only [List.map_append, List.map_map] at hParts
    rw [List.map_map]
    exact hParts
  · intro dbm hdbm
    rcases List.mem_append.mp (hRows.mem_iff.mp hdbm) with hPair | hAdded
    · obtain ⟨⟨i, j⟩, hm, rfl⟩ := List.mem_map.mp hPair
      by_cases hNone : ((cld.selectMachines ord view).get i).role = .none
      · exact Or.inl hNone
      · refine Or.inr ?_
        exact paired_own hFleet hPerm (fun dbm h => (view.mem_select.mp h).2)
          (hSelect.nodup_iff.mpr (nodup_owned cld view)) (hTruth.of_subset hSelect.subset)
          (stable_of_rank hStable) hm hNone
    · obtain ⟨cm, -, id, rfl⟩ := mem_addedRows hAdded
      exact Or.inl rfl

end Sync

section Right

variable {cld : Cloud} {disks : Bool × String → Bool} {adminKey : String} {bpms dbms : List Machine}
  {fleet : List Instance}

/-- The machines that run are those of the blueprint, and no floating IP is at the
wrong one. -/
structure Right (disks : Bool × String → Bool) (bpms : List Machine) (fleet : List Instance) :
    Prop where
  kinds : (fleet.map (fun inst => (spec disks inst.machine, inst.role))).Perm
    (bpms.map (fun bpm => (spec disks bpm, bpm.role)))
  floating : ∀ inst ∈ fleet, inst.machine.floatingIP ≠ "" → ∃ bpm ∈ bpms,
    bpm.floatingIP = inst.machine.floatingIP ∧ spec disks bpm = spec disks inst.machine ∧
      bpm.role = inst.role
  held : fleet.Pairwise (fun inst inst' =>
    inst.machine.floatingIP = inst'.machine.floatingIP → inst.machine.floatingIP = "")

/-- Every machine of the blueprint has a role, and no two share a floating IP. -/
structure Definite (bpms : List Machine) : Prop where
  roles : ∀ bpm ∈ bpms, bpm.role ≠ .none
  distinct : bpms.Pairwise (fun bpm bpm' => bpm.floatingIP = bpm'.floatingIP → bpm.floatingIP = "")

theorem desiredMachines_fields {machines : List Blueprint.Machine} {bpm : Machine}
    (h : bpm ∈ cld.desiredMachines adminKey machines) :
    cld.owns bpm = true ∧ bpm.diskSize ≠ 0 ∧ bpm.cloudID = "" := by
  obtain ⟨b, -, hRow⟩ := List.mem_filterMap.mp h
  exact ⟨owns_desiredMachines h, desiredMachine_fields hRow⟩

theorem field_eq_of_cloudPart {β : Type} {f : Machine → β} (hf : ∀ m, f (cloudPart m) = f m)
    {m m' : Machine} (h : cloudPart m = cloudPart m') : f m = f m' := by
  rw [← hf m, h, hf]

/-- What a row shares with its machine. -/
theorem exists_instance (h : Rows fleet dbms) {dbm : Machine} (hdbm : dbm ∈ dbms) :
    ∃ inst ∈ fleet, cloudPart dbm = cloudPart inst.machine ∧
      dbm.cloudID = inst.machine.cloudID := by
  obtain ⟨inst, hInst, hPart⟩ :=
    List.mem_map.mp (h.listed.mem_iff.mp (List.mem_map_of_mem hdbm))
  exact ⟨inst, hInst, hPart.symm, field_eq_of_cloudPart (fun _ => rfl) hPart.symm⟩

theorem spec_eq_of_cloudPart {m m' : Machine} (h : cloudPart m = cloudPart m') :
    spec disks m = spec disks m' :=
  field_eq_of_cloudPart (f := spec disks) (fun _ => rfl) h

theorem map_field_perm {β : Type} {f : Machine → β} (hf : ∀ m, f (cloudPart m) = f m)
    (h : Rows fleet dbms) : (dbms.map f).Perm (fleet.map (fun inst => f inst.machine)) := by
  have hMap := h.listed.map f
  rw [List.map_map, List.map_map] at hMap
  have hLeft : f ∘ cloudPart = f := funext hf
  rwa [hLeft, show f ∘ (fun inst : Instance => cloudPart inst.machine) =
    fun inst => f inst.machine from funext (fun inst => hf inst.machine)] at hMap

/-- Rows of the right machines fit. -/
theorem Right.fits (h : Right disks bpms fleet) (hFleet : Listable cld disks fleet)
    {machines : List Blueprint.Machine} (hBPMs : cld.desiredMachines adminKey machines = bpms)
    (hDefinite : Definite bpms) (hOwned : ∀ dbm ∈ dbms, cld.owns dbm = true)
    (hRows : Rows fleet dbms) : Fits cld disks (roleOf fleet) bpms dbms where
  desired := by
    intro bpm hbpm
    obtain ⟨hOwns, hDisk, hID⟩ := desiredMachines_fields (hBPMs.symm ▸ hbpm)
    exact ⟨hOwns, hDisk, hID, hDefinite.roles bpm hbpm⟩
  owned := hOwned
  disk := by
    intro dbm hdbm
    obtain ⟨inst, hInst, hPart, -⟩ := exists_instance hRows hdbm
    have hDisk : dbm.diskSize = inst.machine.diskSize := field_eq_of_cloudPart (fun _ => rfl) hPart
    have hKind : (dbm.preemptible, dbm.size) = (inst.machine.preemptible, inst.machine.size) :=
      field_eq_of_cloudPart (f := fun m => (m.preemptible, m.size)) (fun _ => rfl) hPart
    rw [hDisk, hKind]
    exact hFleet.disk inst hInst
  truthful := hRows.truthful
  kinds := by
    refine (map_field_perm (f := fun m => (spec disks m, roleOf fleet m)) (fun _ => rfl)
      hRows).trans (List.Perm.trans (List.Perm.of_eq ?_) h.kinds)
    refine List.map_congr_left (fun inst hInst => ?_)
    rw [hFleet.roleOf_eq hInst rfl]
  floating := by
    intro dbm hdbm hSome
    obtain ⟨inst, hInst, hPart, hID⟩ := exists_instance hRows hdbm
    have hIP : dbm.floatingIP = inst.machine.floatingIP :=
      field_eq_of_cloudPart (fun _ => rfl) hPart
    rw [hIP, spec_eq_of_cloudPart hPart, hFleet.roleOf_eq hInst hID]
    exact h.floating inst hInst (hIP ▸ hSome)
  held := by
    have hPairwise : (fleet.map (fun inst => inst.machine.floatingIP)).Pairwise
        (fun ip ip' => ip = ip' → ip = "") := List.pairwise_map.mpr h.held
    refine List.pairwise_map.mp (((map_field_perm (f := Machine.floatingIP) (fun _ => rfl)
      hRows).pairwise_iff ?_).mpr hPairwise)
    intro ip ip' hEq hSame
    exact hSame.trans (hEq hSame.symm)
  distinct := hDefinite.distinct

theorem Rows.nodup_cloudIDs (h : Rows fleet dbms) (hFleet : Listable cld disks fleet) :
    (dbms.map Machine.cloudID).Nodup := by
  rw [(map_field_perm (f := Machine.cloudID) (fun _ => rfl) h).nodup_iff]
  exact hFleet.nodup_cloudIDs

/-- The rows after a whole join: they differ in keys and status only. -/
theorem Rows.matched_truthful (h : Rows fleet dbms) (hFleet : Listable cld disks fleet)
    {rows : List Machine} (hRows : ∀ r ∈ rows, ∃ bpm, ∃ dbm ∈ dbms, r = matchedRow bpm dbm)
    (hIDs : (rows.map Machine.cloudID).Nodup) : Truthful fleet rows := by
  have hFrom : ∀ r ∈ rows, ∃ dbm ∈ dbms, r.cloudID = dbm.cloudID ∧ r.role = dbm.role ∧
      r.preemptible = dbm.preemptible ∧ r.size = dbm.size ∧ r.diskSize = dbm.diskSize := by
    intro r hr
    obtain ⟨bpm, dbm, hdbm, rfl⟩ := hRows r hr
    rw [matchedRow_settled]
    exact ⟨dbm, hdbm, rfl, rfl, rfl, rfl, rfl⟩
  refine ⟨fun r hr inst hInst hID => ?_, fun r hr => ?_, fun r hr r' hr' _ hID => ?_⟩
  · obtain ⟨dbm, hdbm, hSame, -, hPreemptible, hSize, hDisk⟩ := hFrom r hr
    obtain ⟨inst', hInst', hPart, hID'⟩ := exists_instance h hdbm
    obtain rfl := hFleet.eq_of_cloudID hInst hInst' (hID.symm.trans (hSame.trans hID'))
    exact ⟨hPreemptible.trans (field_eq_of_cloudPart (fun _ => rfl) hPart),
      hSize.trans (field_eq_of_cloudPart (fun _ => rfl) hPart),
      hDisk.trans (field_eq_of_cloudPart (fun _ => rfl) hPart)⟩
  · obtain ⟨dbm, hdbm, hSame, hRole, -⟩ := hFrom r hr
    obtain ⟨inst, hInst, -, hID⟩ := exists_instance h hdbm
    refine (h.truthful dbm hdbm).imp (fun hNone => hRole.trans hNone) (fun hTrue => ?_)
    exact ⟨inst, hInst, hSame.trans hID,
      hRole.trans (hTrue.trans (hFleet.roleOf_eq hInst hID))⟩
  · exact List.inj_on_of_nodup_map hIDs hr hr' hID

end Right

end Kelda.Cloud
