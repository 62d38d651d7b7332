import Kelda.Cloud.Plan
import Kelda.Join.HashJoin

/-! What the rows know about their machines once they have been matched with the
list of a provider. The join prefers the row with the same cloud ID, but it does
not insist on it: a row whose machine is gone may be given to a new machine, and
the new machine then has the role that the foreman learned from the old one. -/
namespace Kelda.Cloud

open DB Database Join GreedyMatching

section Statement

/-- The row and the machine are the same machine. -/
def Claims (dbm cm : Machine) : Prop := Matches dbm cm ∧ dbm.cloudID = cm.cloudID

/-- The foreman has reached the machine. -/
def Informed (dbm : Machine) : Prop := dbm.role ≠ .none ∨ dbm.connected = true

/-- The fields that the provider knows. -/
def cloudPart (m : Machine) : Machine :=
  { m with id := 0, status := "", sshKeys := [], role := .none, connected := false }

/-- What a list of machines must be, as the providers return it. -/
structure CloudList (cld : Cloud) (cms : List Machine) : Prop where
  owned : ∀ cm ∈ cms, cld.owns cm = true
  distinct : (cms.map Machine.cloudID).Nodup
  named : ∀ cm ∈ cms, cm.cloudID ≠ ""
  noRole : ∀ cm ∈ cms, cm.role = .none

/-- There is one row for each machine of the list, with the fields of the
provider. -/
def Listed (cld : Cloud) (cms : List Machine) (after : Database) : Prop :=
  (((after.rows .machine).filter cld.owns).map cloudPart).Perm (cms.map cloudPart)

/-- What is known about a machine was known about the same machine before. -/
def IdentityKept (cld : Cloud) (before after : Database) : Prop :=
  ∀ r ∈ (after.rows .machine).filter cld.owns, Informed r →
    ∃ dbm ∈ (before.rows .machine).filter cld.owns, dbm.cloudID = r.cloudID ∧
      dbm.role = r.role ∧ dbm.connected = r.connected

/-- How far the row is from the machine: they are the same machine, they share a
floating IP, or they are only compatible. -/
def distance (dbm cm : Machine) : Nat :=
  if dbm.cloudID = cm.cloudID then 0 else if SharesIP dbm cm then 1 else 2

/-- Compatible rows and machines that are paired off, each pair at a time when
all that is nearer to one of the two has been taken. -/
inductive Queue (dbms cms : List Machine) : List (Machine × Machine) → Prop
  | nil : Queue dbms cms []
  | snoc {queue : List (Machine × Machine)} {dbm cm : Machine} (before : Queue dbms cms queue)
      (row : dbm ∈ dbms) (machine : cm ∈ cms) (compatible : Matches dbm cm)
      (rowFree : dbm ∉ queue.map Prod.fst) (machineFree : cm ∉ queue.map Prod.snd)
      (rowDue : ∀ c ∈ cms, Matches dbm c → distance dbm c < distance dbm cm →
        c ∈ queue.map Prod.snd)
      (machineDue : ∀ d ∈ dbms, Matches d cm → distance d cm < distance dbm cm →
        d ∈ queue.map Prod.fst) :
      Queue dbms cms (queue ++ [(dbm, cm)])

/-- The row has something to pass on to a machine about which no row knows it. -/
structure Heir (dbms cms : List Machine) (dbm cm : Machine) : Prop where
  informed : Informed dbm
  unknown : ∀ d ∈ dbms, d.cloudID = cm.cloudID →
    ¬ (d.role = dbm.role ∧ d.connected = dbm.connected)
  falls : ∃ queue, Queue dbms cms (queue ++ [(dbm, cm)])

end Statement

section Score

variable {dbm cm : Machine}

/-- A machine of the list has no role, so that only its cloud ID and its floating
IP count. -/
theorem scoreOf_listed (h : Matches dbm cm) (hNamed : cm.cloudID ≠ "") (hRole : cm.role = .none) :
    scoreOf dbm cm = if dbm.cloudID = cm.cloudID then 0
      else if SharesIP dbm cm then 8 else 10 := by
  rw [scoreOf_of_matches h]
  simp only [SharesIP]
  by_cases hID : dbm.cloudID = cm.cloudID
  · simp [hID, hNamed]
  · by_cases hIP : dbm.floatingIP = cm.floatingIP
    · by_cases hNone : cm.floatingIP = "" <;> simp [hID, hIP, hNone, hRole]
    · simp [hID, hIP, hRole]

/-- Among listed machines the score orders pairs like the distance. -/
theorem scoreOf_lt_iff {l r : Machine} (h : Matches dbm cm) (h' : Matches l r)
    (hNamed : cm.cloudID ≠ "") (hNamed' : r.cloudID ≠ "") (hRole : cm.role = .none)
    (hRole' : r.role = .none) : scoreOf dbm cm < scoreOf l r ↔ distance dbm cm < distance l r := by
  rw [scoreOf_listed h hNamed hRole, scoreOf_listed h' hNamed' hRole', distance, distance]
  split_ifs <;> simp

end Score

section Rows

theorem getID_syncedRow (cm dbm : Machine) :
    getID .machine (syncedRow dbm cm) = getID .machine dbm := rfl

/-- The rows that are added for the machines without a row. -/
def addedRows (curID : Nat) (cms : List Machine) : List Machine :=
  (freshPairs .machine curID cms).map (fun p => syncedRow p.R p.L)

theorem mem_addedRows {curID : Nat} {cms : List Machine} {r : Machine}
    (h : r ∈ addedRows curID cms) :
    ∃ cm ∈ cms, ∃ id, r = syncedRow (blankRow .machine id) cm := by
  obtain ⟨p, hp, rfl⟩ := List.mem_map.mp h
  obtain ⟨k, hk, rfl⟩ := List.mem_mapIdx.mp hp
  exact ⟨cms[k], List.getElem_mem hk, _, rfl⟩

theorem cloudPart_syncedRow (dbm cm : Machine) : cloudPart (syncedRow dbm cm) = cloudPart cm := rfl

theorem map_cloudPart_addedRows (curID : Nat) (cms : List Machine) :
    (addedRows curID cms).map cloudPart = cms.map cloudPart := by
  induction cms generalizing curID with
  | nil => rfl
  | cons cm cms ih =>
      rw [addedRows, freshPairs_cons, List.map_cons, List.map_cons, List.map_cons]
      exact congrArg₂ List.cons (cloudPart_syncedRow _ cm) (ih (curID + 1))

/-- The loops of the function, if the table consists of the rows of the pairs, the
lonely rows and others. -/
theorem cloud_loops {joined : Result Machine Machine} {others : List Machine} {view : Database}
    (hRows : (others ++ (joined.pairs.map Pair.L ++ joined.lonelyLefts)).Perm
      (view.rows .machine)) :
    ∃ view', (joined.pairs ++ (view.insertAll .machine joined.lonelyRights).1.map Pair.swap).foldlM
        (fun view p => view.commit .machine (syncedRow p.L p.R))
        ((view.insertAll .machine joined.lonelyRights).2.removeAll .machine joined.lonelyLefts) =
          .ok view' ∧
      (view'.rows .machine).Perm (others ++ joined.pairs.map (fun p => syncedRow p.L p.R) ++
        addedRows view.curID joined.lonelyRights) ∧ Touches .machine view view' := by
  obtain ⟨hPairs, hInserted, -, hTouches₁⟩ := view.insertAll_spec .machine joined.lonelyRights
  generalize view.insertAll .machine joined.lonelyRights = inserted at hPairs hInserted hTouches₁
  obtain ⟨added, v₁⟩ := inserted
  obtain rfl : added = freshPairs .machine view.curID joined.lonelyRights := hPairs
  dsimp only at hInserted hTouches₁ ⊢
  have hKeep : ((others ++ (joined.pairs.map Pair.L ++
      (freshPairs .machine view.curID joined.lonelyRights).map Pair.R)) ++
      joined.lonelyLefts).Perm (v₁.rows .machine) := by
    rw [hInserted]
    refine List.Perm.trans ?_ (hRows.append_right _)
    simp only [List.append_assoc]
    exact (List.perm_append_comm.append_left _).append_left _
  have hRemoved : ((v₁.removeAll .machine joined.lonelyLefts).rows .machine).Perm _ :=
    v₁.removeAll_perm hKeep
  have hTouches₂ := (@removeAll_spec .machine v₁ joined.lonelyLefts).2.2
  generalize v₁.removeAll .machine joined.lonelyLefts = v₂ at hRemoved hTouches₂ ⊢
  have hReady : (others ++ ((joined.pairs.map Pair.swap ++
      freshPairs .machine view.curID joined.lonelyRights).map Pair.R)).Perm (v₂.rows .machine) := by
    rw [List.map_append, List.map_map]
    exact hRemoved.symm
  obtain ⟨v₃, hCommit, hPerm, -, hTouches₃⟩ : ∃ v₃,
      v₂.commitAll .machine (fun cm dbm => syncedRow dbm cm) (joined.pairs.map Pair.swap ++
        freshPairs .machine view.curID joined.lonelyRights) = .ok v₃ ∧
      (v₃.rows .machine).Perm (others ++ (joined.pairs.map Pair.swap ++
        freshPairs .machine view.curID joined.lonelyRights).map (fun p => syncedRow p.R p.L)) ∧
      v₃.curID = v₂.curID ∧ Touches .machine v₂ v₃ :=
    @commitAll_perm .machine Machine v₂ (fun cm dbm => syncedRow dbm cm) getID_syncedRow _ _ hReady
  refine ⟨v₃, ?_, ?_, (hTouches₁.trans hTouches₂).trans hTouches₃⟩
  · rw [← hCommit, commitAll, List.foldlM_append, List.foldlM_append]
    simp only [List.foldlM_map]
    rfl
  · rw [List.map_append, List.map_map, ← List.append_assoc] at hPerm
    exact hPerm

/-- Every run succeeds. Its pairs are those of the join, and each machine of the
list has the row of its pair or a new one. -/
theorem syncDBWithCloud_rows (cld : Cloud) {cms : List Machine}
    (hOwned : ∀ cm ∈ cms, cld.owns cm = true) (ord : MapOrder) (view : Database)
    {dbms : List Machine} (hDBMs : cld.selectMachines ord view = dbms) :
    ∃ view' M ll lr, cld.syncDBWithCloud cms ord view = .ok view' ∧
      Positions dbms cms (join dbms cms scoreOf) M ll lr ∧ Stable (rank dbms cms scoreOf) M ∧
      ((view'.rows .machine).filter cld.owns).Perm
        (M.map (fun p => syncedRow (dbms.get p.1) (cms.get p.2)) ++
          addedRows view.curID (lr.map cms.get)) := by
  have hRowsOwned := owns_of_select hDBMs
  obtain ⟨M, ll, lr, hPositions, -, -, hStable⟩ := join_ranked dbms cms scoreOf
  have hTable := selectMachines_perm cld ord view
  rw [hDBMs] at hTable
  obtain ⟨view', hLoops, hRows, -⟩ :=
    cloud_loops ((hPositions.lefts_perm.append_left _).trans hTable)
  refine ⟨view', M, ll, lr, ?_, hPositions, hStable, ?_⟩
  · rw [syncDBWithCloud, hDBMs, joinM_machineScore hRowsOwned hOwned]
    exact hLoops
  · rw [hPositions.pairs, hPositions.lonelyRights, List.map_map] at hRows
    rw [List.append_assoc] at hRows
    refine (hRows.filter _).trans (List.Perm.of_eq (filter_owns_append cld view ?_))
    intro r hr
    rcases List.mem_append.mp hr with hr | hr
    · obtain ⟨p, -, rfl⟩ := List.mem_map.mp hr
      exact hOwned (cms.get p.2) (List.get_mem _ _)
    · obtain ⟨cm, hcm, id, rfl⟩ := mem_addedRows hr
      obtain ⟨j, -, rfl⟩ := List.mem_map.mp hcm
      exact hOwned (cms.get j) (List.get_mem _ _)

end Rows

section Identity

variable {cld : Cloud} {view : Database} {dbms cms : List Machine}

/-- Two machines of the list with one cloud ID stand at one position. -/
theorem CloudList.position_eq (h : CloudList cld cms) {j j' : Fin cms.length}
    (hID : (cms.get j).cloudID = (cms.get j').cloudID) : j = j' := by
  have hNodup := h.distinct
  rw [← List.map_get_finRange cms, List.map_map] at hNodup
  exact List.inj_on_of_nodup_map hNodup (List.mem_finRange j) (List.mem_finRange j') hID

theorem CloudList.perm (h : CloudList cld cms) {cms' : List Machine} (hPerm : cms'.Perm cms) :
    CloudList cld cms' where
  owned := fun cm hcm => h.owned cm (hPerm.mem_iff.mp hcm)
  distinct := (hPerm.map _).nodup_iff.mpr h.distinct
  named := fun cm hcm => h.named cm (hPerm.mem_iff.mp hcm)
  noRole := fun cm hcm => h.noRole cm (hPerm.mem_iff.mp hcm)

/-- Scores and distances of the positions. -/
theorem CloudList.score_lt_iff (h : CloudList cld cms) {i i' : Fin dbms.length}
    {j j' : Fin cms.length} (hMatch : Matches (dbms.get i) (cms.get j))
    (hMatch' : Matches (dbms.get i') (cms.get j')) :
    indexScore dbms cms scoreOf i j < indexScore dbms cms scoreOf i' j' ↔
      distance (dbms.get i) (cms.get j) < distance (dbms.get i') (cms.get j') :=
  scoreOf_lt_iff hMatch hMatch' (h.named _ (List.get_mem _ _)) (h.named _ (List.get_mem _ _))
    (h.noRole _ (List.get_mem _ _)) (h.noRole _ (List.get_mem _ _))

/-- The row and the machine of a pair of positions. -/
def atPositions (dbms cms : List Machine) (p : Fin dbms.length × Fin cms.length) :
    Machine × Machine :=
  (dbms.get p.1, cms.get p.2)

/-- The pairs of a stable matching, best scores first, form a queue: a nearer
partner that is not in front would make a better pair. -/
theorem queue_of_stable (hList : CloudList cld cms) (hNodup : dbms.Nodup)
    {M : List (Fin dbms.length × Fin cms.length)} (hStable : Stable (indexScore dbms cms scoreOf) M)
    (hSorted : M.Pairwise (fun p q =>
      indexScore dbms cms scoreOf p.1 p.2 ≤ indexScore dbms cms scoreOf q.1 q.2))
    {front back : List (Fin dbms.length × Fin cms.length)} (hM : M = front ++ back) :
    Queue dbms cms (front.map (atPositions dbms cms)) := by
  induction front using List.reverseRecOn generalizing back with
  | nil => exact Queue.nil
  | append_singleton front p ih =>
      rw [List.append_assoc, List.singleton_append] at hM
      have hp : p ∈ M := by simp [hM]
      have hMatch := matches_iff.mpr (hStable.nonneg p hp)
      have hFront : ∀ q ∈ M, indexScore dbms cms scoreOf q.1 q.2 <
          indexScore dbms cms scoreOf p.1 p.2 → q ∈ front := by
        intro q hq hLt
        rw [hM] at hSorted hq
        rcases List.mem_append.mp hq with hq | hq
        · exact hq
        · rcases List.mem_cons.mp hq with rfl | hq
          · exact absurd hLt (lt_irrefl _)
          · have hLe := (List.pairwise_cons.mp (List.pairwise_append.mp hSorted).2.1).1 q hq
            exact absurd hLt hLe.not_gt
      have hNew : p ∉ front := by
        intro hm
        have hNodupM := List.Nodup.of_map _ hStable.matching.left
        rw [hM] at hNodupM
        exact (List.nodup_append'.mp hNodupM).2.2 hm (List.mem_cons_self ..)
      have hSub : ∀ q ∈ front, q ∈ M := fun q hq => hM ▸ List.mem_append_left _ hq
      rw [List.map_append, List.map_singleton]
      refine Queue.snoc (ih hM) (List.get_mem _ _) (List.get_mem _ _) hMatch ?_ ?_ ?_ ?_
      · intro hm
        rw [List.map_map] at hm
        obtain ⟨q, hq, hEq⟩ := List.mem_map.mp hm
        have hSame := hNodup.get_inj_iff.mp hEq
        exact hNew (List.inj_on_of_nodup_map hStable.matching.left (hSub q hq) hp hSame ▸ hq)
      · intro hm
        rw [List.map_map] at hm
        obtain ⟨q, hq, hEq⟩ := List.mem_map.mp hm
        have hSame := hList.position_eq (congrArg Machine.cloudID hEq)
        exact hNew (List.inj_on_of_nodup_map hStable.matching.right (hSub q hq) hp hSame ▸ hq)
      · intro c hc hMatch' hNearer
        obtain ⟨j, rfl⟩ := List.get_of_mem hc
        have hLt := (hList.score_lt_iff hMatch' hMatch).mpr hNearer
        rcases hStable.dominated p.1 j (matches_iff.mp hMatch') with
          ⟨j', hm, hLe⟩ | ⟨i', hm, hLe⟩
        · have hSame := List.inj_on_of_nodup_map hStable.matching.left hm hp rfl
          rw [← hSame] at hLt
          exact absurd (hLe.trans_lt hLt) (lt_irrefl _)
        · rw [List.map_map]
          exact List.mem_map.mpr ⟨_, hFront _ hm (hLe.trans_lt hLt), rfl⟩
      · intro d hd hMatch' hNearer
        obtain ⟨i, rfl⟩ := List.get_of_mem hd
        have hLt := (hList.score_lt_iff hMatch' hMatch).mpr hNearer
        rcases hStable.dominated i p.2 (matches_iff.mp hMatch') with
          ⟨j', hm, hLe⟩ | ⟨i', hm, hLe⟩
        · rw [List.map_map]
          exact List.mem_map.mpr ⟨_, hFront _ hm (hLe.trans_lt hLt), rfl⟩
        · have hSame := List.inj_on_of_nodup_map hStable.matching.right hm hp rfl
          rw [← hSame] at hLt
          exact absurd (hLe.trans_lt hLt) (lt_irrefl _)

/-- Every pair of a stable matching is the last one of some queue. -/
theorem exists_queue (hList : CloudList cld cms) (hNodup : dbms.Nodup)
    {M : List (Fin dbms.length × Fin cms.length)}
    (hStable : Stable (indexScore dbms cms scoreOf) M) {p : Fin dbms.length × Fin cms.length}
    (hp : p ∈ M) : ∃ queue, Queue dbms cms (queue ++ [atPositions dbms cms p]) := by
  have hPerm := List.perm_insertionSort (fun p q : Fin dbms.length × Fin cms.length =>
    indexScore dbms cms scoreOf p.1 p.2 ≤ indexScore dbms cms scoreOf q.1 q.2) M
  have : Std.Total (fun p q : Fin dbms.length × Fin cms.length =>
      indexScore dbms cms scoreOf p.1 p.2 ≤ indexScore dbms cms scoreOf q.1 q.2) :=
    ⟨fun p q => le_total _ _⟩
  have : IsTrans (Fin dbms.length × Fin cms.length) (fun p q =>
      indexScore dbms cms scoreOf p.1 p.2 ≤ indexScore dbms cms scoreOf q.1 q.2) :=
    ⟨fun _ _ _ => le_trans⟩
  obtain ⟨front, back, hSplit⟩ := List.append_of_mem (hPerm.mem_iff.mpr hp)
  have hQueue := queue_of_stable hList hNodup (hStable.perm hPerm)
    (List.pairwise_insertionSort _ _) (hSplit.trans (List.append_cons front p back))
  rw [List.map_append, List.map_singleton] at hQueue
  exact ⟨_, hQueue⟩

section Queue

variable {queue : List (Machine × Machine)}

theorem Queue.of_mem_iff {dbms' cms' : List Machine} (h : Queue dbms cms queue)
    (hRows : ∀ d, d ∈ dbms ↔ d ∈ dbms') (hMachines : ∀ c, c ∈ cms ↔ c ∈ cms') :
    Queue dbms' cms' queue := by
  induction h with
  | nil => exact Queue.nil
  | snoc _ row machine compatible rowFree machineFree rowDue machineDue ih =>
      exact Queue.snoc ih ((hRows _).mp row) ((hMachines _).mp machine) compatible rowFree
        machineFree (fun c hc => rowDue c ((hMachines c).mpr hc))
        (fun d hd => machineDue d ((hRows d).mpr hd))

theorem Queue.mem (h : Queue dbms cms queue) {p : Machine × Machine} (hp : p ∈ queue) :
    p.1 ∈ dbms ∧ p.2 ∈ cms ∧ Matches p.1 p.2 := by
  induction h with
  | nil => cases hp
  | snoc _ row machine compatible _ _ _ _ ih =>
      rcases List.mem_append.mp hp with hp | hp
      · exact ih hp
      · obtain rfl := List.mem_singleton.mp hp
        exact ⟨row, machine, compatible⟩

theorem Queue.nodup (h : Queue dbms cms queue) :
    (queue.map Prod.fst).Nodup ∧ (queue.map Prod.snd).Nodup := by
  induction h with
  | nil => exact ⟨List.nodup_nil, List.nodup_nil⟩
  | snoc _ _ _ _ rowFree machineFree _ _ ih =>
      rw [List.map_append, List.map_append]
      exact ⟨List.nodup_append'.mpr ⟨ih.1, List.nodup_singleton _, by simpa using rowFree⟩,
        List.nodup_append'.mpr ⟨ih.2, List.nodup_singleton _, by simpa using machineFree⟩⟩

/-- At every pair of a queue, all that is nearer stands in front. -/
theorem Queue.due (h : Queue dbms cms queue) {front back : List (Machine × Machine)}
    {p : Machine × Machine} (hSplit : queue = front ++ p :: back) :
    (∀ c ∈ cms, Matches p.1 c → distance p.1 c < distance p.1 p.2 → c ∈ front.map Prod.snd) ∧
      ∀ d ∈ dbms, Matches d p.2 → distance d p.2 < distance p.1 p.2 → d ∈ front.map Prod.fst := by
  induction h generalizing back with
  | nil => simp at hSplit
  | snoc _ _ _ _ _ _ rowDue machineDue ih =>
      rcases List.eq_nil_or_concat back with rfl | ⟨back, last, rfl⟩
      · obtain ⟨rfl, hLast⟩ := List.append_inj' hSplit rfl
        obtain rfl := (List.cons.inj hLast).1
        exact ⟨rowDue, machineDue⟩
      · rw [List.concat_eq_append, ← List.cons_append, ← List.append_assoc] at hSplit
        exact ih (List.append_inj' hSplit rfl).1

/-- If the rows and the machines of a queue stand in front, in this order, they
are paired. -/
theorem queue_paired (hQueue : Queue dbms cms queue) {rest rest' : List Machine}
    (hDBMs : dbms = queue.map Prod.fst ++ rest) (hCMs : cms = queue.map Prod.snd ++ rest')
    (hRows : ∀ d ∈ dbms, cld.owns d = true) (hList : CloudList cld cms) (hNodup : dbms.Nodup)
    {M : List (Fin dbms.length × Fin cms.length)} (hStable : Stable (rank dbms cms scoreOf) M)
    {p : Machine × Machine} (hp : p ∈ queue) : ∃ q ∈ M, atPositions dbms cms q = p := by
  have hL : queue.length ≤ dbms.length := by simp [hDBMs]
  have hR : queue.length ≤ cms.length := by simp [hCMs]
  have hRow : ∀ k (hk : k < queue.length) h, dbms.get ⟨k, h⟩ = (queue.get ⟨k, hk⟩).1 := by
    intro k hk h
    subst hDBMs
    simp [List.getElem_append_left, hk]
  have hMachine : ∀ k (hk : k < queue.length) h, cms.get ⟨k, h⟩ = (queue.get ⟨k, hk⟩).2 := by
    intro k hk h
    subst hCMs
    simp [List.getElem_append_left, hk]
  have hMatch : ∀ k (hk : k < queue.length) h h', Matches (dbms.get ⟨k, h⟩) (cms.get ⟨k, h'⟩) := by
    intro k hk h h'
    rw [hRow k hk, hMachine k hk]
    exact (hQueue.mem (List.get_mem _ _)).2.2
  have hSplit : ∀ k (hk : k < queue.length),
      queue = queue.take k ++ queue.get ⟨k, hk⟩ :: queue.drop (k + 1) := by
    intro k hk
    simp
  obtain ⟨⟨k, hk⟩, rfl⟩ := List.get_of_mem hp
  refine ⟨_, diagonal_mem hStable hL hR ?_ ?_ ?_ k hk,
    Prod.ext (hRow k hk _) (hMachine k hk _)⟩
  · intro k hk
    exact matches_iff.mp (hMatch k hk _ _)
  · intro k hk j hScore hLt
    have hMatch' := matches_iff.mpr hScore
    rw [hList.score_lt_iff hMatch' (hMatch k hk _ _), hRow k hk, hMachine k hk] at hLt
    rw [hRow k hk] at hMatch'
    obtain ⟨q, hq, hEq⟩ := List.mem_map.mp
      ((hQueue.due (hSplit k hk)).1 _ (List.get_mem _ _) hMatch' hLt)
    obtain ⟨k', hk', rfl⟩ := List.mem_take_iff_getElem.mp hq
    have hSame : j = ⟨k', by omega⟩ := hList.position_eq (congrArg Machine.cloudID
      (hEq.symm.trans (hMachine k' (by omega) (by omega)).symm))
    rw [hSame]
    exact hk'.trans_le (Nat.min_le_left _ _)
  · intro k hk i hScore hLt
    have hMatch' := matches_iff.mpr hScore
    rw [hList.score_lt_iff hMatch' (hMatch k hk _ _), hRow k hk, hMachine k hk] at hLt
    rw [hMachine k hk] at hMatch'
    obtain ⟨q, hq, hEq⟩ := List.mem_map.mp
      ((hQueue.due (hSplit k hk)).2 _ (List.get_mem _ _) hMatch' hLt)
    obtain ⟨k', hk', rfl⟩ := List.mem_take_iff_getElem.mp hq
    have hSame : i = ⟨k', by omega⟩ := hNodup.get_inj_iff.mp
      (hEq.symm.trans (hRow k' (by omega) (by omega)).symm)
    rw [hSame]
    exact hk'.trans_le (Nat.min_le_left _ _)

end Queue

/-- An heir has no machine of its own, or another row keeps it. -/
theorem Heir.loose {dbm cm c : Machine} (h : Heir dbms cms dbm cm) (hc : c ∈ cms)
    (hClaims : Claims dbm c) : ∃ d ∈ dbms, d ≠ dbm ∧ Claims d c := by
  obtain ⟨queue, hQueue⟩ := h.falls
  have hRow := (hQueue.mem (List.mem_append_right _ (List.mem_singleton_self _))).1
  have hOther : dbm.cloudID ≠ cm.cloudID := fun hID => h.unknown dbm hRow hID ⟨rfl, rfl⟩
  have hNodup := hQueue.nodup.1
  rw [List.map_append, List.map_singleton] at hNodup
  have hFree : dbm ∉ queue.map Prod.fst := fun hm =>
    (List.nodup_append'.mp hNodup).2.2 hm (List.mem_singleton_self _)
  -- the machine is nearer than the one that the heir gets, hence taken before
  have hNearest : distance dbm c = 0 := if_pos hClaims.2
  have hFar : 0 < distance dbm cm := by
    rw [distance, if_neg hOther]
    split_ifs <;> omega
  obtain ⟨⟨d, c'⟩, hq, rfl⟩ := List.mem_map.mp
    ((hQueue.due rfl).1 c hc hClaims.1 (hNearest.symm ▸ hFar))
  obtain ⟨hd, -, hMatch⟩ := hQueue.mem (List.mem_append_left _ hq)
  refine ⟨d, hd, fun hEq => hFree (hEq ▸ List.mem_map_of_mem hq), hMatch, ?_⟩
  -- and by a row that is as near as the heir
  by_contra hID
  obtain ⟨front, back, hSplit⟩ := List.append_of_mem hq
  have hWhole : queue ++ [(dbm, cm)] = front ++ (d, c') :: (back ++ [(dbm, cm)]) := by
    simp [hSplit]
  have hNearer : distance dbm c' < distance d c' := by
    rw [hNearest, distance, if_neg hID]
    split_ifs <;> omega
  have hDue := (hQueue.due hWhole).2 dbm hRow hClaims.1 hNearer
  apply hFree
  rw [hSplit, List.map_append]
  exact List.mem_append_left _ hDue

/-- There is no heir if each row about which something is known has the machine of its
cloud ID to itself. -/
theorem not_heir_of_own (hOwn : ∀ dbm ∈ dbms, Informed dbm →
      ∃ c ∈ cms, Claims dbm c ∧ ∀ d ∈ dbms, d.cloudID = c.cloudID → d = dbm)
    (dbm cm : Machine) : ¬ Heir dbms cms dbm cm := by
  intro h
  obtain ⟨queue, hQueue⟩ := h.falls
  have hRow := (hQueue.mem (List.mem_append_right _ (List.mem_singleton_self _))).1
  obtain ⟨c, hc, hClaims, hAlone⟩ := hOwn dbm hRow h.informed
  obtain ⟨d, hd, hNe, hOther⟩ := h.loose hc hClaims
  exact hNe (hAlone d hd hOther.2)

theorem identityKept_of_no_heir {view view' : Database} {cms' : List Machine} {ord : MapOrder}
    (hList : CloudList cld cms)
    (hNoHeir : ∀ dbm cm, ¬ Heir ((view.rows .machine).filter cld.owns) cms dbm cm)
    (hPerm : cms'.Perm cms) (hRun : cld.syncDBWithCloud cms' ord view = .ok view') :
    IdentityKept cld view view' := by
  have hSelected : (cld.selectMachines ord view).Perm ((view.rows .machine).filter cld.owns) :=
    (ord.perm _).filter _
  have hNodup := hSelected.nodup_iff.mpr (nodup_owned cld view)
  have hList' := hList.perm hPerm
  obtain ⟨view'', M, ll, lr, hRun', hPositions, hStable, hRows⟩ :=
    syncDBWithCloud_rows cld hList'.owned ord view rfl
  obtain rfl : view' = view'' := Except.ok.inj (hRun.symm.trans hRun')
  intro r hr hInformed
  rcases List.mem_append.mp (hRows.mem_iff.mp hr) with hr | hr
  · obtain ⟨⟨i, j⟩, hm, rfl⟩ := List.mem_map.mp hr
    obtain ⟨queue, hQueue⟩ := exists_queue hList' hNodup (stable_of_rank hStable) hm
    by_contra hLost
    refine hNoHeir ((cld.selectMachines ord view).get i) (cms'.get j)
      ⟨hInformed, fun d hd hID hSame => hLost ⟨d, hd, hID, hSame⟩, queue, ?_⟩
    exact hQueue.of_mem_iff (fun _ => hSelected.mem_iff) (fun _ => hPerm.mem_iff)
  · obtain ⟨cm, -, id, rfl⟩ := mem_addedRows hr
    simp [Informed, syncedRow, blankRow] at hInformed

/-- In particular what is known stays where it is if each of these rows matches the
listed machine with its cloud ID, and no other row has this ID. -/
theorem identityKept_of_own {view view' : Database} {cms' : List Machine} {ord : MapOrder}
    (hList : CloudList cld cms)
    (hOwn : ∀ dbm ∈ (view.rows .machine).filter cld.owns, Informed dbm → ∃ c ∈ cms, Claims dbm c ∧
      ∀ d ∈ (view.rows .machine).filter cld.owns, d.cloudID = c.cloudID → d = dbm)
    (hPerm : cms'.Perm cms) (hRun : cld.syncDBWithCloud cms' ord view = .ok view') :
    IdentityKept cld view view' :=
  identityKept_of_no_heir hList (not_heir_of_own hOwn) hPerm hRun

end Identity

/-- For every table and every list of a provider there is one row for each
machine afterwards. What is known about a machine was known about the same
machine before, in whatever order the table and the list are read, exactly if no
row can be an heir. -/
theorem syncDBWithCloud_identity (cld : Cloud) (view : Database) (cms : List Machine)
    (hList : CloudList cld cms) :
    (∀ ord, ∃ view', cld.syncDBWithCloud cms ord view = .ok view' ∧ Listed cld cms view') ∧
    ((∀ cms' ord view', cms'.Perm cms → cld.syncDBWithCloud cms' ord view = .ok view' →
        IdentityKept cld view view') ↔
      ∀ dbm cm, ¬ Heir ((view.rows .machine).filter cld.owns) cms dbm cm) := by
  refine ⟨fun ord => ?_, fun hKept dbm cm hHeir => ?_, fun hNoHeir cms' ord view' hPerm hRun => ?_⟩
  · obtain ⟨view', M, ll, lr, hRun, hPositions, -, hRows⟩ :=
      syncDBWithCloud_rows cld hList.owned ord view rfl
    refine ⟨view', hRun, (hRows.map cloudPart).trans ?_⟩
    have hGet := (Lists.get_perm hPositions.rights).map cloudPart
    rw [List.map_append, List.map_map, List.map_map] at hGet
    rw [List.map_append, map_cloudPart_addedRows, List.map_map]
    exact hGet
  · obtain ⟨queue, hQueue⟩ := hHeir.falls
    obtain ⟨rest, hRows⟩ := Lists.exists_front hQueue.nodup.1
      (fun d hd => by
        obtain ⟨p, hp, rfl⟩ := List.mem_map.mp hd
        exact (hQueue.mem hp).1)
    obtain ⟨rest', hMachines⟩ := Lists.exists_front hQueue.nodup.2
      (fun c hc => by
        obtain ⟨p, hp, rfl⟩ := List.mem_map.mp hc
        exact (hQueue.mem hp).2.1)
    obtain ⟨ord, hDBMs⟩ := exists_selectMachines_eq cld view hRows
    have hList' := hList.perm hMachines.symm
    obtain ⟨view', M, ll, lr, hRun, -, hStable, hAfter⟩ :=
      syncDBWithCloud_rows cld hList'.owned ord view hDBMs
    have hNodup := hRows.nodup_iff.mp (nodup_owned cld view)
    obtain ⟨p, hp, hPair⟩ := queue_paired
      (hQueue.of_mem_iff (fun _ => hRows.mem_iff) (fun _ => hMachines.mem_iff)) rfl rfl
      (fun d hd => (List.mem_filter.mp (hRows.mem_iff.mpr hd)).2) hList' hNodup hStable
      (List.mem_append_right _ (List.mem_singleton_self _))
    have hMem : syncedRow dbm cm ∈ (view'.rows .machine).filter cld.owns := by
      rw [hAfter.mem_iff]
      apply List.mem_append_left
      rw [List.mem_map]
      exact ⟨p, hp, congrArg₂ syncedRow (congrArg Prod.fst hPair) (congrArg Prod.snd hPair)⟩
    obtain ⟨d, hd, hID, hSame⟩ := hKept _ ord view' hMachines.symm hRun _ hMem hHeir.informed
    exact hHeir.unknown d hd hID hSame
  · exact identityKept_of_no_heir hList hNoHeir hPerm hRun

/-- A master that the foreman has reached. -/
def reachedMaster : Machine :=
  { id := 1, provider := "Amazon", region := "us-west-1", size := "m4.large", cloudID := "i-1",
    publicIP := "1.2.3.4", role := .master, connected := true, status := "connected" }

def masterTable : Database where
  rows
    | .machine => [reachedMaster]
    | _ => []
  shouldAlert := fun _ => false
  curID := 1
  nodup := fun tt => by cases tt <;> decide
  bounded := fun tt => by cases tt <;> decide

/-- A machine that was started in the place of the master. -/
def replacement : Machine :=
  { id := 0, provider := "Amazon", region := "us-west-1", size := "m4.large", cloudID := "i-2",
    publicIP := "5.6.7.8" }

/-- The new machine is taken for a connected master. -/
theorem syncDBWithCloud_transfers :
    CloudList ⟨"Amazon", "us-west-1"⟩ [replacement] ∧
      ∃ view', syncDBWithCloud ⟨"Amazon", "us-west-1"⟩ [replacement] MapOrder.stored
          masterTable = .ok view' ∧
        view'.rows .machine = [syncedRow reachedMaster replacement] ∧
        ¬ IdentityKept ⟨"Amazon", "us-west-1"⟩ masterTable view' := by
  have hRows : (syncDBWithCloud ⟨"Amazon", "us-west-1"⟩ [replacement] MapOrder.stored
      masterTable).toOption.map (fun view' => view'.rows .machine) =
        some [syncedRow reachedMaster replacement] := by
    decide +kernel
  cases hRun : syncDBWithCloud ⟨"Amazon", "us-west-1"⟩ [replacement] MapOrder.stored
      masterTable with
  | error e =>
      rw [hRun] at hRows
      cases hRows
  | ok view' =>
      rw [hRun] at hRows
      have hTable : view'.rows .machine = [syncedRow reachedMaster replacement] :=
        Option.some.inj hRows
      refine ⟨⟨by decide, by decide, by decide, by decide⟩, view', rfl, hTable, fun hKept => ?_⟩
      rw [IdentityKept, hTable] at hKept
      obtain ⟨dbm, hdbm, hID, -⟩ := hKept _ (List.mem_cons_self ..) (Or.inr rfl)
      obtain rfl : dbm = reachedMaster := List.mem_singleton.mp (List.mem_filter.mp hdbm).1
      exact absurd hID (by decide)

/-- With the master still in the list, its row stays with it. -/
theorem syncDBWithCloud_identity_master :
    ∃ cms : List Machine, cms.length = 2 ∧ CloudList ⟨"Amazon", "us-west-1"⟩ cms ∧
      ∀ cms' ord view', cms'.Perm cms →
        syncDBWithCloud ⟨"Amazon", "us-west-1"⟩ cms' ord masterTable = .ok view' →
          IdentityKept ⟨"Amazon", "us-west-1"⟩ masterTable view' := by
  have hList : CloudList ⟨"Amazon", "us-west-1"⟩
      [{ replacement with cloudID := "i-1", publicIP := "1.2.3.4" }, replacement] :=
    ⟨by decide, by decide, by decide, by decide⟩
  refine ⟨_, rfl, hList, (syncDBWithCloud_identity _ masterTable _ hList).2.mpr ?_⟩
  have hOnly : ∀ d ∈ (masterTable.rows .machine).filter (owns ⟨"Amazon", "us-west-1"⟩),
      d = reachedMaster := fun d hd => List.mem_singleton.mp (List.mem_filter.mp hd).1
  refine not_heir_of_own (fun dbm hdbm _ => ?_)
  obtain rfl := hOnly dbm hdbm
  exact ⟨_, List.mem_cons_self .., ⟨⟨0, by decide, le_refl _⟩, rfl⟩, fun d hd _ => hOnly d hd⟩

end Kelda.Cloud
