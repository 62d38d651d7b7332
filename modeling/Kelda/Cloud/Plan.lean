import Kelda.Cloud.Join

/-! What the join of the machine table with the blueprint decides: which machine
of the blueprint is served by which row, which machines are booted and which are
stopped, and what the table holds afterwards. -/
namespace Kelda.Cloud

open DB Database Join GreedyMatching

section Score

/-- The two may be matched. -/
def Matches (l r : Machine) : Prop := ∃ score, machineScore l r = .ok score ∧ 0 ≤ score

/-- The score of two machines of the same provider and region. -/
def scoreOf (l r : Machine) : Int := ((machineScore l r).toOption).getD (-1)

def SharesIP (l r : Machine) : Prop := l.floatingIP = r.floatingIP ∧ r.floatingIP ≠ ""

instance (l r : Machine) : Decidable (SharesIP l r) := inferInstanceAs (Decidable (_ ∧ _))

theorem machineScore_eq {l r : Machine} (hProvider : l.provider = r.provider)
    (hRegion : l.region = r.region) : machineScore l r = .ok (scoreOf l r) := by
  have hOk : ∃ score, machineScore l r = .ok score := by
    rw [machineScore, if_neg (by simp [hProvider, hRegion])]
    split_ifs <;> exact ⟨_, rfl⟩
  obtain ⟨score, hScore⟩ := hOk
  rw [scoreOf, hScore]
  rfl

/-- Neither the ID nor the status has a part in the score. -/
theorem machineScore_withStatus (l r : Machine) (id : Nat) (status status' : String) :
    machineScore { l with id, status } { r with status := status' } = machineScore l r := rfl

variable {cld : Cloud} {adminKey : String}

theorem owns_desiredMachines {bpms : List Blueprint.Machine} {bpm : Machine}
    (h : bpm ∈ cld.desiredMachines adminKey bpms) : cld.owns bpm = true := by
  obtain ⟨b, -, hRow⟩ := List.mem_filterMap.mp h
  rw [desiredMachine] at hRow
  by_cases hOther : b.provider ≠ cld.providerName ∨ b.region ≠ cld.region
  · rw [if_pos hOther] at hRow
    cases hRow
  · rw [if_neg hOther] at hRow
    rw [not_or, not_not, not_not] at hOther
    cases hRole : parseRole b.role with
    | error e =>
        rw [hRole] at hRow
        cases hRow
    | ok role =>
        rw [hRole] at hRow
        cases hRow
        exact decide_eq_true hOther

theorem machineScore_of_owns {l r : Machine} (hl : cld.owns l = true) (hr : cld.owns r = true) :
    machineScore l r = .ok (scoreOf l r) := by
  rw [owns, decide_eq_true_eq] at hl hr
  exact machineScore_eq (hl.1.trans hr.1.symm) (hl.2.trans hr.2.symm)

theorem joinM_machineScore {L R : List Machine} (hL : ∀ l ∈ L, cld.owns l = true)
    (hR : ∀ r ∈ R, cld.owns r = true) : joinM L R machineScore = .ok (join L R scoreOf) :=
  joinM_ok L R machineScore scoreOf (fun l hl r hr => machineScore_of_owns (hL l hl) (hR r hr))

theorem matches_iff {l r : Machine} : Matches l r ↔ 0 ≤ scoreOf l r := by
  rw [Matches, scoreOf]
  cases machineScore l r <;> simp [Except.toOption]

theorem matches_iff_compatible {l r : Machine} :
    Matches l r ↔ l.provider = r.provider ∧ l.region = r.region ∧
      l.preemptible = r.preemptible ∧ l.size = r.size ∧
      (l.diskSize ≠ 0 → r.diskSize ≠ 0 → l.diskSize = r.diskSize) ∧
      (l.role ≠ .none → r.role ≠ .none → l.role = r.role) := by
  constructor
  · rintro ⟨score, hScore, hNonneg⟩
    rw [machineScore] at hScore
    split_ifs at hScore with hPlace hPreemptible hSize hDisk hRole
    all_goals cases hScore
    all_goals first
      | omega
      | exact ⟨not_not.mp (fun h => hPlace (Or.inl h)), not_not.mp (fun h => hPlace (Or.inr h)),
          not_not.mp hPreemptible, not_not.mp hSize,
          fun hl hr => not_not.mp (fun h => hDisk ⟨hl, hr, h⟩),
          fun hl hr => not_not.mp (fun h => hRole ⟨hl, hr, h⟩)⟩
  · rintro ⟨hProvider, hRegion, hPreemptible, hSize, hDisk, hRole⟩
    rw [Matches, machineScore, if_neg (fun h => h.elim (· hProvider) (· hRegion)),
      if_neg (· hPreemptible), if_neg (· hSize), if_neg (fun h => h.2.2 (hDisk h.1 h.2.1)),
      if_neg (fun h => h.2.2 (hRole h.1 h.2.1))]
    split_ifs
    all_goals exact ⟨_, rfl, by omega⟩

/-- The score of a match: the same machine is best, then equal known roles and
equal floating IPs count. -/
theorem scoreOf_of_matches {l r : Machine} (h : Matches l r) :
    scoreOf l r = if l.cloudID ≠ "" ∧ r.cloudID ≠ "" ∧ l.cloudID = r.cloudID then 0
      else 10 - (if l.floatingIP ≠ "" ∧ r.floatingIP ≠ "" ∧ l.floatingIP = r.floatingIP
        then 2 else 0) - (if l.role ≠ .none ∧ r.role ≠ .none then 1 else 0) := by
  obtain ⟨score, hScore, hNonneg⟩ := h
  have hOf : scoreOf l r = score := by
    rw [scoreOf, hScore]
    rfl
  rw [hOf]
  rw [machineScore] at hScore
  split_ifs at hScore with h₁ h₂ h₃ h₄ h₅ h₆ h₇ h₈
  all_goals cases hScore
  all_goals first
    | omega
    | simp [*]

/-- A machine of the blueprint has no cloud ID. A shared floating IP counts more
than known roles. -/
theorem scoreOf_desired {bpm dbm : Machine} (h : Matches bpm dbm) (hNoID : bpm.cloudID = "") :
    scoreOf bpm dbm = 10 - (if SharesIP bpm dbm then 2 else 0) -
      (if bpm.role ≠ .none ∧ dbm.role ≠ .none then 1 else 0) := by
  rw [scoreOf_of_matches h, if_neg (fun hIDs => hIDs.1 hNoID)]
  congr 2
  refine if_congr ⟨fun hIP => ⟨hIP.2.2, hIP.2.1⟩, fun hIP => ⟨?_, hIP.2, hIP.1⟩⟩ rfl rfl
  rw [hIP.1]
  exact hIP.2

end Score

section Loops

/-- The update of the floating IP of a matched machine, if one is due. -/
def floatingUpdate (bpm dbm : Machine) : Option Machine :=
  if (matchedRow bpm dbm).role ≠ .none ∧ bpm.floatingIP ≠ (matchedRow bpm dbm).floatingIP then
    some { matchedRow bpm dbm with floatingIP := bpm.floatingIP }
  else none

/-- What is noted about a matched machine. -/
def noteMatched (res : JoinResult) (p : Pair Machine Machine) : JoinResult :=
  let dbm := matchedRow p.L p.R
  if dbm.role ≠ .none ∧ p.L.floatingIP ≠ dbm.floatingIP then
    { res with updateIPs := res.updateIPs ++ [{ dbm with floatingIP := p.L.floatingIP }] }
  else res

theorem foldlM_keepMachine (res : JoinResult) (view : Database)
    (pairs : List (Pair Machine Machine)) :
    pairs.foldlM keepMachine (res, view) =
      (view.commitAll .machine matchedRow pairs).map
        (fun view' => (pairs.foldl noteMatched res, view')) := by
  apply Except.foldlM_with_result
  intro res view p
  rw [keepMachine, noteMatched]
  cases view.commit .machine (matchedRow p.L p.R) with
  | error e => rfl
  | ok view' =>
      dsimp only [bind, Except.bind, Except.map]
      split_ifs <;> rfl

/-- The row of a machine that is to be stopped. -/
def stoppedRow (dbm : Machine) : Machine := { dbm with status := stopping }

theorem foldlM_stopMachine (res : JoinResult) (view : Database) (dbms : List Machine) :
    dbms.foldlM stopMachine (res, view) =
      (view.commitEach .machine stoppedRow dbms).map
        (fun view' => ({ res with terminate := res.terminate ++ dbms.map stoppedRow }, view')) := by
  have hStep : ∀ (res : JoinResult) (view : Database) (dbm : Machine),
      stopMachine (res, view) dbm = (view.commit .machine (stoppedRow dbm)).map (fun view' =>
        ({ res with terminate := res.terminate ++ [stoppedRow dbm] }, view')) := by
    intro res view dbm
    rw [stopMachine]
    change (view.commit .machine (stoppedRow dbm)).bind _ = _
    cases view.commit .machine (stoppedRow dbm) <;> rfl
  have hNote : ∀ (dbms : List Machine) (res : JoinResult),
      dbms.foldl (fun res dbm => { res with terminate := res.terminate ++ [stoppedRow dbm] }) res =
        { res with terminate := res.terminate ++ dbms.map stoppedRow } := by
    intro dbms
    induction dbms with
    | nil => simp
    | cons dbm dbms ih => simp [ih]
  rw [Except.foldlM_with_result hStep, hNote, commitEach]

/-- A machine that is booted, with the ID of its row. -/
def bootedMachine (id : Nat) (bpm : Machine) : Machine := { bpm with id, status := booting }

/-- The machines that are booted when the counter stands at `curID`. -/
def bootedMachines (curID : Nat) (bpms : List Machine) : List Machine :=
  bpms.mapIdx (fun k => bootedMachine (curID + 1 + k))

theorem bootedMachines_cons (curID : Nat) (bpm : Machine) (bpms : List Machine) :
    bootedMachines curID (bpm :: bpms) =
      bootedMachine (curID + 1) bpm :: bootedMachines (curID + 1) bpms := by
  simp only [bootedMachines, List.mapIdx_cons, Nat.add_zero]
  congr 2
  funext k bpm'
  rw [show curID + 1 + (k + 1) = curID + 1 + 1 + k by omega]

/-- The row of a machine that is booted. -/
def bootedRow (bpm : Machine) : Machine := { bpm with role := .none }

theorem bootMachine_eq (res : JoinResult) (view : Database) (bpm : Machine) :
    ∃ view', bootMachine (res, view) bpm =
        .ok ({ res with boot := res.boot ++ [bootedMachine (view.curID + 1) bpm] }, view') ∧
      view'.rows .machine =
        view.rows .machine ++ [bootedRow (bootedMachine (view.curID + 1) bpm)] ∧
      view'.curID = view.curID + 1 ∧ Touches .machine view view' := by
  obtain ⟨view', hAdd, hSpec⟩ : ∃ view',
      view.addRow .machine (fun dbm => bootedRow (bootedMachine dbm.id bpm)) = .ok view' ∧
      view'.rows .machine =
        view.rows .machine ++ [bootedRow (bootedMachine (view.curID + 1) bpm)] ∧
      view'.curID = view.curID + 1 ∧ Touches .machine view view' := view.addRow_spec rfl
  refine ⟨view', ?_, hSpec⟩
  change ((view.addRow .machine (fun dbm => bootedRow (bootedMachine dbm.id bpm))).bind _) = _
  rw [hAdd]
  rfl

theorem foldlM_bootMachine (res : JoinResult) (view : Database) (bpms : List Machine) :
    ∃ view', bpms.foldlM bootMachine (res, view) =
        .ok ({ res with boot := res.boot ++ bootedMachines view.curID bpms }, view') ∧
      view'.rows .machine =
        view.rows .machine ++ (bootedMachines view.curID bpms).map bootedRow ∧
      Touches .machine view view' := by
  induction bpms generalizing res view with
  | nil => exact ⟨view, by simp [bootedMachines, pure, Except.pure], by simp [bootedMachines],
      Touches.refl _ _⟩
  | cons bpm bpms ih =>
      obtain ⟨mid, hStep, hRows, hCur, hTouches⟩ := bootMachine_eq res view bpm
      obtain ⟨view', hRest, hRows', hTouches'⟩ :=
        ih { res with boot := res.boot ++ [bootedMachine (view.curID + 1) bpm] } mid
      refine ⟨view', ?_, ?_, hTouches.trans hTouches'⟩
      · rw [List.foldlM_cons, hStep, bootedMachines_cons]
        rw [hCur, List.append_assoc] at hRest
        exact hRest
      · rw [hRows', hRows, hCur, bootedMachines_cons, List.append_assoc]
        rfl

end Loops

/-- The plan for the machines of a blueprint and the rows of a provider and
region. Machines and rows are told apart by their positions: each of them is in
one pair, or is booted or stopped. -/
structure Plan (bpms dbms others : List Machine) (curID : Nat) (res : JoinResult)
    (rows : List Machine) (M : List (Fin bpms.length × Fin dbms.length))
    (ll : List (Fin bpms.length)) (lr : List (Fin dbms.length)) : Prop where
  lefts : (M.map Prod.fst ++ ll).Perm (List.finRange bpms.length)
  rights : (M.map Prod.snd ++ lr).Perm (List.finRange dbms.length)
  boot : res.boot = bootedMachines curID (ll.map bpms.get)
  terminate : res.terminate = lr.map (fun j => stoppedRow (dbms.get j))
  admissible : ∀ p ∈ M, Matches (bpms.get p.1) (dbms.get p.2)
  maximal : ∀ bpm ∈ res.boot, ∀ dbm ∈ res.terminate, ¬ Matches bpm dbm
  matched : ∀ p ∈ M, ∃ status, matchedRow (bpms.get p.1) (dbms.get p.2) =
    { dbms.get p.2 with sshKeys := (bpms.get p.1).sshKeys, status }
  rows : rows.Perm (others ++ M.map (fun p => matchedRow (bpms.get p.1) (dbms.get p.2)) ++
    res.terminate ++ res.boot.map bootedRow)

theorem matchedRow_eq (bpm dbm : Machine) :
    ∃ status, matchedRow bpm dbm = { dbm with sshKeys := bpm.sshKeys, status } := by
  rw [matchedRow]
  dsimp only
  split_ifs
  · exact ⟨_, rfl⟩
  · exact ⟨dbm.status, rfl⟩

theorem getID_matchedRow (bpm dbm : Machine) :
    getID .machine (matchedRow bpm dbm) = getID .machine dbm := by
  obtain ⟨status, h⟩ := matchedRow_eq bpm dbm
  rw [h]
  rfl

section Table

theorem owns_of_select {cld : Cloud} {ord : MapOrder} {view : Database} {dbms : List Machine}
    (h : cld.selectMachines ord view = dbms) : ∀ dbm ∈ dbms, cld.owns dbm = true :=
  fun _ hdbm => (view.mem_select.mp (h.symm ▸ hdbm)).2

/-- The table consists of the rows of this provider and region and the others. -/
theorem selectMachines_perm (cld : Cloud) (ord : MapOrder) (view : Database) :
    ((view.rows .machine).filter (fun dbm => !cld.owns dbm) ++ cld.selectMachines ord view).Perm
      (view.rows .machine) := by
  have hSelect : (cld.selectMachines ord view).Perm ((view.rows .machine).filter cld.owns) :=
    (ord.perm (view.rows .machine)).filter _
  refine (hSelect.append_left _).trans ?_
  exact List.perm_append_comm.trans (List.filter_append_perm _ _)

/-- Of the other rows and rows of this provider and region, the latter remain. -/
theorem filter_owns_append (cld : Cloud) (view : Database) {rs : List Machine}
    (h : ∀ r ∈ rs, cld.owns r = true) :
    ((view.rows .machine).filter (fun dbm => !cld.owns dbm) ++ rs).filter cld.owns = rs := by
  rw [List.filter_append, List.filter_eq_self.mpr h, List.filter_filter,
    List.filter_eq_nil_iff.mpr (fun dbm _ => by simp), List.nil_append]

theorem nodup_owned (cld : Cloud) (view : Database) :
    ((view.rows .machine).filter cld.owns).Nodup :=
  (List.Nodup.of_map _ (view.nodup .machine)).filter _

/-- Every arrangement of the rows of this provider and region is one in which the
table may be read. -/
theorem exists_selectMachines_eq (cld : Cloud) (view : Database) {dbms : List Machine}
    (h : ((view.rows .machine).filter cld.owns).Perm dbms) :
    ∃ ord, cld.selectMachines ord view = dbms := by
  have hOwned : ∀ dbm ∈ dbms, cld.owns dbm = true :=
    fun dbm hdbm => (List.mem_filter.mp (h.mem_iff.mpr hdbm)).2
  have hTable : (view.rows .machine).Perm
      (dbms ++ (view.rows .machine).filter (fun dbm => !cld.owns dbm)) :=
    (List.filter_append_perm _ _).symm.trans (h.append_right _)
  obtain ⟨ord, hWalk⟩ := MapOrder.exists_walk_eq hTable
  refine ⟨ord, ?_⟩
  rw [selectMachines, select, hWalk, List.filter_append, List.filter_eq_self.mpr hOwned,
    List.filter_filter, List.filter_eq_nil_iff.mpr (fun dbm _ => by simp), List.append_nil]

end Table

theorem foldl_noteMatched (pairs : List (Pair Machine Machine)) (res : JoinResult) :
    pairs.foldl noteMatched res =
      { res with
        updateIPs := res.updateIPs ++ pairs.filterMap (fun p => floatingUpdate p.L p.R) } := by
  induction pairs generalizing res with
  | nil => simp
  | cons p pairs ih =>
      rw [List.foldl_cons, ih, noteMatched]
      by_cases h : (matchedRow p.L p.R).role ≠ .none ∧
          p.L.floatingIP ≠ (matchedRow p.L p.R).floatingIP
      · rw [if_pos h, List.filterMap_cons, floatingUpdate, if_pos h]
        simp
      · rw [if_neg h, List.filterMap_cons, floatingUpdate, if_neg h]

/-- The three loops, if the table consists of the rows of the pairs, the lonely
rows and others. -/
theorem sync_loops {joined : Result Machine Machine} {others : List Machine} {view : Database}
    (hRows : (others ++ (joined.pairs.map Pair.R ++ joined.lonelyRights)).Perm (view.rows .machine))
    (isActive : Bool) :
    ∃ res view', (do
        let st ← joined.pairs.foldlM keepMachine (⟨[], [], [], isActive⟩, view)
        let st ← joined.lonelyRights.foldlM stopMachine st
        joined.lonelyLefts.foldlM bootMachine st) = .ok (res, view') ∧
      res.boot = bootedMachines view.curID joined.lonelyLefts ∧
      res.terminate = joined.lonelyRights.map stoppedRow ∧
      res.updateIPs = joined.pairs.filterMap (fun p => floatingUpdate p.L p.R) ∧
      (view'.rows .machine).Perm (others ++ joined.pairs.map (fun p => matchedRow p.L p.R) ++
        res.terminate ++ res.boot.map bootedRow) ∧ Touches .machine view view' := by
  have hFirst : ((others ++ joined.lonelyRights) ++ joined.pairs.map Pair.R).Perm
      (view.rows .machine) := by
    rw [List.append_assoc]
    exact (List.perm_append_comm.append_left _).trans hRows
  obtain ⟨v₁, hCommit₁, hPerm₁, hCur₁, hTouches₁⟩ : ∃ v₁,
      view.commitAll .machine matchedRow joined.pairs = .ok v₁ ∧
      (v₁.rows .machine).Perm ((others ++ joined.lonelyRights) ++
        joined.pairs.map (fun p => matchedRow p.L p.R)) ∧
      v₁.curID = view.curID ∧ Touches .machine view v₁ :=
    @commitAll_perm .machine Machine view matchedRow getID_matchedRow _ joined.pairs hFirst
  have hSecond : ((others ++ joined.pairs.map (fun p => matchedRow p.L p.R)) ++
      joined.lonelyRights).Perm (v₁.rows .machine) := by
    rw [List.append_assoc]
    refine (List.perm_append_comm.append_left _).trans ?_
    rw [← List.append_assoc]
    exact hPerm₁.symm
  obtain ⟨v₂, hCommit₂, hPerm₂, hCur₂, hTouches₂⟩ : ∃ v₂,
      v₁.commitEach .machine stoppedRow joined.lonelyRights = .ok v₂ ∧
      (v₂.rows .machine).Perm ((others ++ joined.pairs.map (fun p => matchedRow p.L p.R)) ++
        joined.lonelyRights.map stoppedRow) ∧
      v₂.curID = v₁.curID ∧ Touches .machine v₁ v₂ :=
    @commitEach_perm .machine v₁ stoppedRow (fun _ => rfl) _ joined.lonelyRights hSecond
  obtain ⟨v₃, hBoot, hRows₃, hTouches₃⟩ := foldlM_bootMachine
    ⟨[], joined.lonelyRights.map stoppedRow,
      joined.pairs.filterMap (fun p => floatingUpdate p.L p.R), isActive⟩ v₂ joined.lonelyLefts
  rw [hCur₂, hCur₁] at hBoot hRows₃
  refine ⟨⟨bootedMachines view.curID joined.lonelyLefts, joined.lonelyRights.map stoppedRow,
    joined.pairs.filterMap (fun p => floatingUpdate p.L p.R), isActive⟩, v₃, ?_, rfl, rfl, rfl, ?_,
    (hTouches₁.trans hTouches₂).trans hTouches₃⟩
  · rw [foldlM_keepMachine, hCommit₁, foldl_noteMatched]
    change (joined.lonelyRights.foldlM stopMachine (_, v₁)).bind _ = _
    rw [foldlM_stopMachine, hCommit₂]
    exact hBoot
  · rw [hRows₃]
    exact hPerm₂.append_right _

/-- With its blueprint, the function is a join and three loops. -/
theorem syncDBWithBlueprint_eq (cld : Cloud) (adminKey : String) (ords : Nat → MapOrder)
    {view : Database} {bpRow : BlueprintRow} (h : view.rows .blueprint = [bpRow])
    {bpms dbms : List Machine} (hBPMs : cld.desiredMachines adminKey bpRow.blueprint.machines = bpms)
    (hDBMs : cld.selectMachines (ords 1) view = dbms) :
    cld.syncDBWithBlueprint adminKey ords view = (do
      let joined ← joinM bpms dbms machineScore
      let st ← joined.pairs.foldlM keepMachine
        (⟨[], [], [], decide (0 < bpms.length ∨ 0 < dbms.length)⟩, view)
      let st ← joined.lonelyRights.foldlM stopMachine st
      joined.lonelyLefts.foldlM bootMachine st) := by
  rw [syncDBWithBlueprint, getBlueprint_single h, ← hBPMs, ← hDBMs]
  rfl

/-- Booted machines differ from those of the blueprint in ID and status. -/
theorem mem_bootedMachines {curID : Nat} {bpms : List Machine} {bpm : Machine}
    (h : bpm ∈ bootedMachines curID bpms) : ∃ id, ∃ bpm' ∈ bpms, bpm = bootedMachine id bpm' := by
  obtain ⟨k, hk, rfl⟩ := List.mem_mapIdx.mp h
  exact ⟨_, bpms[k], List.getElem_mem hk, rfl⟩

/-- A run in terms of the positions of the join. -/
theorem syncDBWithBlueprint_rows (cld : Cloud) (adminKey : String) (ords : Nat → MapOrder)
    {view : Database} {bpRow : BlueprintRow} (hBlueprint : view.rows .blueprint = [bpRow])
    {bpms dbms : List Machine}
    (hBPMs : cld.desiredMachines adminKey bpRow.blueprint.machines = bpms)
    (hDBMs : cld.selectMachines (ords 1) view = dbms) :
    ∃ res view' M ll lr, cld.syncDBWithBlueprint adminKey ords view = .ok (res, view') ∧
      Positions bpms dbms (join bpms dbms scoreOf) M ll lr ∧ Stable (rank bpms dbms scoreOf) M ∧
      res.boot = bootedMachines view.curID (ll.map bpms.get) ∧
      res.terminate = lr.map (fun j => stoppedRow (dbms.get j)) ∧
      res.updateIPs = M.filterMap (fun p => floatingUpdate (bpms.get p.1) (dbms.get p.2)) ∧
      (view'.rows .machine).Perm ((view.rows .machine).filter (fun dbm => !cld.owns dbm) ++
        M.map (fun p => matchedRow (bpms.get p.1) (dbms.get p.2)) ++ res.terminate ++
        res.boot.map bootedRow) ∧ Touches .machine view view' := by
  have hDesired : ∀ bpm ∈ bpms, cld.owns bpm = true :=
    fun bpm h => owns_desiredMachines (hBPMs.symm ▸ h)
  have hTable := selectMachines_perm cld (ords 1) view
  rw [hDBMs] at hTable
  obtain ⟨M, ll, lr, hPositions, -, -, hStable⟩ := join_ranked bpms dbms scoreOf
  obtain ⟨res, view', hLoops, hBoot, hTerminate, hUpdate, hRows, hTouches⟩ :=
    sync_loops ((hPositions.rights_perm.append_left _).trans hTable)
      (decide (0 < bpms.length ∨ 0 < dbms.length))
  rw [hPositions.lonelyLefts] at hBoot
  rw [hPositions.lonelyRights, List.map_map] at hTerminate
  rw [hPositions.pairs, List.filterMap_map] at hUpdate
  rw [hPositions.pairs, List.map_map] at hRows
  refine ⟨res, view', M, ll, lr, ?_, hPositions, hStable, hBoot, hTerminate, hUpdate, hRows,
    hTouches⟩
  rw [syncDBWithBlueprint_eq cld adminKey ords hBlueprint hBPMs hDBMs,
    joinM_machineScore hDesired (owns_of_select hDBMs)]
  exact hLoops

/-- For every table and blueprint the join with the blueprint is a plan that
loses no machine and no row and is maximal; it touches no other table. -/
theorem syncDBWithBlueprint_plan (cld : Cloud) (adminKey : String) (ords : Nat → MapOrder)
    (view : Database) (bpRow : BlueprintRow) (hBlueprint : view.rows .blueprint = [bpRow]) :
    ∃ res view' M ll lr, cld.syncDBWithBlueprint adminKey ords view = .ok (res, view') ∧
      Plan (cld.desiredMachines adminKey bpRow.blueprint.machines)
        (cld.selectMachines (ords 1) view)
        ((view.rows .machine).filter (fun dbm => !cld.owns dbm)) view.curID res
        (view'.rows .machine) M ll lr ∧
      ∀ tt, tt ≠ .machine → view'.rows tt = view.rows tt := by
  obtain ⟨res, view', M, ll, lr, hRun, hPositions, hStable, hBoot, hTerminate, -, hRows,
    hTouches⟩ := syncDBWithBlueprint_rows cld adminKey ords hBlueprint rfl rfl
  have hStable := stable_of_rank hStable
  refine ⟨res, view', M, ll, lr, hRun, ?_, fun tt h => hTouches.rows tt h⟩
  refine ⟨hPositions.lefts, hPositions.rights, hBoot, hTerminate, fun p hp => ?_, ?_,
    fun p _ => matchedRow_eq _ _, hRows⟩
  · exact matches_iff.mpr (hStable.nonneg p hp)
  · intro bpm hbpm dbm hdbm
    rw [hBoot] at hbpm
    rw [hTerminate] at hdbm
    obtain ⟨id, bpm', hbpm', rfl⟩ := mem_bootedMachines hbpm
    obtain ⟨i, hi, rfl⟩ := List.mem_map.mp hbpm'
    obtain ⟨j, hj, rfl⟩ := List.mem_map.mp hdbm
    rw [Matches, bootedMachine, stoppedRow, machineScore_withStatus, ← Matches, matches_iff, not_le]
    exact hStable.negative_of_free (hPositions.left_free hi) (hPositions.right_free hj)

/-- Two machines of a blueprint, of which one runs already with the wrong floating
IP, a machine that nobody asks for, and one of another provider. -/
def sampleMachines : Database where
  rows
    | .blueprint => [⟨1, ⟨[], [], [], [], [⟨"Amazon", "", "1", 0, "us-west-1", [], "", false⟩,
        ⟨"Amazon", "Worker", "3", 0, "us-west-1", ["key"], "5.6.7.8", false⟩], [], "", []⟩⟩]
    | .machine => [{ id := 2, provider := "Amazon", region := "us-west-1", size := "2" },
        { id := 3, provider := "Amazon", region := "us-west-1", size := "3", publicIP := "1.2.3.4",
          role := .worker, connected := true },
        { id := 4, provider := "Google", region := "us-east1-b" }]
    | _ => []
  shouldAlert := fun _ => false
  curID := 4
  nodup := fun tt => by cases tt <;> decide
  bounded := fun tt => by cases tt <;> decide

theorem syncDBWithBlueprint_plan_sample :
    ∃ bpRow res view' M ll lr, sampleMachines.rows .blueprint = [bpRow] ∧
      syncDBWithBlueprint ⟨"Amazon", "us-west-1"⟩ "" (fun _ => MapOrder.reversed) sampleMachines =
        .ok (res, view') ∧
      Plan (desiredMachines ⟨"Amazon", "us-west-1"⟩ "" bpRow.blueprint.machines)
        (selectMachines ⟨"Amazon", "us-west-1"⟩ MapOrder.reversed sampleMachines)
        [{ id := 4, provider := "Google", region := "us-east1-b" }] 4 res
        (view'.rows .machine) M ll lr := by
  obtain ⟨res, view', M, ll, lr, hRun, hPlan, -⟩ := syncDBWithBlueprint_plan
    ⟨"Amazon", "us-west-1"⟩ "" (fun _ => MapOrder.reversed) sampleMachines _ rfl
  exact ⟨_, res, view', M, ll, lr, rfl, hRun, hPlan⟩

end Kelda.Cloud
