import Mathlib.Logic.Function.Basic
import Kelda.DB.Rows
import Kelda.Lib.HashMap

/-! The tables of the database and the operations of a transaction on them. A
table is a map from IDs to rows; it is kept as the list of its rows, and every
read walks it in an order that the runtime chooses. The alert flags are kept
because Commit reads them. -/
namespace Kelda.DB

/-- The database. The rows of a table have distinct IDs, all of them handed
out by the counter. -/
structure Database where
  rows : (tt : TableType) → List (RowOf tt)
  shouldAlert : TableType → Bool
  curID : Nat
  nodup : ∀ tt, ((rows tt).map (getID tt)).Nodup
  bounded : ∀ tt, ∀ r ∈ rows tt, getID tt r ≤ curID

namespace Database

/-- The database created by New, with ten empty tables. -/
def empty : Database where
  rows := fun _ => []
  shouldAlert := fun _ => false
  curID := 0
  nodup := fun _ => List.nodup_nil
  bounded := by simp

variable (view : Database) {tt : TableType}

/-- Replace the rows of one table, given that they are still well formed, and
raise its flag. -/
def setRows (tt : TableType) (rs : List (RowOf tt)) (curID : Nat)
    (hNodup : (rs.map (getID tt)).Nodup) (hBounded : ∀ r ∈ rs, getID tt r ≤ curID)
    (hCur : view.curID ≤ curID) : Database where
  rows := Function.update view.rows tt rs
  shouldAlert := Function.update view.shouldAlert tt true
  curID := curID
  nodup := by
    intro tt'
    by_cases h : tt' = tt
    · subst h
      simpa using hNodup
    · simpa [h] using view.nodup tt'
  bounded := by
    intro tt' r hr
    by_cases h : tt' = tt
    · subst h
      exact hBounded r (by simpa using hr)
    · exact (view.bounded tt' r (by simpa [h] using hr)).trans hCur

/-- The SelectFrom functions; a nil check of the source accepts every row. -/
def select (ord : MapOrder) (tt : TableType) (check : RowOf tt → Bool) : List (RowOf tt) :=
  (ord.walk (view.rows tt)).filter check

def selectAll (ord : MapOrder) (tt : TableType) : List (RowOf tt) :=
  view.select ord tt (fun _ => true)

/-- The Insert functions: a zero row with the next ID. -/
def insert (tt : TableType) : RowOf tt × Database :=
  (blankRow tt (view.curID + 1),
    view.setRows tt (view.rows tt ++ [blankRow tt (view.curID + 1)]) (view.curID + 1)
      (by
        rw [List.map_append, List.map_singleton, getID_blankRow]
        refine List.nodup_append'.mpr ⟨view.nodup tt, List.nodup_singleton _, ?_⟩
        intro id hid hNew
        obtain ⟨r, hr, rfl⟩ := List.mem_map.mp hid
        have := view.bounded tt r hr
        have := List.mem_singleton.mp hNew
        omega)
      (by
        intro r hr
        rcases List.mem_append.mp hr with hr | hr
        · exact (view.bounded tt r hr).trans (Nat.le_succ _)
        · simp [List.mem_singleton.mp hr])
      (Nat.le_succ _))

/-- Put a row in the place of the stored row with the same ID. -/
def replaceRow (tt : TableType) (r : RowOf tt) (rs : List (RowOf tt)) : List (RowOf tt) :=
  rs.map (fun old => if getID tt old = getID tt r then r else old)

theorem map_getID_replaceRow (r : RowOf tt) (rs : List (RowOf tt)) :
    (replaceRow tt r rs).map (getID tt) = rs.map (getID tt) := by
  rw [replaceRow, List.map_map]
  apply List.map_congr_left
  intro old _
  by_cases h : getID tt old = getID tt r <;> simp [h]

/-- Commit panics on a row whose ID is not stored. An equal row is not written
unless the table has already been changed. -/
def commit (tt : TableType) (r : RowOf tt) : Except String Database :=
  match (view.rows tt).find? (fun old => getID tt old = getID tt r) with
  | none => .error "Type Error"
  | some old =>
    if view.shouldAlert tt ∨ r ≠ old then
      .ok (view.setRows tt (replaceRow tt r (view.rows tt)) view.curID
        (by
          rw [map_getID_replaceRow]
          exact view.nodup tt)
        (by
          intro r' hr'
          have hMem : getID tt r' ∈ (replaceRow tt r (view.rows tt)).map (getID tt) :=
            List.mem_map_of_mem hr'
          rw [map_getID_replaceRow] at hMem
          obtain ⟨old, hOld, hEq⟩ := List.mem_map.mp hMem
          exact hEq ▸ view.bounded tt old hOld)
        (Nat.le_refl _))
    else .ok view

/-- Remove deletes the stored row with the ID of the given one, if any. -/
def remove (tt : TableType) (r : RowOf tt) : Database :=
  view.setRows tt ((view.rows tt).filter (fun old => getID tt old ≠ getID tt r)) view.curID
    ((view.nodup tt).sublist (List.filter_sublist.map _))
    (fun r' hr' => view.bounded tt r' (List.mem_of_mem_filter hr'))
    (Nat.le_refl _)

/-- Insert a row and commit it with its fields filled in. -/
def addRow (tt : TableType) (fill : RowOf tt → RowOf tt) : Except String Database :=
  (view.insert tt).2.commit tt (fill (view.insert tt).1)

@[simp] theorem mem_select {ord : MapOrder} {check : RowOf tt → Bool} {r : RowOf tt} :
    r ∈ view.select ord tt check ↔ r ∈ view.rows tt ∧ check r := by
  simp [select]

theorem selectAll_perm (ord : MapOrder) (tt : TableType) :
    (view.selectAll ord tt).Perm (view.rows tt) := by
  simpa [selectAll, select] using ord.perm (view.rows tt)

@[simp] theorem mem_selectAll {ord : MapOrder} {r : RowOf tt} :
    r ∈ view.selectAll ord tt ↔ r ∈ view.rows tt :=
  (view.selectAll_perm ord tt).mem_iff

theorem selectAll_single {r : RowOf tt} (h : view.rows tt = [r]) (ord : MapOrder) :
    view.selectAll ord tt = [r] :=
  List.perm_singleton.mp (h ▸ view.selectAll_perm ord tt)

theorem selectAll_none (h : view.rows tt = []) (ord : MapOrder) : view.selectAll ord tt = [] :=
  List.perm_nil.mp (h ▸ view.selectAll_perm ord tt)

/-- The rows are visited in any order. -/
theorem exists_selectAll_eq {visited : List (RowOf tt)} (h : (view.rows tt).Perm visited) :
    ∃ ord, view.selectAll ord tt = visited := by
  obtain ⟨ord, hWalk⟩ := MapOrder.exists_walk_eq h
  exact ⟨ord, by rw [selectAll, select, hWalk, List.filter_eq_self.mpr (fun _ _ => rfl)]⟩

theorem eq_of_getID_eq {r r' : RowOf tt} (hr : r ∈ view.rows tt) (hr' : r' ∈ view.rows tt)
    (h : getID tt r = getID tt r') : r = r' :=
  List.inj_on_of_nodup_map (view.nodup tt) hr hr' h

@[ext] theorem ext {first second : Database} (hRows : first.rows = second.rows)
    (hAlert : first.shouldAlert = second.shouldAlert) (hCur : first.curID = second.curID) :
    first = second := by
  cases first
  cases second
  simp_all

/-- A change of one table. IDs are only ever handed out in increasing order. -/
structure Touches (tt : TableType) (before after : Database) : Prop where
  rows : ∀ tt', tt' ≠ tt → after.rows tt' = before.rows tt'
  curID : before.curID ≤ after.curID

theorem Touches.refl (tt : TableType) (view : Database) : Touches tt view view :=
  ⟨fun _ _ => rfl, Nat.le_refl _⟩

theorem Touches.trans {first second third : Database} (h : Touches tt first second)
    (h' : Touches tt second third) : Touches tt first third :=
  ⟨fun tt' hne => (h'.rows tt' hne).trans (h.rows tt' hne), h.curID.trans h'.curID⟩

theorem raise_shouldAlert {tt tt' : TableType}
    (h : Function.update view.shouldAlert tt true tt' = true) :
    view.shouldAlert tt' = true ∨ tt' = tt := by
  by_cases hTT : tt' = tt
  · exact Or.inr hTT
  · exact Or.inl (by simpa [hTT] using h)

theorem insert_spec (tt : TableType) :
    (view.insert tt).1 = blankRow tt (view.curID + 1) ∧
      (view.insert tt).2.rows tt = view.rows tt ++ [blankRow tt (view.curID + 1)] ∧
      (view.insert tt).2.curID = view.curID + 1 ∧ Touches tt view (view.insert tt).2 :=
  ⟨rfl, by simp [insert, setRows], rfl, fun tt' h => by simp [insert, setRows, h],
    Nat.le_succ _⟩

theorem replaceRow_self {r : RowOf tt} {rs : List (RowOf tt)}
    (hNodup : (rs.map (getID tt)).Nodup) (hr : r ∈ rs) : replaceRow tt r rs = rs := by
  conv_rhs => rw [← List.map_id rs]
  apply List.map_congr_left
  intro old hOld
  split_ifs with h
  · exact (List.inj_on_of_nodup_map hNodup hOld hr h).symm
  · rfl

theorem find?_getID {r old : RowOf tt} (hOld : old ∈ view.rows tt)
    (h : getID tt old = getID tt r) :
    (view.rows tt).find? (fun old => getID tt old = getID tt r) = some old := by
  cases hFind : (view.rows tt).find? (fun old => getID tt old = getID tt r) with
  | none => exact absurd h (by simpa using List.find?_eq_none.mp hFind old hOld)
  | some other =>
      have hOther : getID tt other = getID tt r := by simpa using List.find?_some hFind
      rw [view.eq_of_getID_eq (List.mem_of_find?_eq_some hFind) hOld (hOther.trans h.symm)]

/-- A commit raises the flag of its table if the row is not the stored one, and
no other flag. -/
theorem commit_flags {r : RowOf tt} {view' : Database} (hCommit : view.commit tt r = .ok view')
    (tt' : TableType) :
    view'.shouldAlert tt' = true ↔
      view.shouldAlert tt' = true ∨ (tt' = tt ∧ r ∉ view.rows tt) := by
  rw [commit] at hCommit
  split at hCommit
  · cases hCommit
  · next old hFind =>
      have hOld := List.mem_of_find?_eq_some hFind
      have hSame : r ∈ view.rows tt ↔ r = old := by
        constructor
        · intro hr
          rw [view.find?_getID hr rfl] at hFind
          exact Option.some.inj hFind
        · rintro rfl
          exact hOld
      rw [hSame]
      split_ifs at hCommit with hWrite
      · cases hCommit
        by_cases hTT : tt' = tt
        · subst hTT
          simpa [setRows] using hWrite
        · simp [setRows, hTT]
      · cases hCommit
        rw [not_or, not_not] at hWrite
        simp [hWrite.2]

/-- Committing over a stored row succeeds and replaces exactly that row. -/
theorem commit_spec {r old : RowOf tt} (hOld : old ∈ view.rows tt)
    (h : getID tt old = getID tt r) :
    ∃ view', view.commit tt r = .ok view' ∧ view'.rows tt = replaceRow tt r (view.rows tt) ∧
      view'.curID = view.curID ∧ Touches tt view view' := by
  rw [commit, view.find?_getID hOld h]
  dsimp only
  split_ifs with hWrite
  · exact ⟨_, rfl, by simp [setRows], rfl, fun tt' hne => by simp [setRows, hne], Nat.le_refl _⟩
  · have hSame : r = old := by
      by_contra hne
      exact hWrite (Or.inr hne)
    subst hSame
    exact ⟨view, rfl, (replaceRow_self (view.nodup tt) hOld).symm, rfl, Touches.refl _ _⟩

/-- Committing a stored row again changes nothing, not even the alert flag. -/
theorem commit_self {r : RowOf tt} (hr : r ∈ view.rows tt) : view.commit tt r = .ok view := by
  rw [commit, view.find?_getID hr rfl]
  dsimp only
  split_ifs with hWrite
  · have hAlert : view.shouldAlert tt = true := hWrite.resolve_right (fun h => h rfl)
    congr 1
    ext1
    · simp [setRows, replaceRow_self (view.nodup tt) hr]
    · simp [setRows, ← hAlert]
    · rfl
  · rfl

theorem remove_spec (r : RowOf tt) :
    (view.remove tt r).rows tt = (view.rows tt).filter (fun old => getID tt old ≠ getID tt r) ∧
      (view.remove tt r).curID = view.curID ∧ Touches tt view (view.remove tt r) :=
  ⟨by simp [remove, setRows], rfl, fun tt' h => by simp [remove, setRows, h], Nat.le_refl _⟩

theorem addRow_spec {fill : RowOf tt → RowOf tt}
    (hFill : getID tt (fill (blankRow tt (view.curID + 1))) = view.curID + 1) :
    ∃ view', view.addRow tt fill = .ok view' ∧
      view'.rows tt = view.rows tt ++ [fill (blankRow tt (view.curID + 1))] ∧
      view'.curID = view.curID + 1 ∧ Touches tt view view' := by
  obtain ⟨hRow, hRows, hCur, hTouches⟩ := view.insert_spec tt
  have hMem : (view.insert tt).1 ∈ (view.insert tt).2.rows tt := by simp [hRows, hRow]
  obtain ⟨view', hCommit, hRows', hCur', hTouches'⟩ := (view.insert tt).2.commit_spec
    (r := fill (view.insert tt).1) hMem (by rw [hRow, hFill, getID_blankRow])
  refine ⟨view', hCommit, ?_, hCur'.trans hCur, hTouches.trans hTouches'⟩
  rw [hRows', hRows, hRow, replaceRow, List.map_append, List.map_singleton, getID_blankRow, hFill,
    if_pos rfl]
  congr 1
  conv_rhs => rw [← List.map_id (view.rows tt)]
  apply List.map_congr_left
  intro old hOld
  have hLe := view.bounded tt old hOld
  exact if_neg (by omega)

end Database

/-- The single blueprint. The inner error is returned to the caller; several
blueprints are a panic. -/
def getBlueprint (ord : MapOrder) (view : Database) : Except String (Except String BlueprintRow) :=
  match view.selectAll ord .blueprint with
  | [bp] => .ok (.ok bp)
  | [] => .ok (.error "no blueprints found")
  | bps => .error s!"Found {bps.length} blueprints, there should be 1"

section Blueprint

variable {ord : MapOrder} {view : Database}

theorem getBlueprint_single {bp : BlueprintRow} (h : view.rows .blueprint = [bp]) :
    getBlueprint ord view = .ok (.ok bp) := by
  rw [getBlueprint, view.selectAll_single h]

theorem getBlueprint_none (h : view.rows .blueprint = []) :
    getBlueprint ord view = .ok (.error "no blueprints found") := by
  rw [getBlueprint, view.selectAll_none h]

theorem rows_of_getBlueprint {bp : BlueprintRow} (h : getBlueprint ord view = .ok (.ok bp)) :
    view.rows .blueprint = [bp] := by
  rw [getBlueprint] at h
  split at h
  · next hRows =>
      cases h
      exact List.perm_singleton.mp (hRows ▸ (view.selectAll_perm ord .blueprint).symm)
  · cases h
  · cases h

theorem rows_of_getBlueprint_error {err : String} (h : getBlueprint ord view = .ok (.error err)) :
    view.rows .blueprint = [] := by
  rw [getBlueprint] at h
  split at h
  · cases h
  · next hRows => exact List.perm_nil.mp (hRows ▸ (view.selectAll_perm ord .blueprint).symm)
  · cases h

end Blueprint

/-- The row of the state of etcd. Having several is a panic. -/
def getEtcd (ord : MapOrder) (view : Database) : Except String (Except String Etcd) :=
  match view.selectAll ord .etcd with
  | [] => .ok (.error "no etcd row")
  | [etcd] => .ok (.ok etcd)
  | _ => .error "multiple etcd rows"

section Etcd

variable {ord : MapOrder} {view : Database}

theorem getEtcd_single {etcd : Etcd} (h : view.rows .etcd = [etcd]) :
    getEtcd ord view = .ok (.ok etcd) := by
  rw [getEtcd, view.selectAll_single h]

theorem getEtcd_none (h : view.rows .etcd = []) :
    getEtcd ord view = .ok (.error "no etcd row") := by
  rw [getEtcd, view.selectAll_none h]

theorem rows_of_getEtcd {etcd : Etcd} (h : getEtcd ord view = .ok (.ok etcd)) :
    view.rows .etcd = [etcd] := by
  rw [getEtcd] at h
  split at h
  · cases h
  · next hRows =>
      cases h
      exact List.perm_singleton.mp (hRows ▸ (view.selectAll_perm ord .etcd).symm)
  · cases h

theorem rows_of_getEtcd_error {err : String} (h : getEtcd ord view = .ok (.error err)) :
    view.rows .etcd = [] := by
  rw [getEtcd] at h
  split at h
  · next hRows => exact List.perm_nil.mp (hRows ▸ (view.selectAll_perm ord .etcd).symm)
  · cases h
  · cases h

end Etcd

/-- The row of the running minion. Having none or several is a panic. -/
def minionSelf (ord : MapOrder) (view : Database) : Except String Minion :=
  match view.select ord .minion Minion.self with
  | [m] => .ok m
  | [] => .error "no minion labeled Self"
  | _ => .error "multiple minions labeled Self"

theorem minionSelf_mem {ord : MapOrder} {view : Database} {m : Minion}
    (h : minionSelf ord view = .ok m) : m ∈ view.rows .minion ∧ m.self = true := by
  have hMem : m ∈ view.select ord .minion Minion.self := by
    rw [minionSelf] at h
    split at h
    · next hRows =>
        cases h
        rw [hRows]
        exact List.mem_singleton_self _
    · cases h
    · cases h
  exact view.mem_select.mp hMem

theorem minionSelf_eq_ok_iff {ord : MapOrder} {view : Database} {m : Minion} :
    minionSelf ord view = .ok m ↔ (view.rows .minion).filter Minion.self = [m] := by
  have hPerm : (view.select ord .minion Minion.self).Perm
      ((view.rows .minion).filter Minion.self) := (ord.perm _).filter _
  rw [← List.perm_singleton, ← hPerm.congr_left, List.perm_singleton, minionSelf]
  split
  · next hRows => simp [hRows]
  · next hRows => simp [hRows]
  · next hOne hNone =>
      simp only [reduceCtorEq, false_iff]
      exact hOne m

end Kelda.DB
