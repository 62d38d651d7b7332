import Kelda.DB.Database
import Kelda.Join.Join

/-! Loops of database operations on one table. The reconciliation functions
remove, insert and commit rows one after another; here is what such a loop
leaves in the table, up to the order of the rows. -/
namespace Kelda.DB.Database

open Join (Pair)

variable {tt : TableType} {δ : Type}

/-- Remove the rows one after another. -/
def removeAll (view : Database) (tt : TableType) (olds : List (RowOf tt)) : Database :=
  olds.foldl (fun view r => view.remove tt r) view

theorem removeAll_spec (view : Database) (olds : List (RowOf tt)) :
    (view.removeAll tt olds).rows tt =
        (view.rows tt).filter (fun r => getID tt r ∉ olds.map (getID tt)) ∧
      (view.removeAll tt olds).curID = view.curID ∧ Touches tt view (view.removeAll tt olds) := by
  induction olds generalizing view with
  | nil => exact ⟨by simp [removeAll], rfl, Touches.refl _ _⟩
  | cons r olds ih =>
      obtain ⟨hRows, hCur, hTouches⟩ := view.remove_spec r
      obtain ⟨hRows', hCur', hTouches'⟩ := ih (view.remove tt r)
      refine ⟨?_, hCur'.trans hCur, hTouches.trans hTouches'⟩
      change ((view.remove tt r).removeAll tt olds).rows tt = _
      rw [hRows', hRows, List.filter_filter]
      apply List.filter_congr
      intro old _
      simp only [List.map_cons, List.mem_cons, not_or, ne_eq, Bool.decide_and]
      exact Bool.and_comm _ _

theorem removeAll_perm (view : Database) {keep olds : List (RowOf tt)}
    (h : (keep ++ olds).Perm (view.rows tt)) : ((view.removeAll tt olds).rows tt).Perm keep := by
  rw [(view.removeAll_spec olds).1]
  exact List.filter_notMem_perm (view.nodup tt) h

/-- Add one row for each element, with the fields filled in from the element. -/
def addAll (view : Database) (tt : TableType) (fill : δ → RowOf tt → RowOf tt) (news : List δ) :
    Except String Database :=
  news.foldlM (fun view d => view.addRow tt (fill d)) view

/-- The rows that are added for the elements when the counter stands at `curID`. -/
def freshRows (tt : TableType) (fill : δ → RowOf tt → RowOf tt) (curID : Nat) (news : List δ) :
    List (RowOf tt) :=
  news.mapIdx (fun k d => fill d (blankRow tt (curID + 1 + k)))

theorem freshRows_cons (fill : δ → RowOf tt → RowOf tt) (curID : Nat) (d : δ) (news : List δ) :
    freshRows tt fill curID (d :: news) =
      fill d (blankRow tt (curID + 1)) :: freshRows tt fill (curID + 1) news := by
  simp only [freshRows, List.mapIdx_cons, Nat.add_zero]
  congr 2
  funext k d'
  rw [show curID + 1 + (k + 1) = curID + 1 + 1 + k by omega]

theorem addAll_spec (view : Database) {fill : δ → RowOf tt → RowOf tt}
    (hFill : ∀ d id, getID tt (fill d (blankRow tt id)) = id) (news : List δ) :
    ∃ view', view.addAll tt fill news = .ok view' ∧
      view'.rows tt = view.rows tt ++ freshRows tt fill view.curID news ∧
      view'.curID = view.curID + news.length ∧ Touches tt view view' := by
  induction news generalizing view with
  | nil => exact ⟨view, rfl, by simp [freshRows], rfl, Touches.refl _ _⟩
  | cons d news ih =>
      obtain ⟨mid, hAdd, hRows, hCur, hTouches⟩ := view.addRow_spec (hFill d (view.curID + 1))
      obtain ⟨view', hAll, hRows', hCur', hTouches'⟩ := ih mid
      refine ⟨view', ?_, ?_, ?_, hTouches.trans hTouches'⟩
      · rw [addAll, List.foldlM_cons, hAdd]
        exact hAll
      · rw [hRows', hRows, hCur, freshRows_cons, List.append_assoc, List.singleton_append]
      · rw [hCur', hCur, List.length_cons]
        omega

/-- Insert one zero row for each element and pair it with the element. -/
def insertAll (view : Database) (tt : TableType) :
    List δ → List (Pair δ (RowOf tt)) × Database
  | [] => ([], view)
  | d :: news =>
    let (r, view) := view.insert tt
    let (rest, view) := view.insertAll tt news
    (⟨d, r⟩ :: rest, view)

/-- The pairs made by `insertAll` when the counter stands at `curID`. -/
def freshPairs (tt : TableType) (curID : Nat) (news : List δ) : List (Pair δ (RowOf tt)) :=
  news.mapIdx (fun k d => ⟨d, blankRow tt (curID + 1 + k)⟩)

theorem freshPairs_cons (curID : Nat) (d : δ) (news : List δ) :
    freshPairs tt curID (d :: news) =
      ⟨d, blankRow tt (curID + 1)⟩ :: freshPairs tt (curID + 1) news := by
  simp only [freshPairs, List.mapIdx_cons, Nat.add_zero]
  congr 2
  funext k d'
  rw [show curID + 1 + (k + 1) = curID + 1 + 1 + k by omega]

theorem insertAll_spec (view : Database) (tt : TableType) (news : List δ) :
    (view.insertAll tt news).1 = freshPairs tt view.curID news ∧
      (view.insertAll tt news).2.rows tt =
        view.rows tt ++ (freshPairs tt view.curID news).map Pair.R ∧
      (view.insertAll tt news).2.curID = view.curID + news.length ∧
      Touches tt view (view.insertAll tt news).2 := by
  induction news generalizing view with
  | nil => exact ⟨rfl, by simp [insertAll, freshPairs], rfl, Touches.refl _ _⟩
  | cons d news ih =>
      obtain ⟨hRow, hRows, hCur, hTouches⟩ := view.insert_spec tt
      obtain ⟨hPairs, hRows', hCur', hTouches'⟩ := ih (view.insert tt).2
      refine ⟨?_, ?_, ?_, hTouches.trans hTouches'⟩
      · rw [freshPairs_cons, ← hRow, ← hCur, ← hPairs]
        rfl
      · change ((view.insert tt).2.insertAll tt news).2.rows tt = _
        rw [hRows', hRows, hCur, freshPairs_cons, List.map_cons, List.append_assoc,
          List.singleton_append]
      · change ((view.insert tt).2.insertAll tt news).2.curID = _
        rw [hCur', hCur, List.length_cons]
        omega

/-- Commit, for each pair, the row as updated from the element. -/
def commitAll (view : Database) (tt : TableType) (upd : δ → RowOf tt → RowOf tt)
    (pairs : List (Pair δ (RowOf tt))) : Except String Database :=
  pairs.foldlM (fun view p => view.commit tt (upd p.L p.R)) view

theorem replaceRow_perm {r : RowOf tt} {rs rs' : List (RowOf tt)} (h : rs.Perm rs') :
    (replaceRow tt r rs).Perm (replaceRow tt r rs') := h.map _

theorem replaceRow_of_notMem {r : RowOf tt} {rs : List (RowOf tt)}
    (h : getID tt r ∉ rs.map (getID tt)) : replaceRow tt r rs = rs := by
  conv_rhs => rw [← List.map_id rs]
  apply List.map_congr_left
  intro old hOld
  exact if_neg (fun hEq : getID tt old = getID tt r => h (hEq ▸ List.mem_map_of_mem hOld))

theorem replaceRow_append_cons {r old : RowOf tt} {before after : List (RowOf tt)}
    (hOld : getID tt old = getID tt r)
    (hNodup : ((before ++ old :: after).map (getID tt)).Nodup) :
    replaceRow tt r (before ++ old :: after) = before ++ r :: after := by
  rw [List.map_append, List.map_cons, List.nodup_append', List.nodup_cons] at hNodup
  obtain ⟨-, ⟨hAfter, -⟩, hBefore⟩ := hNodup
  have hFirst : replaceRow tt r before = before :=
    replaceRow_of_notMem (fun hm => hBefore hm (hOld ▸ List.mem_cons_self ..))
  have hLast : replaceRow tt r after = after := replaceRow_of_notMem (hOld ▸ hAfter)
  rw [replaceRow, List.map_append, List.map_cons, if_pos hOld]
  exact congrArg₂ (· ++ r :: ·) hFirst hLast

/-- If the rows of the table are those of the pairs, every commit succeeds and
every row is replaced by its update. The first rows have been updated already. -/
theorem commitAll_perm (view : Database) {upd : δ → RowOf tt → RowOf tt}
    (hUpd : ∀ d r, getID tt (upd d r) = getID tt r) {done : List (RowOf tt)}
    (pairs : List (Pair δ (RowOf tt))) (h : (done ++ pairs.map Pair.R).Perm (view.rows tt)) :
    ∃ view', view.commitAll tt upd pairs = .ok view' ∧
      (view'.rows tt).Perm (done ++ pairs.map (fun p => upd p.L p.R)) ∧
      view'.curID = view.curID ∧ Touches tt view view' := by
  induction pairs generalizing view done with
  | nil => exact ⟨view, rfl, by simpa using h.symm, rfl, Touches.refl _ _⟩
  | cons p pairs ih =>
      have hMem : p.R ∈ view.rows tt := h.mem_iff.mp (by simp)
      obtain ⟨mid, hCommit, hRows, hCur, hTouches⟩ :=
        view.commit_spec (r := upd p.L p.R) hMem (hUpd p.L p.R).symm
      have hNodup : ((done ++ p.R :: pairs.map Pair.R).map (getID tt)).Nodup :=
        (h.map _).nodup_iff.mpr (view.nodup tt)
      have hMid : (done ++ [upd p.L p.R] ++ pairs.map Pair.R).Perm (mid.rows tt) := by
        rw [hRows, List.append_assoc, List.singleton_append,
          ← replaceRow_append_cons (hUpd p.L p.R).symm hNodup]
        exact replaceRow_perm h
      obtain ⟨view', hAll, hPerm, hCur', hTouches'⟩ := ih mid hMid
      refine ⟨view', ?_, ?_, hCur'.trans hCur, hTouches.trans hTouches'⟩
      · rw [commitAll, List.foldlM_cons, hCommit]
        exact hAll
      · simpa using hPerm

/-- Commit each row as updated. -/
def commitEach (view : Database) (tt : TableType) (upd : RowOf tt → RowOf tt)
    (rs : List (RowOf tt)) : Except String Database :=
  rs.foldlM (fun view r => view.commit tt (upd r)) view

theorem commitEach_perm (view : Database) {upd : RowOf tt → RowOf tt}
    (hUpd : ∀ r, getID tt (upd r) = getID tt r) {done : List (RowOf tt)} (rs : List (RowOf tt))
    (h : (done ++ rs).Perm (view.rows tt)) :
    ∃ view', view.commitEach tt upd rs = .ok view' ∧
      (view'.rows tt).Perm (done ++ rs.map upd) ∧
      view'.curID = view.curID ∧ Touches tt view view' := by
  have hRights : (rs.map (fun r => (⟨(), r⟩ : Pair Unit (RowOf tt)))).map Pair.R = rs := by
    rw [List.map_map]
    exact List.map_id rs
  obtain ⟨view', hCommit, hPerm, hRest⟩ := view.commitAll_perm (fun (_ : Unit) r => hUpd r)
    (rs.map (fun r => (⟨(), r⟩ : Pair Unit (RowOf tt)))) (hRights.symm ▸ h)
  refine ⟨view', ?_, ?_, hRest⟩
  · rw [commitAll, List.foldlM_map] at hCommit
    exact hCommit
  · rw [List.map_map] at hPerm
    exact hPerm

/-- Committing stored rows again changes nothing. -/
theorem commitAll_self (view : Database) {upd : δ → RowOf tt → RowOf tt}
    (pairs : List (Pair δ (RowOf tt))) (h : ∀ p ∈ pairs, upd p.L p.R ∈ view.rows tt) :
    view.commitAll tt upd pairs = .ok view := by
  induction pairs with
  | nil => rfl
  | cons p pairs ih =>
      rw [commitAll, List.foldlM_cons, view.commit_self (h p (List.mem_cons_self ..))]
      exact ih (fun q hq => h q (List.mem_cons_of_mem _ hq))

section Writes

/-- What a sequence of operations on one table does at most: other tables are not
touched, and a row has the ID of an earlier row or a fresh one. -/
structure Writes (tt : TableType) (before after : Database) : Prop where
  touches : Touches tt before after
  ids : ∀ r ∈ after.rows tt,
    (∃ old ∈ before.rows tt, getID tt old = getID tt r) ∨ before.curID < getID tt r

theorem Writes.refl (tt : TableType) (view : Database) : Writes tt view view :=
  ⟨Touches.refl tt view, fun r hr => Or.inl ⟨r, hr, rfl⟩⟩

theorem Writes.trans {first second third : Database} (h : Writes tt first second)
    (h' : Writes tt second third) : Writes tt first third := by
  refine ⟨h.touches.trans h'.touches, fun r hr => ?_⟩
  rcases h'.ids r hr with ⟨old, hOld, hID⟩ | hFresh
  · rw [← hID]
    exact h.ids old hOld
  · exact Or.inr (h.touches.curID.trans_lt hFresh)

/-- Without a new ID every row replaces an earlier one. -/
theorem Writes.exists_old {before after : Database} (h : Writes tt before after)
    (hCur : after.curID = before.curID) {r : RowOf tt} (hr : r ∈ after.rows tt) :
    ∃ old ∈ before.rows tt, getID tt old = getID tt r := by
  rcases h.ids r hr with hOld | hFresh
  · exact hOld
  · have := after.bounded tt r hr
    omega

theorem insert_writes (view : Database) (tt : TableType) : Writes tt view (view.insert tt).2 := by
  obtain ⟨-, hRows, -, hTouches⟩ := view.insert_spec tt
  refine ⟨hTouches, fun r hr => ?_⟩
  rw [hRows] at hr
  rcases List.mem_append.mp hr with hr | hr
  · exact Or.inl ⟨r, hr, rfl⟩
  · rw [List.mem_singleton.mp hr, getID_blankRow]
    exact Or.inr (Nat.lt_succ_self _)

theorem remove_writes (view : Database) (r : RowOf tt) : Writes tt view (view.remove tt r) := by
  obtain ⟨hRows, -, hTouches⟩ := view.remove_spec r
  refine ⟨hTouches, fun r' hr' => Or.inl ⟨r', ?_, rfl⟩⟩
  rw [hRows] at hr'
  exact List.mem_of_mem_filter hr'

/-- A commit that succeeds has found its row. -/
theorem commit_found {view view' : Database} {r : RowOf tt} (h : view.commit tt r = .ok view') :
    ∃ old ∈ view.rows tt, getID tt old = getID tt r := by
  cases hFind : (view.rows tt).find? (fun old => getID tt old = getID tt r) with
  | none =>
      rw [commit, hFind] at h
      cases h
  | some old =>
      exact ⟨old, List.mem_of_find?_eq_some hFind, by simpa using List.find?_some hFind⟩

theorem commit_writes {view view' : Database} {r : RowOf tt} (h : view.commit tt r = .ok view') :
    Writes tt view view' ∧ view'.curID = view.curID := by
  obtain ⟨old, hOld, hID⟩ := commit_found h
  obtain ⟨view'', hCommit, hRows, hCur, hTouches⟩ := view.commit_spec hOld hID
  obtain rfl : view' = view'' := Except.ok.inj (h.symm.trans hCommit)
  refine ⟨⟨hTouches, fun r' hr' => Or.inl ?_⟩, hCur⟩
  have hMem : getID tt r' ∈ (view'.rows tt).map (getID tt) := List.mem_map_of_mem hr'
  rw [hRows, map_getID_replaceRow] at hMem
  obtain ⟨old', hOld', hID'⟩ := List.mem_map.mp hMem
  exact ⟨old', hOld', hID'⟩

/-- A loop whose steps write to one table writes to this table. -/
theorem foldlM_writes {δ σ : Type} {step : σ → δ → Except String σ} {db : σ → Database}
    (hStep : ∀ s d s', step s d = .ok s' → Writes tt (db s) (db s')) (ds : List δ) {s s' : σ}
    (h : ds.foldlM step s = .ok s') : Writes tt (db s) (db s') := by
  induction ds generalizing s with
  | nil =>
      obtain rfl : s = s' := Except.ok.inj h
      exact Writes.refl tt _
  | cons d ds ih =>
      rw [List.foldlM_cons] at h
      obtain ⟨mid, hFirst, hRest⟩ := Except.exists_of_bind_eq_ok h
      exact (hStep s d mid hFirst).trans (ih hRest)

theorem removeAll_writes (view : Database) (olds : List (RowOf tt)) :
    Writes tt view (view.removeAll tt olds) := by
  induction olds generalizing view with
  | nil => exact Writes.refl tt view
  | cons r olds ih => exact (view.remove_writes r).trans (ih (view.remove tt r))

theorem insertAll_writes (view : Database) (tt : TableType) (news : List δ) :
    Writes tt view (view.insertAll tt news).2 := by
  induction news generalizing view with
  | nil => exact Writes.refl tt view
  | cons d news ih => exact (view.insert_writes tt).trans (ih (view.insert tt).2)

end Writes

end Kelda.DB.Database
