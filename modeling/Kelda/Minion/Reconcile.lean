import Kelda.DB.Loops
import Kelda.Join.HashJoin

/-! Reconciling one table with the elements that the policy asks for. The rows
that a hash join pairs are kept or updated, the lonely rows are removed, and a
row is added for each lonely element. -/
namespace Kelda.Minion

open DB Join Database

variable {tt : TableType} {δ κ : Type}

/-- The outcome of a reconciliation: one row for each key that is asked for.
The row of a key comes from a previous row with the key if there was one, and
from a new row otherwise. -/
structure Reconciled (tt : TableType) (lKey : δ → κ) (rKey : RowOf tt → κ)
    (upd fill : δ → RowOf tt → RowOf tt) (wanted : List δ) (before : List (RowOf tt))
    (curID : Nat) (after : List (RowOf tt)) : Prop where
  keys : (after.map rKey).Nodup
  covers : ∀ d ∈ wanted, ∃ r ∈ after, rKey r = lKey d
  origin : ∀ r ∈ after, ∃ d ∈ wanted, rKey r = lKey d ∧
    ((∃ old ∈ before, rKey old = lKey d ∧ r = upd d old) ∨
      ((∀ old ∈ before, rKey old ≠ lKey d) ∧ ∃ id, curID < id ∧ r = fill d (blankRow tt id)))

/-- A table that already is as the policy asks for. -/
structure Settled (tt : TableType) (lKey : δ → κ) (rKey : RowOf tt → κ)
    (upd : δ → RowOf tt → RowOf tt) (wanted : List δ) (rows : List (RowOf tt)) : Prop where
  keys : (rows.map rKey).Nodup
  covers : ∀ d ∈ wanted, ∃ r ∈ rows, rKey r = lKey d
  origin : ∀ r ∈ rows, ∃ d ∈ wanted, rKey r = lKey d
  same : ∀ r ∈ rows, ∀ d ∈ wanted, rKey r = lKey d → upd d r = r

theorem map_freshRows {fill : δ → RowOf tt → RowOf tt} {ε : Type} {f : RowOf tt → ε} {g : δ → ε}
    (h : ∀ d id, f (fill d (blankRow tt id)) = g d) (curID : Nat) (news : List δ) :
    (freshRows tt fill curID news).map f = news.map g := by
  apply List.ext_getElem <;> simp [freshRows, h]

theorem mem_freshRows {fill : δ → RowOf tt → RowOf tt} {curID : Nat} {news : List δ}
    {r : RowOf tt} (h : r ∈ freshRows tt fill curID news) :
    ∃ d ∈ news, ∃ id, curID < id ∧ r = fill d (blankRow tt id) := by
  obtain ⟨k, hk, rfl⟩ := List.mem_mapIdx.mp h
  exact ⟨news[k], List.getElem_mem hk, curID + 1 + k, by omega, rfl⟩

theorem map_freshPairs (upd : δ → RowOf tt → RowOf tt) (curID : Nat) (news : List δ) :
    (freshPairs tt curID news).map (fun p => upd p.L p.R) = freshRows tt upd curID news := by
  apply List.ext_getElem <;> simp [freshPairs, freshRows]

section Outcome

variable {lKey : δ → κ} {rKey : RowOf tt → κ} {upd fill : δ → RowOf tt → RowOf tt}
  {wanted : List δ} {rows before after : List (RowOf tt)} {curID : Nat}
  {res : Result δ (RowOf tt)}

/-- The rows that come from the pairs and from the lonely elements reconcile
the table. -/
theorem Reconciled.of_perm (hJoin : Reconciles wanted rows lKey rKey res)
    (hRows : rows.Perm before) (hUpd : ∀ d r, lKey d = rKey r → rKey (upd d r) = lKey d)
    (hFill : ∀ d id, rKey (fill d (blankRow tt id)) = lKey d)
    (hPerm : after.Perm (res.pairs.map (fun p => upd p.L p.R) ++
      freshRows tt fill curID res.lonelyLefts)) :
    Reconciled tt lKey rKey upd fill wanted before curID after := by
  have hKeys : (after.map rKey).Perm ((res.pairs.map Pair.L ++ res.lonelyLefts).map lKey) := by
    refine (hPerm.map rKey).trans (List.Perm.of_eq ?_)
    rw [List.map_append, List.map_append, map_freshRows hFill, List.map_map, List.map_map]
    congr 1
    exact List.map_congr_left (fun p hp => hUpd p.L p.R (hJoin.sameKey p hp))
  refine ⟨hKeys.nodup_iff.mpr hJoin.leftKeys, ?_, ?_⟩
  · intro d hd
    obtain ⟨d', hd', hEq⟩ := hJoin.covers d hd
    have hMem := hKeys.mem_iff.mpr (List.mem_map_of_mem (f := lKey) hd')
    obtain ⟨r, hr, hKey⟩ := List.mem_map.mp hMem
    exact ⟨r, hr, hKey.trans hEq⟩
  · intro r hr
    rcases List.mem_append.mp (hPerm.mem_iff.mp hr) with hr | hr
    · obtain ⟨p, hp, rfl⟩ := List.mem_map.mp hr
      have hOld : p.R ∈ before :=
        (hJoin.rights.trans hRows).mem_iff.mp (List.mem_append_left _ (List.mem_map_of_mem hp))
      refine ⟨p.L, hJoin.lefts (List.mem_append_left _ (List.mem_map_of_mem hp)),
        hUpd p.L p.R (hJoin.sameKey p hp), Or.inl ⟨p.R, hOld, (hJoin.sameKey p hp).symm, rfl⟩⟩
    · obtain ⟨d, hd, id, hId, rfl⟩ := mem_freshRows hr
      refine ⟨d, hJoin.lefts (List.mem_append_right _ hd), hFill d id, Or.inr ⟨?_, id, hId, rfl⟩⟩
      exact fun old hOld => (hJoin.unmatched d hd old (hRows.mem_iff.mpr hOld)).symm

/-- The counter may have stood lower at an earlier point. -/
theorem Reconciled.of_le {curID' : Nat}
    (h : Reconciled tt lKey rKey upd fill wanted before curID after) (hLe : curID' ≤ curID) :
    Reconciled tt lKey rKey upd fill wanted before curID' after := by
  refine ⟨h.keys, h.covers, fun r hr => ?_⟩
  obtain ⟨d, hd, hKey, hOld | ⟨hNone, id, hId, hNew⟩⟩ := h.origin r hr
  · exact ⟨d, hd, hKey, Or.inl hOld⟩
  · exact ⟨d, hd, hKey, Or.inr ⟨hNone, id, hLe.trans_lt hId, hNew⟩⟩

/-- The one row of an element that no other element shares its key with. -/
theorem Reconciled.exists_row (h : Reconciled tt lKey rKey upd fill wanted before curID after)
    {d : δ} (hd : d ∈ wanted) (hInj : ∀ d' ∈ wanted, lKey d' = lKey d → d' = d) :
    ∃ r ∈ after, (∀ r' ∈ after, rKey r' = lKey d → r' = r) ∧
      ((∃ old ∈ before, rKey old = lKey d ∧ r = upd d old) ∨
        ((∀ old ∈ before, rKey old ≠ lKey d) ∧
          ∃ id, curID < id ∧ r = fill d (blankRow tt id))) := by
  obtain ⟨r, hr, hKey⟩ := h.covers d hd
  obtain ⟨d', hd', hKey', hOrigin⟩ := h.origin r hr
  obtain rfl := hInj d' hd' (hKey'.symm.trans hKey)
  refine ⟨r, hr, fun r' hr' hKey'' => ?_, hOrigin⟩
  exact List.inj_on_of_nodup_map h.keys hr' hr (hKey''.trans hKey.symm)

/-- A settled table leaves nothing to add or to remove. -/
theorem Settled.nothing_lonely (hJoin : Reconciles wanted rows lKey rKey res)
    (h : Settled tt lKey rKey upd wanted rows) : res.lonelyLefts = [] ∧ res.lonelyRights = [] := by
  constructor
  · refine List.eq_nil_iff_forall_not_mem.mpr (fun d hd => ?_)
    obtain ⟨r, hr, hKey⟩ := h.covers d (hJoin.lefts (List.mem_append_right _ hd))
    exact hJoin.unmatched d hd r hr hKey.symm
  · refine List.eq_nil_iff_forall_not_mem.mpr (fun r hr => ?_)
    have hMem : r ∈ rows := hJoin.rights.mem_iff.mp (List.mem_append_right _ hr)
    obtain ⟨d, hd, hKey⟩ := h.origin r hMem
    obtain ⟨p, hp, hSame⟩ := hJoin.taken r hr d hd hKey.symm
    have hNodup : ((res.pairs.map Pair.R).map rKey ++ res.lonelyRights.map rKey).Nodup := by
      rw [← List.map_append]
      exact (hJoin.rights.map rKey).nodup_iff.mpr h.keys
    refine (List.nodup_append'.mp hNodup).2.2 (List.mem_map_of_mem (List.mem_map_of_mem hp)) ?_
    exact hSame ▸ List.mem_map_of_mem hr

theorem Settled.perm {rows' : List (RowOf tt)} (h : Settled tt lKey rKey upd wanted rows)
    (hPerm : rows'.Perm rows) : Settled tt lKey rKey upd wanted rows' where
  keys := (hPerm.map rKey).nodup_iff.mpr h.keys
  covers := fun d hd => by
    obtain ⟨r, hr, hKey⟩ := h.covers d hd
    exact ⟨r, hPerm.mem_iff.mpr hr, hKey⟩
  origin := fun r hr => h.origin r (hPerm.mem_iff.mp hr)
  same := fun r hr => h.same r (hPerm.mem_iff.mp hr)

/-- A reconciled table is settled, for any list of the same elements, if an
update of an updated row changes nothing. -/
theorem Reconciled.settled {wanted' : List δ}
    (h : Reconciled tt lKey rKey upd fill wanted before curID after)
    (hWanted : ∀ d, d ∈ wanted' ↔ d ∈ wanted)
    (hSame : ∀ d ∈ wanted, ∀ d' ∈ wanted, lKey d = lKey d' →
      ∀ r, upd d (upd d' r) = upd d' r ∧ upd d (fill d' r) = fill d' r) :
    Settled tt lKey rKey upd wanted' after where
  keys := h.keys
  covers := fun d hd => h.covers d ((hWanted d).mp hd)
  origin := fun r hr => by
    obtain ⟨d, hd, hKey, -⟩ := h.origin r hr
    exact ⟨d, (hWanted d).mpr hd, hKey⟩
  same := fun r hr d hd hKey => by
    obtain ⟨d', hd', hKey', hOrigin⟩ := h.origin r hr
    have hUpd := hSame d ((hWanted d).mp hd) d' hd' (hKey.symm.trans hKey')
    rcases hOrigin with ⟨old, -, -, rfl⟩ | ⟨-, id, -, rfl⟩
    · exact (hUpd old).1
    · exact (hUpd (blankRow tt id)).2

end Outcome

section Loops

variable (tt) {lKey : δ → κ} {rKey : RowOf tt → κ} {upd : δ → RowOf tt → RowOf tt}
  {wanted : List δ} {rows : List (RowOf tt)} {res : Result δ (RowOf tt)} (view : Database)

/-- Remove the lonely rows, then add rows for the lonely elements. -/
theorem removeAll_addAll_reconciled (fill : δ → RowOf tt → RowOf tt)
    (hJoin : Reconciles wanted rows lKey rKey res) (hRows : rows.Perm (view.rows tt))
    (hID : ∀ d id, getID tt (fill d (blankRow tt id)) = id)
    (hFill : ∀ d id, rKey (fill d (blankRow tt id)) = lKey d) :
    ∃ view', (view.removeAll tt res.lonelyRights).addAll tt fill res.lonelyLefts = .ok view' ∧
      Reconciled tt lKey rKey (fun _ r => r) fill wanted (view.rows tt) view.curID
        (view'.rows tt) ∧ Touches tt view view' := by
  obtain ⟨-, hCur, hTouches⟩ := view.removeAll_spec res.lonelyRights
  have hKept := view.removeAll_perm (hJoin.rights.trans hRows)
  obtain ⟨view', hAdd, hRows', -, hTouches'⟩ :=
    (view.removeAll tt res.lonelyRights).addAll_spec hID res.lonelyLefts
  refine ⟨view', hAdd, Reconciled.of_perm hJoin hRows (fun d r h => h.symm) hFill ?_,
    hTouches.trans hTouches'⟩
  rw [hRows', hCur]
  exact hKept.append_right _

/-- Add rows for the lonely elements, then remove the lonely rows. -/
theorem addAll_removeAll_reconciled (fill : δ → RowOf tt → RowOf tt)
    (hJoin : Reconciles wanted rows lKey rKey res) (hRows : rows.Perm (view.rows tt))
    (hID : ∀ d id, getID tt (fill d (blankRow tt id)) = id)
    (hFill : ∀ d id, rKey (fill d (blankRow tt id)) = lKey d) :
    ∃ view', view.addAll tt fill res.lonelyLefts = .ok view' ∧
      Reconciled tt lKey rKey (fun _ r => r) fill wanted (view.rows tt) view.curID
        ((view'.removeAll tt res.lonelyRights).rows tt) ∧
      Touches tt view (view'.removeAll tt res.lonelyRights) := by
  obtain ⟨view', hAdd, hRows', -, hTouches⟩ := view.addAll_spec hID res.lonelyLefts
  obtain ⟨-, -, hTouches'⟩ := view'.removeAll_spec res.lonelyRights
  refine ⟨view', hAdd, Reconciled.of_perm hJoin hRows (fun d r h => h.symm) hFill ?_,
    hTouches.trans hTouches'⟩
  apply view'.removeAll_perm
  rw [hRows', List.append_assoc]
  refine ((List.perm_append_comm.append_left _).trans ?_)
  rw [← List.append_assoc]
  exact (hJoin.rights.trans hRows).append_right _

/-- Remove the lonely rows, insert a row for each lonely element and commit
every pair. -/
theorem commitAll_reconciled (hJoin : Reconciles wanted rows lKey rKey res)
    (hRows : rows.Perm (view.rows tt)) (hID : ∀ d r, getID tt (upd d r) = getID tt r)
    (hUpd : ∀ d r, rKey (upd d r) = lKey d) :
    ∃ view',
      ((view.removeAll tt res.lonelyRights).insertAll tt res.lonelyLefts).2.commitAll tt upd
        (res.pairs ++ ((view.removeAll tt res.lonelyRights).insertAll tt res.lonelyLefts).1) =
          .ok view' ∧
      Reconciled tt lKey rKey upd upd wanted (view.rows tt) view.curID (view'.rows tt) ∧
      Touches tt view view' := by
  obtain ⟨-, hCur, hTouches⟩ := view.removeAll_spec res.lonelyRights
  have hKept := view.removeAll_perm (hJoin.rights.trans hRows)
  obtain ⟨hPairs, hInserted, -, hTouches'⟩ :=
    (view.removeAll tt res.lonelyRights).insertAll_spec tt res.lonelyLefts
  rw [hCur] at hPairs hInserted
  rw [hPairs]
  have hAll : ([] ++ (res.pairs ++ freshPairs tt view.curID res.lonelyLefts).map Pair.R).Perm
      (((view.removeAll tt res.lonelyRights).insertAll tt res.lonelyLefts).2.rows tt) := by
    rw [hInserted, List.nil_append, List.map_append]
    exact hKept.symm.append_right _
  obtain ⟨view', hCommit, hPerm, -, hTouches''⟩ := commitAll_perm _ hID _ hAll
  refine ⟨view', hCommit, Reconciled.of_perm hJoin hRows (fun d r _ => hUpd d r)
    (fun d id => hUpd d _) ?_, (hTouches.trans hTouches').trans hTouches''⟩
  rw [List.nil_append, List.map_append, map_freshPairs] at hPerm
  exact hPerm

/-- Committing the pairs of a settled table changes nothing. -/
theorem commitAll_settled (hJoin : Reconciles wanted rows lKey rKey res)
    (hRows : rows.Perm (view.rows tt)) (h : Settled tt lKey rKey upd wanted rows) :
    view.commitAll tt upd res.pairs = .ok view := by
  apply view.commitAll_self
  intro p hp
  have hRow : p.R ∈ rows :=
    hJoin.rights.mem_iff.mp (List.mem_append_left _ (List.mem_map_of_mem hp))
  have hWanted : p.L ∈ wanted := hJoin.lefts (List.mem_append_left _ (List.mem_map_of_mem hp))
  rw [h.same p.R hRow p.L hWanted (hJoin.sameKey p hp).symm]
  exact hRows.mem_iff.mp hRow

end Loops

end Kelda.Minion
