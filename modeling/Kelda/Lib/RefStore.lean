import Mathlib.Data.Fintype.Basic
import Kelda.Lib.UuidTable

/-! A database whose rows refer to each other by identifiers. Rows of some tables,
the parts, hang on rows of others, the holders: a holder has a column of references
for each kind of parts. Rows of tables that are not roots of the schema are
collected if nothing refers to them. -/
namespace RefStore

open UuidTable

variable {Part Holder : Type}

/-- The kinds of parts, with the rows of their tables and the holders they hang on. -/
structure Schema (Part Holder : Type) where
  Row : Part → Type
  holder : Part → Holder
  isRoot : Part → Bool
  /-- The value of the indexed column, for tables that have one. -/
  index : (p : Part) → Row p → Option String

/-- A holder has a name and refers to parts by their identifiers. -/
structure HolderRow (Part : Type) where
  name : String
  refs : Part → Finset Nat

section HolderRow

variable [DecidableEq Part]

/-- Change the references to parts of one kind, if the row has the name. -/
def HolderRow.setRef (p : Part) (owner : String) (set : Finset Nat → Finset Nat)
    (r : HolderRow Part) : HolderRow Part :=
  if r.name = owner then { r with refs := Function.update r.refs p (set (r.refs p)) } else r

variable {p : Part} {owner : String} {set : Finset Nat → Finset Nat} {r : HolderRow Part}

@[simp] theorem HolderRow.setRef_name : (r.setRef p owner set).name = r.name := by
  rw [setRef]
  split_ifs <;> rfl

theorem HolderRow.setRef_refs_ne {q : Part} (h : q ≠ p) :
    (r.setRef p owner set).refs q = r.refs q := by
  rw [setRef]
  split_ifs
  · exact Function.update_of_ne h _ _
  · rfl

theorem HolderRow.setRef_refs_same (h : r.name = owner) :
    (r.setRef p owner set).refs p = set (r.refs p) := by
  rw [setRef, if_pos h]
  exact Function.update_self ..

theorem HolderRow.setRef_of_ne (h : r.name ≠ owner) : r.setRef p owner set = r := if_neg h

end HolderRow

/-- The tables of a database. -/
structure Store (S : Schema Part Holder) where
  holders : Holder → Table (HolderRow Part)
  parts : (p : Part) → Table (S.Row p)

variable {S : Schema Part Holder}

namespace Store

/-- There is a holder of the name. -/
def HasHolder (st : Store S) (h : Holder) (name : String) : Prop :=
  ∃ r ∈ (st.holders h).rows, r.val.name = name

instance (st : Store S) (h : Holder) (name : String) : Decidable (st.HasHolder h name) :=
  List.decidableBEx _ _

/-- A holder refers to the row. -/
def referenced (st : Store S) (p : Part) (uuid : Nat) : Bool :=
  (st.holders (S.holder p)).rows.any (fun r => uuid ∈ r.val.refs p)

/-- Drop the rows that nothing refers to. -/
def collect (st : Store S) : Store S :=
  { st with
    parts := fun p => if S.isRoot p then st.parts p else (st.parts p).keep (st.referenced p) }

/-- Every reference is to a row. -/
def Intact (st : Store S) : Prop :=
  ∀ p, ∀ r ∈ (st.holders (S.holder p)).rows, ∀ uuid ∈ r.val.refs p,
    uuid ∈ (st.parts p).rows.map Row.uuid

/-- Every part of the kind hangs on a holder. -/
def Hangs (st : Store S) (p : Part) : Prop :=
  ∀ r ∈ (st.parts p).rows, st.referenced p r.uuid = true

/-- Nothing is left to collect. -/
def Collected (st : Store S) : Prop := ∀ p, S.isRoot p = false → st.Hangs p

/-- No indexed column holds a value twice. -/
def Indexed (st : Store S) : Prop := ∀ p, ((st.parts p).vals.filterMap (S.index p)).Nodup

/-- What holds after every transaction. -/
structure Sound (st : Store S) : Prop where
  intact : st.Intact
  collected : st.Collected
  indexed : st.Indexed

theorem referenced_iff {st : Store S} {p : Part} {uuid : Nat} :
    st.referenced p uuid = true ↔
      ∃ r ∈ (st.holders (S.holder p)).rows, uuid ∈ r.val.refs p := by
  simp [referenced]

/-- Rows that hang on a holder stay, and so do those of the roots. -/
theorem collect_parts {st : Store S} {p : Part} (h : S.isRoot p = false → st.Hangs p) :
    st.collect.parts p = st.parts p := by
  simp only [collect]
  split_ifs with hRoot
  · rfl
  · have hKeep : (st.parts p).rows.filter (fun r => st.referenced p r.uuid) = (st.parts p).rows :=
      List.filter_eq_self.mpr (h (by simpa using hRoot))
    simp only [Table.keep, hKeep]

theorem collect_vals_subset (st : Store S) (p : Part) :
    (st.collect.parts p).vals ⊆ (st.parts p).vals := by
  simp only [collect]
  split_ifs
  · exact fun _ h => h
  · exact (List.filter_sublist.map Row.val).subset

theorem collect_hangs {st : Store S} {p : Part} (h : st.Hangs p) : st.collect.Hangs p := by
  intro r hr
  rw [collect_parts (fun _ => h)] at hr
  exact h r hr

theorem collect_eq_self {st : Store S} (h : st.Collected) : st.collect = st := by
  have hParts : st.collect.parts = st.parts := funext (fun p => collect_parts (h p))
  conv_rhs => rw [show st = ⟨st.holders, st.parts⟩ from rfl, ← hParts]
  rfl

/-- One collection is enough, as parts refer to nothing. -/
theorem collect_collected (st : Store S) : st.collect.Collected := by
  intro p hRoot r hr
  have hKept : r ∈ ((st.parts p).keep (st.referenced p)).rows := by
    simpa [collect, hRoot] using hr
  exact (List.mem_filter.mp hKept).2

/-- What is collected is not referred to. -/
theorem collect_intact {st : Store S} (h : st.Intact) : st.collect.Intact := by
  intro p r hr uuid hRef
  obtain ⟨row, hRow, rfl⟩ := List.mem_map.mp (h p r hr uuid hRef)
  refine List.mem_map_of_mem ?_
  simp only [collect]
  split_ifs
  · exact hRow
  · exact List.mem_filter.mpr ⟨hRow, referenced_iff.mpr ⟨r, hr, hRef⟩⟩

theorem collect_indexed {st : Store S} (h : st.Indexed) : st.collect.Indexed := by
  intro p
  simp only [collect]
  split_ifs
  · exact h p
  · exact (h p).sublist ((List.filter_sublist.map _).filterMap _)

section Commit

variable [Fintype Part]

instance (st : Store S) : Decidable st.Intact := Fintype.decidableForallFintype

instance (st : Store S) : Decidable st.Indexed := Fintype.decidableForallFintype

/-- The end of a transaction. Constraints are checked after the collection. -/
def commit (st : Store S) : Except String (Store S) :=
  if ¬st.collect.Intact then .error "referential integrity violation"
  else if ¬st.collect.Indexed then .error "constraint violation"
  else .ok st.collect

theorem commit_sound {st st' : Store S} (h : st.commit = .ok st') :
    st'.Sound ∧ st' = st.collect := by
  rw [commit] at h
  split_ifs at h with hIntact hIndexed
  cases h
  exact ⟨⟨hIntact, st.collect_collected, hIndexed⟩, rfl⟩

theorem commit_eq_collect {st : Store S} (hIntact : st.Intact) (hIndexed : st.Indexed) :
    st.commit = .ok st.collect := by
  rw [commit, if_neg (not_not.mpr (collect_intact hIntact)),
    if_neg (not_not.mpr (collect_indexed hIndexed))]

/-- A transaction that keeps a store sound is not refused. -/
theorem commit_of_sound {st : Store S} (h : st.Sound) : st.commit = .ok st := by
  rw [commit_eq_collect h.intact h.indexed, collect_eq_self h.collected]

end Commit

section Changes

variable [DecidableEq Part]

def setParts (st : Store S) (p : Part) (t : Table (S.Row p)) : Store S :=
  { st with parts := Function.update st.parts p t }

@[simp] theorem setParts_same (st : Store S) (p : Part) (t : Table (S.Row p)) :
    (st.setParts p t).parts p = t := by
  simp [setParts]

theorem setParts_ne (st : Store S) {p q : Part} (h : q ≠ p) (t : Table (S.Row p)) :
    (st.setParts p t).parts q = st.parts q := by
  simp [setParts, h]

/-- Only the table that changes has to be looked at. -/
theorem indexed_setParts {st : Store S} (h : st.Indexed) {p : Part} {t : Table (S.Row p)} :
    (st.setParts p t).Indexed ↔ (t.vals.filterMap (S.index p)).Nodup := by
  refine (Function.forall_update_iff st.parts
    (fun q t => (t.vals.filterMap (S.index q)).Nodup)).trans ?_
  exact and_iff_left (fun q _ => h q)

variable [DecidableEq Holder]

/-- A new holder has no references. -/
def addHolder (st : Store S) (h : Holder) (name : String) : Store S :=
  { st with
    holders := Function.update st.holders h ((st.holders h).push ⟨name, fun _ => ∅⟩) }

/-- Change the references to parts of one kind, in every holder of the name. -/
def setRefs (st : Store S) (p : Part) (owner : String) (set : Finset Nat → Finset Nat) : Store S :=
  { st with
    holders := Function.update st.holders (S.holder p)
      ((st.holders (S.holder p)).mapVals (HolderRow.setRef p owner set)) }

@[simp] theorem setRefs_parts (st : Store S) (p : Part) (owner : String)
    (set : Finset Nat → Finset Nat) : (st.setRefs p owner set).parts = st.parts := rfl

/-- A new row that hangs on the holders of the name. -/
def hang (st : Store S) (p : Part) (owner : String) (row : S.Row p) : Store S :=
  (st.setParts p ((st.parts p).push row)).setRefs p owner (insert (st.parts p).next)

/-- A row is deleted and taken off the holders of the name. -/
def unhang (st : Store S) (p : Part) (owner : String) (uuid : Nat) : Store S :=
  (st.setParts p ((st.parts p).delete [uuid])).setRefs p owner (fun refs => refs.erase uuid)

def hangAll (st : Store S) (p : Part) (owner : String) (rows : List (S.Row p)) : Store S :=
  rows.foldl (fun st row => st.hang p owner row) st

def unhangAll (st : Store S) (p : Part) (owner : String) (uuids : List Nat) : Store S :=
  uuids.foldl (fun st uuid => st.unhang p owner uuid) st

end Changes

end Store

namespace Store

variable [DecidableEq Part] [DecidableEq Holder] {st : Store S} {p : Part} {owner : String}

section Refs

variable {set : Finset Nat → Finset Nat}

/-- The rows of the holders, one by one. -/
theorem mem_holders_setRefs {h : Holder} {r : Row (HolderRow Part)} :
    r ∈ ((st.setRefs p owner set).holders h).rows ↔ ∃ old ∈ (st.holders h).rows,
      r = if h = S.holder p then ⟨old.uuid, old.val.setRef p owner set⟩ else old := by
  by_cases hHolder : h = S.holder p
  · subst hHolder
    simp [setRefs, Table.mapVals, eq_comm]
  · simp [setRefs, hHolder]

/-- The references of a holder are as before, or they have been changed because it
has the name. -/
theorem refs_of_setRefs {q : Part} {r : Row (HolderRow Part)}
    (hr : r ∈ ((st.setRefs p owner set).holders (S.holder q)).rows) :
    ∃ old ∈ (st.holders (S.holder q)).rows, r.val.name = old.val.name ∧
      ((r.val.refs q = old.val.refs q ∧ (q = p → old.val.name ≠ owner)) ∨
        (q = p ∧ r.val.refs q = set (old.val.refs q))) := by
  obtain ⟨old, hOld, rfl⟩ := mem_holders_setRefs.mp hr
  refine ⟨old, hOld, ?_⟩
  split_ifs with hHolder
  · refine ⟨HolderRow.setRef_name, ?_⟩
    by_cases hPart : q = p
    · subst hPart
      by_cases hName : old.val.name = owner
      · exact Or.inr ⟨rfl, HolderRow.setRef_refs_same hName⟩
      · rw [HolderRow.setRef_of_ne hName]
        exact Or.inl ⟨rfl, fun _ => hName⟩
    · exact Or.inl ⟨HolderRow.setRef_refs_ne hPart, fun hEq => (hPart hEq).elim⟩
  · exact ⟨rfl, Or.inl ⟨rfl, fun hEq => (hHolder (hEq ▸ rfl)).elim⟩⟩

/-- What a holder refers to before, it refers to after the change, unless the change
takes it away. -/
theorem referenced_setRefs {q : Part} {uuid : Nat} (h : st.referenced q uuid = true)
    (hKeep : q = p → ∀ refs : Finset Nat, uuid ∈ refs → uuid ∈ set refs) :
    (st.setRefs p owner set).referenced q uuid = true := by
  obtain ⟨old, hOld, hRef⟩ := referenced_iff.mp h
  refine referenced_iff.mpr ⟨_, mem_holders_setRefs.mpr ⟨old, hOld, rfl⟩, ?_⟩
  split_ifs
  · by_cases hPart : q = p
    · subst hPart
      by_cases hName : old.val.name = owner
      · simp only [HolderRow.setRef_refs_same hName]
        exact hKeep rfl _ hRef
      · simp only [HolderRow.setRef_of_ne hName]
        exact hRef
    · simp only [HolderRow.setRef_refs_ne hPart]
      exact hRef
  · exact hRef

/-- A change refers to nothing but what it adds. -/
theorem not_referenced_setRefs {q : Part} {uuid : Nat} (h : st.referenced q uuid = false)
    (hKeep : q = p → ∀ refs : Finset Nat, uuid ∈ set refs → uuid ∈ refs) :
    (st.setRefs p owner set).referenced q uuid = false := by
  rw [← Bool.not_eq_true, referenced_iff] at h ⊢
  rintro ⟨r, hr, hRef⟩
  obtain ⟨old, hOld, -, ⟨hSame, -⟩ | ⟨hPart, hSet⟩⟩ := refs_of_setRefs hr
  · exact h ⟨old, hOld, hSame ▸ hRef⟩
  · exact h ⟨old, hOld, hKeep hPart _ (hSet ▸ hRef)⟩

theorem hasHolder_setRefs {h : Holder} {name : String} (hSt : st.HasHolder h name) :
    (st.setRefs p owner set).HasHolder h name := by
  obtain ⟨old, hOld, hName⟩ := hSt
  refine ⟨_, mem_holders_setRefs.mpr ⟨old, hOld, rfl⟩, hName ▸ ?_⟩
  split_ifs
  · exact HolderRow.setRef_name
  · rfl

end Refs

section Hang

variable (row : S.Row p)

@[simp] theorem hang_parts_same : (st.hang p owner row).parts p = (st.parts p).push row := by
  simp [hang]

theorem hang_parts_ne {q : Part} (h : q ≠ p) : (st.hang p owner row).parts q = st.parts q := by
  rw [hang, setRefs_parts, setParts_ne _ h]

/-- The new reference is to the new row. -/
theorem hang_intact (h : st.Intact) : (st.hang p owner row).Intact := by
  intro q r hr uuid hRef
  obtain ⟨old, hOld, -, ⟨hSame, -⟩ | ⟨rfl, hSet⟩⟩ := refs_of_setRefs hr
  · have hRow := h q old hOld uuid (hSame ▸ hRef)
    by_cases hPart : q = p
    · subst hPart
      rw [hang_parts_same, Table.push, List.map_append]
      exact List.mem_append_left _ hRow
    · rwa [hang_parts_ne row hPart]
  · rw [hang_parts_same, Table.push, List.map_append]
    rcases Finset.mem_insert.mp (hSet ▸ hRef) with rfl | hRef
    · exact List.mem_append_right _ (by simp)
    · exact List.mem_append_left _ (h q old hOld uuid hRef)

/-- The new row hangs on a holder if there is one of the name. -/
theorem hang_hangs {q : Part} (h : st.Hangs q) (hHolder : q = p → st.HasHolder (S.holder p) owner) :
    (st.hang p owner row).Hangs q := by
  intro r hr
  by_cases hPart : q = p
  · subst hPart
    rw [hang_parts_same] at hr
    rcases Table.mem_rows_push.mp hr with hr | rfl
    · have hRef : (st.setParts q ((st.parts q).push row)).referenced q r.uuid = true := h r hr
      exact referenced_setRefs hRef (fun _ _ hMem => Finset.mem_insert_of_mem hMem)
    · obtain ⟨old, hOld, hName⟩ := hHolder rfl
      refine referenced_iff.mpr ⟨_, mem_holders_setRefs.mpr ⟨old, hOld, rfl⟩, ?_⟩
      rw [if_pos rfl]
      simp only [HolderRow.setRef_refs_same hName]
      exact Finset.mem_insert_self _ _
  · rw [hang_parts_ne row hPart] at hr
    have hRef : (st.setParts p ((st.parts p).push row)).referenced q r.uuid = true := h r hr
    exact referenced_setRefs hRef (fun hEq => (hPart hEq).elim)

theorem hangAll_parts_same (rows : List (S.Row p)) :
    (st.hangAll p owner rows).parts p = (st.parts p).insert rows := by
  induction rows generalizing st with
  | nil => rfl
  | cons row rows ih =>
      change ((st.hang p owner row).hangAll p owner rows).parts p = _
      rw [ih, hang_parts_same]
      rfl

theorem hangAll_parts_ne {q : Part} (h : q ≠ p) (rows : List (S.Row p)) :
    (st.hangAll p owner rows).parts q = st.parts q :=
  List.foldlRecOn rows _ (motive := fun st' : Store S => st'.parts q = st.parts q) rfl
    (fun _ hSt row _ => (hang_parts_ne row h).trans hSt)

theorem hangAll_intact (h : st.Intact) (rows : List (S.Row p)) :
    (st.hangAll p owner rows).Intact :=
  List.foldlRecOn rows _ (motive := fun st' : Store S => st'.Intact) h
    (fun _ hSt row _ => hang_intact row hSt)

theorem hangAll_hangs {q : Part} (h : st.Hangs q)
    (hHolder : q = p → st.HasHolder (S.holder p) owner) (rows : List (S.Row p)) :
    (st.hangAll p owner rows).Hangs q := by
  refine (List.foldlRecOn rows _ (motive := fun st' : Store S =>
    st'.Hangs q ∧ (q = p → st'.HasHolder (S.holder p) owner)) ⟨h, hHolder⟩ ?_).1
  intro st' hSt row _
  exact ⟨hang_hangs row hSt.1 hSt.2, fun hEq => hasHolder_setRefs (hSt.2 hEq)⟩

/-- The values of the new rows must be new to an indexed column. -/
theorem hangAll_indexed (h : st.Indexed) {rows : List (S.Row p)}
    (hNew : (((st.parts p).vals ++ rows).filterMap (S.index p)).Nodup) :
    (st.hangAll p owner rows).Indexed := by
  intro q
  by_cases hPart : q = p
  · subst hPart
    rw [hangAll_parts_same, Table.vals_insert]
    exact hNew
  · rw [hangAll_parts_ne hPart]
    exact h q

end Hang

section Unhang

variable {uuid : Nat}

@[simp] theorem unhang_parts_same :
    (st.unhang p owner uuid).parts p = (st.parts p).delete [uuid] := by
  simp [unhang]

theorem unhang_parts_ne {q : Part} (h : q ≠ p) :
    (st.unhang p owner uuid).parts q = st.parts q := by
  rw [unhang, setRefs_parts, setParts_ne _ h]

/-- A row may go if only holders of the name refer to it. -/
theorem unhang_intact (h : st.Intact)
    (hOnly : ∀ r ∈ (st.holders (S.holder p)).rows, uuid ∈ r.val.refs p → r.val.name = owner) :
    (st.unhang p owner uuid).Intact := by
  have hStays : ∀ ref ∈ (st.parts p).rows.map Row.uuid, ref ≠ uuid →
      ref ∈ ((st.unhang p owner uuid).parts p).rows.map Row.uuid := by
    intro ref hMem hNe
    obtain ⟨r, hr, rfl⟩ := List.mem_map.mp hMem
    rw [unhang_parts_same]
    exact List.mem_map_of_mem (Table.mem_rows_delete.mpr ⟨hr, hNe⟩)
  intro q r hr ref hRef
  obtain ⟨old, hOld, -, ⟨hSame, hName⟩ | ⟨rfl, hSet⟩⟩ := refs_of_setRefs hr
  · rw [hSame] at hRef
    by_cases hPart : q = p
    · subst hPart
      refine hStays ref (h q old hOld ref hRef) ?_
      rintro rfl
      exact hName rfl (hOnly old hOld hRef)
    · rw [unhang_parts_ne hPart]
      exact h q old hOld ref hRef
  · obtain ⟨hNe, hRef⟩ := Finset.mem_erase.mp (hSet ▸ hRef)
    exact hStays ref (h q old hOld ref hRef) hNe

/-- The rows that stay lose no reference. -/
theorem unhang_hangs {q : Part} (h : st.Hangs q) : (st.unhang p owner uuid).Hangs q := by
  intro r hr
  by_cases hPart : q = p
  · subst hPart
    rw [unhang_parts_same] at hr
    obtain ⟨hRow, hNe⟩ := Table.mem_rows_delete.mp hr
    have hRef : (st.setParts q ((st.parts q).delete [uuid])).referenced q r.uuid = true := h r hRow
    exact referenced_setRefs hRef (fun _ _ hMem => Finset.mem_erase.mpr ⟨hNe, hMem⟩)
  · rw [unhang_parts_ne hPart] at hr
    have hRef : (st.setParts p ((st.parts p).delete [uuid])).referenced q r.uuid = true := h r hr
    exact referenced_setRefs hRef (fun hEq => (hPart hEq).elim)

theorem unhang_indexed (h : st.Indexed) : (st.unhang p owner uuid).Indexed :=
  (indexed_setParts h).mpr ((h p).sublist ((List.filter_sublist.map _).filterMap _))

theorem unhangAll_parts_same (uuids : List Nat) :
    (st.unhangAll p owner uuids).parts p = (st.parts p).delete uuids := by
  rw [← Table.foldl_delete]
  induction uuids generalizing st with
  | nil => rfl
  | cons uuid uuids ih =>
      change ((st.unhang p owner uuid).unhangAll p owner uuids).parts p = _
      rw [ih, unhang_parts_same]
      rfl

theorem unhangAll_hangs {q : Part} (h : st.Hangs q) (uuids : List Nat) :
    (st.unhangAll p owner uuids).Hangs q :=
  List.foldlRecOn uuids _ (motive := fun st' : Store S => st'.Hangs q) h
    (fun _ hSt _ _ => unhang_hangs hSt)

/-- Where all holders of a kind have the name, parts are taken off all of them. -/
theorem unhangAll_sound (h : st.Sound)
    (hOnly : ∀ r ∈ (st.holders (S.holder p)).rows, r.val.name = owner) (uuids : List Nat) :
    (st.unhangAll p owner uuids).Sound := by
  refine (List.foldlRecOn uuids _ (motive := fun st' : Store S => st'.Sound ∧
    ∀ r ∈ (st'.holders (S.holder p)).rows, r.val.name = owner) ⟨h, hOnly⟩ ?_).1
  intro st' hSt uuid _
  refine ⟨⟨unhang_intact hSt.1.intact (fun r hr _ => hSt.2 r hr),
    fun q hRoot => unhang_hangs (hSt.1.collected q hRoot), unhang_indexed hSt.1.indexed⟩, ?_⟩
  intro r hr
  obtain ⟨old, hOld, hName, -⟩ := refs_of_setRefs hr
  exact hName.trans (hSt.2 old hOld)

end Unhang

section Holders

variable {h : Holder} {name : String}

omit [DecidableEq Part] in
theorem mem_holders_addHolder {h' : Holder} {r : Row (HolderRow Part)} :
    r ∈ ((st.addHolder h name).holders h').rows ↔
      r ∈ (st.holders h').rows ∨ (h' = h ∧ r = ⟨(st.holders h).next, name, fun _ => ∅⟩) := by
  by_cases hHolder : h' = h
  · subst hHolder
    simp [addHolder, Table.push]
  · simp [addHolder, hHolder]

omit [DecidableEq Part] in
theorem addHolder_referenced {p : Part} {uuid : Nat} :
    (st.addHolder h name).referenced p uuid = st.referenced p uuid := by
  rw [Bool.eq_iff_iff, referenced_iff, referenced_iff]
  constructor
  · rintro ⟨r, hr, hRef⟩
    rcases mem_holders_addHolder.mp hr with hr | ⟨-, rfl⟩
    · exact ⟨r, hr, hRef⟩
    · simp at hRef
  · rintro ⟨r, hr, hRef⟩
    exact ⟨r, mem_holders_addHolder.mpr (Or.inl hr), hRef⟩

omit [DecidableEq Part] in
/-- A new holder refers to nothing. -/
theorem addHolder_sound (hSt : st.Sound) : (st.addHolder h name).Sound := by
  refine ⟨fun p r hr uuid hRef => ?_, fun p hRoot r hr => ?_, hSt.indexed⟩
  · rcases mem_holders_addHolder.mp hr with hr | ⟨-, rfl⟩
    · exact hSt.intact p r hr uuid hRef
    · simp at hRef
  · rw [addHolder_referenced]
    exact hSt.collected p hRoot r hr

end Holders

section Update

variable {f : S.Row p → S.Row p}

omit [DecidableEq Holder] in
/-- Changing what rows hold, but not their indexed columns, keeps a store sound. -/
theorem mapVals_sound (hSt : st.Sound) (hIndex : ∀ row, S.index p (f row) = S.index p row) :
    (st.setParts p ((st.parts p).mapVals f)).Sound := by
  have hUuids : ∀ q, ((st.setParts p ((st.parts p).mapVals f)).parts q).rows.map Row.uuid =
      (st.parts q).rows.map Row.uuid := by
    intro q
    by_cases hPart : q = p
    · subst hPart
      simp [Table.mapVals]
    · rw [setParts_ne _ hPart]
  refine ⟨fun q r hr uuid hRef => ?_, fun q hRoot r hr => ?_, (indexed_setParts hSt.indexed).mpr ?_⟩
  · rw [hUuids]
    exact hSt.intact q r hr uuid hRef
  · have hMem := List.mem_map_of_mem (f := Row.uuid) hr
    rw [hUuids] at hMem
    obtain ⟨old, hOld, hEq⟩ := List.mem_map.mp hMem
    exact hEq ▸ hSt.collected q hRoot old hOld
  · rw [Table.vals_mapVals, List.filterMap_map]
    simpa only [Function.comp_def, hIndex] using hSt.indexed p

end Update

end Store

end RefStore
