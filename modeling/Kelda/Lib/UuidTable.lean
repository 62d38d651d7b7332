import Mathlib.Data.Finset.Sort
import Kelda.Lib.HashMap

/-! A table of a database that names its rows itself: a new row gets an identifier
that was never used before, and rows are deleted by their identifiers. -/
namespace UuidTable

section Columns

variable {α : Type} [LinearOrder α]

/-- The elements of a column that holds a set. -/
def elements (column : Finset α) : List α := column.sort (· ≤ ·)

theorem mem_elements {column : Finset α} {a : α} : a ∈ elements column ↔ a ∈ column :=
  Finset.mem_sort _

theorem nodup_elements (column : Finset α) : (elements column).Nodup :=
  Finset.sort_nodup column (· ≤ ·)

theorem toFinset_elements (column : Finset α) : (elements column).toFinset = column :=
  Finset.sort_toFinset column (· ≤ ·)

theorem elements_toFinset {as : List α} (hNodup : as.Nodup) (hSorted : as.Pairwise (· ≤ ·)) :
    elements as.toFinset = as :=
  (List.toFinset_sort (· ≤ ·) hNodup).mpr hSorted

end Columns

structure Row (α : Type) where
  uuid : Nat
  val : α

structure Table (α : Type) where
  rows : List (Row α)
  next : Nat
  fresh : ∀ r ∈ rows, r.uuid < next
  nodup : (rows.map Row.uuid).Nodup

namespace Table

variable {α : Type}

def empty : Table α := ⟨[], 0, by simp, by simp⟩

/-- What the rows hold. -/
def vals (t : Table α) : List α := t.rows.map Row.val

def push (t : Table α) (val : α) : Table α where
  rows := t.rows ++ [⟨t.next, val⟩]
  next := t.next + 1
  fresh := by
    intro r hr
    rcases List.mem_append.mp hr with hr | hr
    · exact Nat.lt_succ_of_lt (t.fresh r hr)
    · rw [List.mem_singleton.mp hr]
      exact Nat.lt_succ_self _
  nodup := by
    have hNew : t.next ∉ t.rows.map Row.uuid := by
      intro h
      obtain ⟨r, hr, hEq⟩ := List.mem_map.mp h
      exact absurd (t.fresh r hr) (by omega)
    rw [List.map_append, List.nodup_append']
    exact ⟨t.nodup, by simp, by simpa using hNew⟩

def insert (t : Table α) (vals : List α) : Table α := vals.foldl push t

def delete (t : Table α) (uuids : List Nat) : Table α where
  rows := t.rows.filter (fun r => r.uuid ∉ uuids)
  next := t.next
  fresh := fun r hr => t.fresh r (List.mem_of_mem_filter hr)
  nodup := t.nodup.sublist (List.filter_sublist.map _)

/-- Only the rows whose identifiers are wanted. -/
def keep (t : Table α) (wanted : Nat → Bool) : Table α where
  rows := t.rows.filter (fun r => wanted r.uuid)
  next := t.next
  fresh := fun r hr => t.fresh r (List.mem_of_mem_filter hr)
  nodup := t.nodup.sublist (List.filter_sublist.map _)

/-- Change what the rows hold, under the same identifiers. -/
def mapVals (t : Table α) (f : α → α) : Table α where
  rows := t.rows.map (fun r => ⟨r.uuid, f r.val⟩)
  next := t.next
  fresh := by
    intro r hr
    obtain ⟨old, hOld, rfl⟩ := List.mem_map.mp hr
    exact t.fresh old hOld
  nodup := by
    rw [List.map_map]
    exact t.nodup

/-- Only the rows that do not hold certain values. -/
def deleteWhere (t : Table α) (cond : α → Bool) : Table α where
  rows := t.rows.filter (fun r => !cond r.val)
  next := t.next
  fresh := fun r hr => t.fresh r (List.mem_of_mem_filter hr)
  nodup := t.nodup.sublist (List.filter_sublist.map _)

theorem mem_rows_push {t : Table α} {val : α} {r : Row α} :
    r ∈ (t.push val).rows ↔ r ∈ t.rows ∨ r = ⟨t.next, val⟩ := by
  simp [push]

theorem mem_rows_delete {t : Table α} {uuid : Nat} {r : Row α} :
    r ∈ (t.delete [uuid]).rows ↔ r ∈ t.rows ∧ r.uuid ≠ uuid := by
  simp [delete]

@[simp] theorem vals_mapVals (t : Table α) (f : α → α) : (t.mapVals f).vals = t.vals.map f := by
  simp [vals, mapVals]

@[simp] theorem vals_deleteWhere (t : Table α) (cond : α → Bool) :
    (t.deleteWhere cond).vals = t.vals.filter (fun a => !cond a) := by
  rw [vals, vals, List.filter_map]
  rfl

@[simp] theorem delete_nil (t : Table α) : t.delete [] = t := by
  simp [delete]

/-- The new rows are behind the old ones, under identifiers of their own. -/
theorem rows_insert (t : Table α) (vals : List α) :
    ∃ news, (t.insert vals).rows = t.rows ++ news ∧ news.map Row.val = vals ∧
      ∀ r ∈ news, t.next ≤ r.uuid := by
  induction vals generalizing t with
  | nil => exact ⟨[], by simp [insert], rfl, by simp⟩
  | cons val vals ih =>
      obtain ⟨news, hRows, hVals, hNext⟩ := ih (t.push val)
      refine ⟨⟨t.next, val⟩ :: news, ?_, by simp [hVals], ?_⟩
      · rw [insert, List.foldl_cons]
        exact hRows.trans (by simp [push])
      · intro r hr
        rcases List.mem_cons.mp hr with rfl | hr
        · exact Nat.le_refl _
        · exact (Nat.le_succ _).trans (hNext r hr)

@[simp] theorem vals_insert (t : Table α) (vals : List α) :
    (t.insert vals).vals = t.vals ++ vals := by
  obtain ⟨news, hRows, hVals, -⟩ := t.rows_insert vals
  rw [Table.vals, hRows, List.map_append, hVals, Table.vals]

theorem vals_delete_subset (t : Table α) (uuids : List Nat) : (t.delete uuids).vals ⊆ t.vals :=
  (List.filter_sublist.map Row.val).subset

/-- Deleting one row after another. -/
theorem rows_foldl_delete (t : Table α) (uuids : List Nat) :
    (uuids.foldl (fun t uuid => t.delete [uuid]) t).rows =
      t.rows.filter (fun r => r.uuid ∉ uuids) := by
  induction uuids generalizing t with
  | nil => simp
  | cons uuid uuids ih =>
      rw [List.foldl_cons, ih, delete, List.filter_filter]
      apply List.filter_congr
      intro r _
      simp [Bool.and_comm]

theorem foldl_delete (t : Table α) (uuids : List Nat) :
    uuids.foldl (fun t uuid => t.delete [uuid]) t = t.delete uuids := by
  have hNext : (uuids.foldl (fun t uuid => t.delete [uuid]) t).next = t.next := by
    induction uuids generalizing t with
    | nil => rfl
    | cons uuid uuids ih => exact ih (t.delete [uuid])
  have hRows := t.rows_foldl_delete uuids
  generalize uuids.foldl (fun t uuid => t.delete [uuid]) t = after at hNext hRows
  cases after
  cases hNext
  cases hRows
  rfl

/-- If some rows are to be kept and the others deleted, the values of those to be
kept remain. -/
theorem vals_delete_perm (t : Table α) {keep olds : List (Row α)}
    (h : (keep ++ olds).Perm t.rows) :
    (t.delete (olds.map Row.uuid)).vals.Perm (keep.map Row.val) :=
  (List.filter_notMem_perm t.nodup h).map Row.val

/-- The same where new rows were added before the old ones are deleted. -/
theorem vals_insert_delete_perm (t : Table α) (vals : List α) {keep olds : List (Row α)}
    (h : (keep ++ olds).Perm t.rows) :
    ((olds.map Row.uuid).foldl (fun t uuid => t.delete [uuid]) (t.insert vals)).vals.Perm
      (keep.map Row.val ++ vals) := by
  obtain ⟨news, hRows, hVals, hNext⟩ := t.rows_insert vals
  have hStay : news.filter (fun r => r.uuid ∉ olds.map Row.uuid) = news := by
    rw [List.filter_eq_self]
    intro r hr
    refine decide_eq_true (fun hm => ?_)
    obtain ⟨old, hOld, hEq⟩ := List.mem_map.mp hm
    have hLt := t.fresh old (h.mem_iff.mp (List.mem_append_right _ hOld))
    have hLe := hNext r hr
    omega
  rw [Table.vals, rows_foldl_delete, hRows, List.filter_append, hStay, List.map_append, hVals]
  exact ((List.filter_notMem_perm t.nodup h).map Row.val).append_right vals

end Table

end UuidTable
