import Kelda.DB.Database
import Kelda.Util.Str

/-! The orders in which slices of rows are sorted. Each is given by a less
function of its own; here is what it compares. -/
namespace Kelda.DB

section Sorting

variable {α κ : Type} [LinearOrder κ]

/-- Sort a slice by its less function. -/
def sortSlice (less : α → α → Bool) (rows : List α) : List α :=
  rows.insertionSort (fun a b => less b a = false)

theorem sortSlice_perm (less : α → α → Bool) (rows : List α) : (sortSlice less rows).Perm rows :=
  List.perm_insertionSort _ rows

/-- A slice is sorted in one way only if rows of the same rank are equal. -/
theorem sortSlice_eq_of_ties {less : α → α → Bool} {rank : α → κ}
    (hLess : ∀ a b, less a b = true ↔ rank a < rank b) {rows rows' : List α}
    (hPerm : rows.Perm rows') (hTies : ∀ a ∈ rows, ∀ b ∈ rows, rank a = rank b → a = b) :
    sortSlice less rows = sortSlice less rows' := by
  have hLe : ∀ a b, less b a = false ↔ rank a ≤ rank b := by
    intro a b
    rw [← not_lt, ← hLess b a, Bool.not_eq_true]
  have hTotal : Std.Total (fun a b : α => less b a = false) :=
    ⟨fun a b => by simpa [hLe] using le_total (rank a) (rank b)⟩
  have hTrans : IsTrans α (fun a b : α => less b a = false) :=
    ⟨fun a b c hab hbc => (hLe a c).mpr (((hLe a b).mp hab).trans ((hLe b c).mp hbc))⟩
  apply List.Perm.eq_of_pairwise
  · intro a b ha hb hab hba
    have ha' : a ∈ rows := (sortSlice_perm less rows).mem_iff.mp ha
    have hb' : b ∈ rows := (hPerm.symm.mem_iff.mp ((sortSlice_perm less rows').mem_iff.mp hb))
    exact hTies a ha' b hb' (le_antisymm ((hLe a b).mp hab) ((hLe b a).mp hba))
  · exact List.pairwise_insertionSort _ rows
  · exact List.pairwise_insertionSort _ rows'
  · exact (sortSlice_perm less rows).trans (hPerm.trans (sortSlice_perm less rows').symm)

/-- Rows of different ranks are sorted in one way only. -/
theorem sortSlice_eq {less : α → α → Bool} {rank : α → κ}
    (hLess : ∀ a b, less a b = true ↔ rank a < rank b) {rows rows' : List α}
    (hPerm : rows.Perm rows') (hRank : (rows.map rank).Nodup) :
    sortSlice less rows = sortSlice less rows' :=
  sortSlice_eq_of_ties hLess hPerm
    (fun _ ha _ hb hEq => List.inj_on_of_nodup_map hRank ha hb hEq)

/-- The sort of the library leaves equal rows in any order. -/
def sortUnstable (ord : MapOrder) (less : α → α → Bool) (rows : List α) : List α :=
  sortSlice less (ord.walk rows)

theorem sortUnstable_perm (ord : MapOrder) (less : α → α → Bool) (rows : List α) :
    (sortUnstable ord less rows).Perm rows :=
  (sortSlice_perm less _).trans (ord.perm rows)

theorem sortUnstable_eq {ord ord' : MapOrder} {less : α → α → Bool} (rank : α → κ)
    (hLess : ∀ a b, less a b = true ↔ rank a < rank b) {rows rows' : List α}
    (hPerm : rows.Perm rows') (hTies : ∀ a ∈ rows, ∀ b ∈ rows, rank a = rank b → a = b) :
    sortUnstable ord less rows = sortUnstable ord' less rows' := by
  apply sortSlice_eq_of_ties hLess
  · exact (ord.perm rows).trans (hPerm.trans (ord'.perm rows').symm)
  · intro a ha b hb
    exact hTies a (ord.mem_walk.mp ha) b (ord.mem_walk.mp hb)

end Sorting

section Less

def Connection.less (c o : Connection) : Bool :=
  if Str.sliceCmp c.fromHosts o.fromHosts ≠ 0 then Str.sliceCmp c.fromHosts o.fromHosts < 0
  else if Str.sliceCmp c.toHosts o.toHosts ≠ 0 then Str.sliceCmp c.toHosts o.toHosts < 0
  else if c.maxPort ≠ o.maxPort then c.maxPort < o.maxPort
  else if c.minPort ≠ o.minPort then c.minPort < o.minPort
  else c.id < o.id

def Hostname.less (r r2 : Hostname) : Bool :=
  if r.hostname ≠ r2.hostname then r.hostname < r2.hostname else r.id < r2.id

def Container.less (c r : Container) : Bool := c.blueprintID < r.blueprintID

def Connection.rank (c : Connection) :
    (ℕ ×ₗ List String) ×ₗ ((ℕ ×ₗ List String) ×ₗ (ℤ ×ₗ (ℤ ×ₗ ℕ))) :=
  toLex (Str.sliceRank c.fromHosts, toLex (Str.sliceRank c.toHosts,
    toLex (c.maxPort, toLex (c.minPort, c.id))))

def Hostname.rank (r : Hostname) : String ×ₗ ℕ := toLex (r.hostname, r.id)

/-- One level of a comparison by several fields. -/
theorem lex_less {α β : Type} [LinearOrder α] [LT β] {a a' : α} {b b' : β} {less rest : Bool}
    (hFirst : a ≠ a' → (less = true ↔ a < a')) (hSame : a = a' → less = rest)
    (hRest : rest = true ↔ b < b') : less = true ↔ toLex (a, b) < toLex (a', b') := by
  rw [Prod.Lex.toLex_lt_toLex]
  by_cases hEq : a = a'
  · rw [hSame hEq, hRest]
    simp [hEq]
  · rw [hFirst hEq]
    simp [hEq]

theorem Hostname.less_iff (r r2 : Hostname) : r.less r2 = true ↔ r.rank < r2.rank := by
  apply lex_less
  · intro hne
    simp [Hostname.less, hne]
  · intro hEq
    rw [Hostname.less, if_neg (not_not.mpr hEq)]
  · exact decide_eq_true_iff

theorem Connection.less_iff (c o : Connection) : c.less o = true ↔ c.rank < o.rank := by
  have hSlice : ∀ {x y : List String}, Str.sliceRank x ≠ Str.sliceRank y →
      Str.sliceCmp x y ≠ 0 := fun hne h => hne (Str.sliceCmp_eq_zero_iff.mp h)
  apply lex_less
  · intro hne
    rw [Connection.less, if_pos (hSlice hne), decide_eq_true_iff, Str.sliceCmp_neg_iff]
  · intro hEq
    rw [Connection.less, if_neg (not_not.mpr (Str.sliceCmp_eq_zero_iff.mpr hEq))]
  · apply lex_less
    · intro hne
      rw [if_pos (hSlice hne), decide_eq_true_iff, Str.sliceCmp_neg_iff]
    · intro hEq
      rw [if_neg (not_not.mpr (Str.sliceCmp_eq_zero_iff.mpr hEq))]
    · apply lex_less
      · intro hne
        rw [if_pos hne, decide_eq_true_iff]
      · intro hEq
        rw [if_neg (not_not.mpr hEq)]
      · apply lex_less
        · intro hne
          rw [if_pos hne, decide_eq_true_iff]
        · intro hEq
          rw [if_neg (not_not.mpr hEq)]
        · exact decide_eq_true_iff

end Less

end Kelda.DB
