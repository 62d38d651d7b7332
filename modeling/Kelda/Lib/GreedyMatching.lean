import Kelda.Lib.Lists
import Mathlib.Combinatorics.Enumerative.DoubleCounting
import Mathlib.Data.List.Nodup
import Mathlib.Data.Int.Order.Basic

/-! Greedy bipartite matching by an integer score. Lower scores are matched
first and negative scores never match. The two sides are arbitrary types, and
the order in which equally scored candidates are taken is not fixed. -/
namespace GreedyMatching

variable {I J : Type*} {score : I → J → Int}

/-- Every left and every right endpoint is used at most once. -/
structure Matching (pairs : List (I × J)) : Prop where
  left : (pairs.map Prod.fst).Nodup
  right : (pairs.map Prod.snd).Nodup

theorem Matching.nil : Matching ([] : List (I × J)) := ⟨List.nodup_nil, List.nodup_nil⟩

theorem Matching.snoc {pairs : List (I × J)} (h : Matching pairs) {i : I} {j : J}
    (hi : i ∉ pairs.map Prod.fst) (hj : j ∉ pairs.map Prod.snd) :
    Matching (pairs ++ [(i, j)]) := by
  constructor
  · rw [List.map_append, List.map_singleton]
    exact List.nodup_append'.mpr ⟨h.left, List.nodup_singleton _, by simpa using hi⟩
  · rw [List.map_append, List.map_singleton]
    exact List.nodup_append'.mpr ⟨h.right, List.nodup_singleton _, by simpa using hj⟩

/-- One of the two endpoints already has a partner that is at least as good
as the other endpoint. A pair that is itself matched is dominated. -/
def Dominated (score : I → J → Int) (pairs : List (I × J)) (i : I) (j : J) : Prop :=
  (∃ j', (i, j') ∈ pairs ∧ score i j' ≤ score i j) ∨
    (∃ i', (i', j) ∈ pairs ∧ score i' j ≤ score i j)

theorem Dominated.mono {pairs more : List (I × J)} {i : I} {j : J}
    (h : Dominated score pairs i j) (hSub : pairs ⊆ more) : Dominated score more i j := by
  rcases h with ⟨j', hm, hs⟩ | ⟨i', hm, hs⟩
  · exact Or.inl ⟨j', hSub hm, hs⟩
  · exact Or.inr ⟨i', hSub hm, hs⟩

/-- A finished greedy matching: no negative pair, and every admissible pair
is dominated, so that none of them blocks the matching. -/
structure Stable (score : I → J → Int) (pairs : List (I × J)) : Prop where
  matching : Matching pairs
  nonneg : ∀ p ∈ pairs, 0 ≤ score p.1 p.2
  dominated : ∀ i j, 0 ≤ score i j → Dominated score pairs i j

/-- The order of the pairs does not matter. -/
theorem Stable.perm {pairs pairs' : List (I × J)} (h : Stable score pairs)
    (hPerm : pairs'.Perm pairs) : Stable score pairs' where
  matching := ⟨(hPerm.map _).nodup_iff.mpr h.matching.left,
    (hPerm.map _).nodup_iff.mpr h.matching.right⟩
  nonneg := fun p hp => h.nonneg p (hPerm.mem_iff.mp hp)
  dominated := fun i j hs => (h.dominated i j hs).mono hPerm.symm.subset

theorem Matching.left_inj {pairs : List (I × J)} (h : Matching pairs) {i : I} {j j' : J}
    (hm : (i, j) ∈ pairs) (hm' : (i, j') ∈ pairs) : j = j' :=
  congrArg Prod.snd (List.inj_on_of_nodup_map h.left hm hm' rfl)

theorem Matching.right_inj {pairs : List (I × J)} (h : Matching pairs) {i i' : I} {j : J}
    (hm : (i, j) ∈ pairs) (hm' : (i', j) ∈ pairs) : i = i' :=
  congrArg Prod.fst (List.inj_on_of_nodup_map h.right hm hm' rfl)

theorem Matching.card_eq {pairs : List (I × J)} (h : Matching pairs) {X : Finset I} {Y : Finset J}
    (hLeft : ∀ i ∈ X, ∃ j ∈ Y, (i, j) ∈ pairs) (hRight : ∀ j ∈ Y, ∃ i ∈ X, (i, j) ∈ pairs) :
    X.card = Y.card :=
  le_antisymm
    (Finset.card_le_card_of_forall_subsingleton (fun i j => (i, j) ∈ pairs) hLeft
      (fun _ _ _ hi _ hi' => h.right_inj hi.2 hi'.2))
    (Finset.card_le_card_of_forall_subsingleton (fun j i => (i, j) ∈ pairs) hRight
      (fun _ _ _ hj _ hj' => h.left_inj hj.2 hj'.2))

/-- If no two pairs have the same score, there is one stable matching. The induction
is on the score: whatever dominates a pair of one of two matchings is better, hence
in both. -/
theorem Stable.mem_iff {pairs pairs' : List (I × J)} (h : Stable score pairs)
    (h' : Stable score pairs')
    (hInj : ∀ i j i' j', 0 ≤ score i j → score i j = score i' j' → i = i' ∧ j = j') (p : I × J) :
    p ∈ pairs ↔ p ∈ pairs' := by
  obtain ⟨n, hn⟩ : ∃ n, (score p.1 p.2).toNat = n := ⟨_, rfl⟩
  induction n using Nat.strong_induction_on generalizing p with
  | _ n ih =>
      have hStep : ∀ {A B : List (I × J)}, Stable score A → Stable score B →
          (∀ q, (score q.1 q.2).toNat < n → (q ∈ A ↔ q ∈ B)) → p ∈ A → p ∈ B := by
        intro A B hA hB hBelow hp
        obtain ⟨i, j⟩ := p
        have hNonneg : 0 ≤ score i j := hA.nonneg _ hp
        rcases hB.dominated i j hNonneg with ⟨j', hm, hLe⟩ | ⟨i', hm, hLe⟩ <;>
          have hOther := hB.nonneg _ hm <;> dsimp only at hOther hn
        · rcases hLe.eq_or_lt with hEq | hLt
          · obtain ⟨-, rfl⟩ := hInj i j' i j hOther hEq
            exact hm
          · have hMine := (hBelow (i, j') (by dsimp only; omega)).mpr hm
            obtain rfl := hA.matching.left_inj hp hMine
            exact hm
        · rcases hLe.eq_or_lt with hEq | hLt
          · obtain ⟨rfl, -⟩ := hInj i' j i j hOther hEq
            exact hm
          · have hMine := (hBelow (i', j) (by dsimp only; omega)).mpr hm
            obtain rfl := hA.matching.right_inj hp hMine
            exact hm
      have hBelow : ∀ q : I × J, (score q.1 q.2).toNat < n → (q ∈ pairs ↔ q ∈ pairs') :=
        fun q hq => ih _ hq q rfl
      exact ⟨hStep h h' hBelow, hStep h' h (fun q hq => (hBelow q hq).symm)⟩

/-- A stable matching is stable under every coarser score, also if the right side is
renamed. -/
theorem Stable.map_right {K : Type*} {score' : I → K → Int} {pairs : List (I × J)}
    (h : Stable score pairs) {f : J → K} (hInj : Function.Injective f)
    (hRange : ∀ i k, 0 ≤ score' i k → ∃ j, f j = k)
    (hNonneg : ∀ i j, 0 ≤ score' i (f j) ↔ 0 ≤ score i j)
    (hMono : ∀ i j i' j', 0 ≤ score i j → 0 ≤ score i' j' → score i j ≤ score i' j' →
      score' i (f j) ≤ score' i' (f j')) :
    Stable score' (pairs.map (Prod.map id f)) where
  matching := by
    constructor
    · rw [List.map_map]
      exact h.matching.left
    · rw [List.map_map, show Prod.snd ∘ Prod.map id f = f ∘ @Prod.snd I J from rfl, ← List.map_map]
      exact h.matching.right.map hInj
  nonneg := by
    intro p hp
    obtain ⟨q, hq, rfl⟩ := List.mem_map.mp hp
    exact (hNonneg q.1 q.2).mpr (h.nonneg q hq)
  dominated := by
    intro i k hs
    obtain ⟨j, rfl⟩ := hRange i k hs
    have hs := (hNonneg i j).mp hs
    rcases h.dominated i j hs with ⟨j', hm, hLe⟩ | ⟨i', hm, hLe⟩
    · exact Or.inl ⟨f j', List.mem_map_of_mem hm, hMono _ _ _ _ (h.nonneg _ hm) hs hLe⟩
    · exact Or.inr ⟨i', List.mem_map_of_mem hm, hMono _ _ _ _ (h.nonneg _ hm) hs hLe⟩

section Ties

variable [DecidableEq J]

/-- The score, with ties broken by the position of the right endpoint in a list. -/
def tieBroken (score : I → J → Int) (order : List J) (i : I) (j : J) : Int :=
  if score i j < 0 then score i j else score i j * order.length + order.idxOf j

theorem mul_add_le_iff {a b : Int} {n x y : Nat} (hx : x < n) (hy : y < n) :
    a * n + x ≤ b * n + y ↔ a < b ∨ a = b ∧ x ≤ y := by
  have hStep : ∀ {c d : Int}, c < d → c * n + n ≤ d * n := fun {c d} h => by
    have := Int.mul_le_mul_of_nonneg_right (Int.add_one_le_iff.mpr h) (Int.natCast_nonneg n)
    rwa [Int.add_mul, Int.one_mul] at this
  rcases lt_trichotomy a b with h | rfl | h
  · have := hStep h
    omega
  · omega
  · have := hStep h
    omega

variable {order : List J}

theorem tieBroken_nonneg_iff {i : I} {j : J} : 0 ≤ tieBroken score order i j ↔ 0 ≤ score i j := by
  rw [tieBroken]
  split_ifs with h
  · rfl
  · have := Int.mul_nonneg (not_lt.mp h) (Int.natCast_nonneg order.length)
    omega

theorem tieBroken_le_iff {i i' : I} {j j' : J} (h : 0 ≤ score i j) (h' : 0 ≤ score i' j')
    (hj : j ∈ order) (hj' : j' ∈ order) :
    tieBroken score order i j ≤ tieBroken score order i' j' ↔
      score i j < score i' j' ∨ score i j = score i' j' ∧ order.idxOf j ≤ order.idxOf j' := by
  rw [tieBroken, tieBroken, if_neg h.not_gt, if_neg h'.not_gt]
  exact mul_add_le_iff (List.idxOf_lt_length_iff.mpr hj) (List.idxOf_lt_length_iff.mpr hj')

/-- If the score tells the left endpoints of a right one apart, no two pairs are due
at the same time. -/
theorem tieBroken_inj (hOrder : ∀ i j, 0 ≤ score i j → j ∈ order)
    (hInj : ∀ i i' j, 0 ≤ score i j → score i j = score i' j → i = i') {i i' : I} {j j' : J}
    (h : 0 ≤ tieBroken score order i j)
    (hEq : tieBroken score order i j = tieBroken score order i' j') : i = i' ∧ j = j' := by
  have hs := tieBroken_nonneg_iff.mp h
  have hs' := tieBroken_nonneg_iff.mp (hEq ▸ h)
  have hj := hOrder i j hs
  have hLe := (tieBroken_le_iff hs hs' hj (hOrder i' j' hs')).mp hEq.le
  have hGe := (tieBroken_le_iff hs' hs (hOrder i' j' hs') hj).mp hEq.ge
  obtain rfl : j = j' := (List.idxOf_inj hj).mp (by omega)
  exact ⟨hInj i i' j hs (by omega), rfl⟩

theorem Stable.of_tieBroken {pairs : List (I × J)} (h : Stable (tieBroken score order) pairs)
    (hOrder : ∀ i j, 0 ≤ score i j → j ∈ order) : Stable score pairs := by
  have hStable := h.map_right Function.injective_id (fun _ j _ => ⟨j, rfl⟩)
    (fun _ _ => tieBroken_nonneg_iff.symm) (fun i j i' j' hs hs' hLe => ?_)
  · rwa [Prod.map_id, List.map_id] at hStable
  · have hs := tieBroken_nonneg_iff.mp hs
    have hs' := tieBroken_nonneg_iff.mp hs'
    have := (tieBroken_le_iff hs hs' (hOrder i j hs) (hOrder i' j' hs')).mp hLe
    dsimp only [id]
    omega

omit [DecidableEq J] in
/-- An order of the right side in which the right endpoints of a matching come first,
those of the best pairs before the others. -/
theorem Stable.exists_ascending {pairs : List (I × J)} (h : Stable score pairs) {rights : List J}
    (hNodup : rights.Nodup) (hRights : ∀ i j, 0 ≤ score i j → j ∈ rights) :
    ∃ order, rights.Perm order ∧ order.Pairwise (fun j j' => ∀ i, (i, j') ∈ pairs →
      ∃ i', (i', j) ∈ pairs ∧ score i' j ≤ score i j') := by
  let sorted := pairs.insertionSort (fun p q => score p.1 p.2 ≤ score q.1 q.2)
  have hSorted : sorted.Perm pairs := List.perm_insertionSort _ _
  have hAscending : sorted.Pairwise (fun p q => score p.1 p.2 ≤ score q.1 q.2) :=
    List.pairwise_insertionSort _ _
  obtain ⟨rest, hPerm⟩ := Lists.exists_front (l := rights)
    ((hSorted.map Prod.snd).nodup_iff.mpr h.matching.right) (by
      intro j hj
      obtain ⟨p, hp, rfl⟩ := List.mem_map.mp hj
      exact hRights p.1 p.2 (h.nonneg p (hSorted.mem_iff.mp hp)))
  have hRest : ∀ {i j}, (i, j) ∈ pairs → j ∉ rest := fun hm hj =>
    (List.nodup_append'.mp (hPerm.nodup_iff.mp hNodup)).2.2
      (List.mem_map_of_mem (hSorted.mem_iff.mpr hm)) hj
  refine ⟨_, hPerm, List.pairwise_append.mpr ⟨List.pairwise_map.mpr (hAscending.imp_of_mem ?_),
    List.pairwise_of_forall_mem_list ?_, ?_⟩⟩
  · intro p q hp hq hLe i hm
    obtain rfl := h.matching.right_inj hm (hSorted.mem_iff.mp hq)
    exact ⟨p.1, hSorted.mem_iff.mp hp, hLe⟩
  · exact fun j _ j' hj' i hm => absurd hj' (hRest hm)
  · exact fun j _ j' hj' i hm => absurd hj' (hRest hm)

/-- Every stable matching is the one that some order of the right side decides on. -/
theorem Stable.exists_order {pairs : List (I × J)} (h : Stable score pairs) {rights : List J}
    (hNodup : rights.Nodup) (hRights : ∀ i j, 0 ≤ score i j → j ∈ rights) :
    ∃ order, rights.Perm order ∧ Stable (tieBroken score order) pairs := by
  obtain ⟨order, hPerm, hOrder⟩ := h.exists_ascending hNodup hRights
  have hMem : ∀ i j, 0 ≤ score i j → j ∈ order :=
    fun i j hs => hPerm.mem_iff.mp (hRights i j hs)
  refine ⟨order, hPerm, h.matching, fun p hp => tieBroken_nonneg_iff.mpr (h.nonneg p hp), ?_⟩
  intro i j hs
  have hs := tieBroken_nonneg_iff.mp hs
  -- a left endpoint with a tie keeps its partner only if no right endpoint before it is free
  rcases h.dominated i j hs with ⟨j', hm, hLe⟩ | ⟨i', hm, hLe⟩
  · have hs' := h.nonneg _ hm
    rcases lt_or_ge (order.idxOf j) (order.idxOf j') with hLt | hGe
    · obtain ⟨i', hm', hLe'⟩ := Lists.rel_of_idxOf_lt hOrder (hMem i j' hs') hLt i hm
      refine Or.inr ⟨i', hm', (tieBroken_le_iff (h.nonneg _ hm') hs (hMem i j hs)
        (hMem i j hs)).mpr ?_⟩
      exact (hLe'.trans hLe).lt_or_eq.imp_right (fun hEq => ⟨hEq, le_rfl⟩)
    · refine Or.inl ⟨j', hm, (tieBroken_le_iff hs' hs (hMem i j' hs') (hMem i j hs)).mpr ?_⟩
      exact hLe.lt_or_eq.imp_right (fun hEq => ⟨hEq, hGe⟩)
  · refine Or.inr ⟨i', hm, (tieBroken_le_iff (h.nonneg _ hm) hs (hMem i j hs)
      (hMem i j hs)).mpr ?_⟩
    exact hLe.lt_or_eq.imp_right (fun hEq => ⟨hEq, le_rfl⟩)

end Ties

/-- Two endpoints that are both left over do not match at all. -/
theorem Stable.negative_of_free {pairs : List (I × J)} (h : Stable score pairs) {i : I} {j : J}
    (hi : i ∉ pairs.map Prod.fst) (hj : j ∉ pairs.map Prod.snd) : score i j < 0 := by
  by_contra hs
  rcases h.dominated i j (not_lt.mp hs) with ⟨j', hm, -⟩ | ⟨i', hm, -⟩
  · exact hi (List.mem_map_of_mem hm)
  · exact hj (List.mem_map_of_mem hm)

/-- Two sets of the same size that prefer each other are paired within each
other. An element without a partner would leave too few of them for the rest. -/
theorem Stable.pairs_within {pairs : List (I × J)} (h : Stable score pairs) {X : Finset I}
    {Y : Finset J} (hCard : X.card = Y.card) (hScore : ∀ i ∈ X, ∀ j ∈ Y, 0 ≤ score i j)
    (hLeft : ∀ i ∈ X, ∀ j ∈ Y, ∀ j', (i, j') ∈ pairs → score i j' ≤ score i j → j' ∈ Y)
    (hRight : ∀ i ∈ X, ∀ j ∈ Y, ∀ i', (i', j) ∈ pairs → score i' j ≤ score i j → i' ∈ X) :
    (∀ i ∈ X, ∃ j ∈ Y, (i, j) ∈ pairs) ∧ ∀ j ∈ Y, ∃ i ∈ X, (i, j) ∈ pairs := by
  classical
  constructor
  · intro i hi
    by_contra hAlone
    have hOthers : ∀ j ∈ Y, ∃ i' ∈ X.erase i, (i', j) ∈ pairs := by
      intro j hj
      rcases h.dominated i j (hScore i hi j hj) with ⟨j', hm, hLe⟩ | ⟨i', hm, hLe⟩
      · exact absurd ⟨j', hLeft i hi j hj j' hm hLe, hm⟩ hAlone
      · refine ⟨i', Finset.mem_erase.mpr ⟨?_, hRight i hi j hj i' hm hLe⟩, hm⟩
        rintro rfl
        exact hAlone ⟨j, hj, hm⟩
    have hLe := Finset.card_le_card_of_forall_subsingleton (fun j i' => (i', j) ∈ pairs) hOthers
      (fun i' _ j hj j' hj' => h.matching.left_inj hj.2 hj'.2)
    have := Finset.card_erase_lt_of_mem hi
    omega
  · intro j hj
    by_contra hAlone
    have hOthers : ∀ i ∈ X, ∃ j' ∈ Y.erase j, (i, j') ∈ pairs := by
      intro i hi
      rcases h.dominated i j (hScore i hi j hj) with ⟨j', hm, hLe⟩ | ⟨i', hm, hLe⟩
      · refine ⟨j', Finset.mem_erase.mpr ⟨?_, hLeft i hi j hj j' hm hLe⟩, hm⟩
        rintro rfl
        exact hAlone ⟨i, hi, hm⟩
      · exact absurd ⟨i', hRight i hi j hj i' hm hLe, hm⟩ hAlone
    have hLe := Finset.card_le_card_of_forall_subsingleton (fun i j' => (i, j') ∈ pairs) hOthers
      (fun j' _ i hi i' hi' => h.matching.right_inj hi.2 hi'.2)
    have := Finset.card_erase_lt_of_mem hj
    omega

/-- A right endpoint is matched if the left endpoints of some set can only prefer
endpoints of a set of its own, and there are not too many of these. -/
theorem Stable.exists_left {pairs : List (I × J)} (h : Stable score pairs) {X : Finset I}
    {Y : Finset J} (hCard : Y.card ≤ X.card) {j : J} (hj : j ∈ Y)
    (hScore : ∀ i ∈ X, 0 ≤ score i j)
    (hLeft : ∀ i ∈ X, ∀ j', (i, j') ∈ pairs → score i j' ≤ score i j → j' ∈ Y) :
    ∃ i, (i, j) ∈ pairs := by
  classical
  by_contra hAlone
  have hOthers : ∀ i ∈ X, ∃ j' ∈ Y.erase j, (i, j') ∈ pairs := by
    intro i hi
    rcases h.dominated i j (hScore i hi) with ⟨j', hm, hLe⟩ | ⟨i', hm, hLe⟩
    · refine ⟨j', Finset.mem_erase.mpr ⟨?_, hLeft i hi j' hm hLe⟩, hm⟩
      rintro rfl
      exact hAlone ⟨i, hm⟩
    · exact absurd ⟨i', hm⟩ hAlone
  have hLe := Finset.card_le_card_of_forall_subsingleton (fun i j' => (i, j') ∈ pairs) hOthers
    (fun j' _ i hi i' hi' => h.matching.right_inj hi.2 hi'.2)
  have := Finset.card_erase_lt_of_mem hj
  omega

/-- A greedy matching under construction. The pending pairs are those about
which no decision has been made; none of them is better than a pair that has
already been matched. -/
structure Greedy (score : I → J → Int) (pairs : List (I × J)) (pending : I → J → Prop) : Prop where
  matching : Matching pairs
  nonneg : ∀ p ∈ pairs, 0 ≤ score p.1 p.2
  settled : ∀ i j, 0 ≤ score i j → Dominated score pairs i j ∨ pending i j
  below : ∀ p ∈ pairs, ∀ i j, pending i j → 0 ≤ score i j → score p.1 p.2 ≤ score i j

theorem Greedy.start : Greedy score ([] : List (I × J)) (fun _ _ => True) where
  matching := Matching.nil
  nonneg := by simp
  settled := fun _ _ _ => Or.inr trivial
  below := by simp

variable {pairs : List (I × J)} {pending pending' : I → J → Prop}

/-- A pending pair with a used endpoint is dominated by the pair that uses it. -/
theorem Greedy.dominated_of_used (h : Greedy score pairs pending) {i : I} {j : J}
    (hp : pending i j) (hs : 0 ≤ score i j)
    (hUsed : i ∈ pairs.map Prod.fst ∨ j ∈ pairs.map Prod.snd) : Dominated score pairs i j := by
  rcases hUsed with hi | hj
  · obtain ⟨⟨i', j'⟩, hm, rfl⟩ := List.mem_map.mp hi
    exact Or.inl ⟨j', hm, h.below _ hm _ _ hp hs⟩
  · obtain ⟨⟨i', j'⟩, hm, rfl⟩ := List.mem_map.mp hj
    exact Or.inr ⟨i', hm, h.below _ hm _ _ hp hs⟩

/-- Match a pending pair of least score whose endpoints are both free. -/
theorem Greedy.pair (h : Greedy score pairs pending) {i : I} {j : J} (hs : 0 ≤ score i j)
    (hi : i ∉ pairs.map Prod.fst) (hj : j ∉ pairs.map Prod.snd)
    (hLeast : ∀ i' j', pending i' j' → 0 ≤ score i' j' → score i j ≤ score i' j') :
    Greedy score (pairs ++ [(i, j)]) pending where
  matching := h.matching.snoc hi hj
  nonneg := by
    intro p hp
    rcases List.mem_append.mp hp with hp | hp
    · exact h.nonneg p hp
    · obtain rfl := List.mem_singleton.mp hp
      exact hs
  settled := by
    intro a b hab
    rcases h.settled a b hab with hd | hp
    · exact Or.inl (hd.mono (List.subset_append_left _ _))
    · exact Or.inr hp
  below := by
    intro p hp a b hab hSab
    rcases List.mem_append.mp hp with hp | hp
    · exact h.below p hp a b hab hSab
    · obtain rfl := List.mem_singleton.mp hp
      exact hLeast a b hab hSab

/-- Drop pending pairs that are inadmissible or have a used endpoint. -/
theorem Greedy.narrow (h : Greedy score pairs pending) (hSub : ∀ i j, pending' i j → pending i j)
    (hDrop : ∀ i j, pending i j → 0 ≤ score i j → ¬pending' i j →
      i ∈ pairs.map Prod.fst ∨ j ∈ pairs.map Prod.snd) :
    Greedy score pairs pending' where
  matching := h.matching
  nonneg := h.nonneg
  settled := by
    intro i j hs
    rcases h.settled i j hs with hd | hp
    · exact Or.inl hd
    · by_cases hp' : pending' i j
      · exact Or.inr hp'
      · exact Or.inl (h.dominated_of_used hp hs (hDrop i j hp hs hp'))
  below := fun p hm i j hp hs => h.below p hm i j (hSub i j hp) hs

/-- Once nothing admissible is pending, the matching is stable. -/
theorem Greedy.stable (h : Greedy score pairs pending)
    (hDone : ∀ i j, pending i j → 0 ≤ score i j →
      i ∈ pairs.map Prod.fst ∨ j ∈ pairs.map Prod.snd) : Stable score pairs where
  matching := h.matching
  nonneg := h.nonneg
  dominated := by
    intro i j hs
    rcases h.settled i j hs with hd | hp
    · exact hd
    · exact h.dominated_of_used hp hs (hDone i j hp hs)

end GreedyMatching
