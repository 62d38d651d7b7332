import Kelda.Lib.GreedyMatching
import Kelda.Lib.Lists

/-! The scored join of package join. Slices are lists and an element is read
by its index, so that equal elements at different positions stay apart. The
score may fail, because the score functions of the callers can panic. -/
namespace Kelda.Join

open GreedyMatching

variable {α β : Type}

/-- An element of the left slice and an element of the right slice that have
been matched by a join. -/
structure Pair (α β : Type) where
  L : α
  R : β
deriving DecidableEq, Repr

/-- What both joins return. -/
structure Result (α β : Type) where
  pairs : List (Pair α β)
  lonelyLefts : List α
  lonelyRights : List β
deriving DecidableEq, Repr

structure ScoredPair (L : List α) (R : List β) where
  left : Fin L.length
  right : Fin R.length
  score : Int

/-- The local variables of `join`. The two maps to empty structs are sets. -/
structure State (L : List α) (R : List β) where
  pairs : List (Pair α β)
  pairedLefts : Finset (Fin L.length)
  pairedRights : Finset (Fin R.length)
  scoredPairs : List (ScoredPair L R)

def State.initial (L : List α) (R : List β) : State L R := ⟨[], ∅, ∅, []⟩

section Model

variable {m : Type → Type} [Monad m] (L : List α) (R : List β) (score : α → β → m Int)

/-- Append the pair at these indices and mark both of them. -/
def State.pair {L : List α} {R : List β} (st : State L R) (i : Fin L.length)
    (j : Fin R.length) : State L R :=
  { st with
    pairs := st.pairs ++ [⟨L.get i, R.get j⟩]
    pairedLefts := insert i st.pairedLefts
    pairedRights := insert j st.pairedRights }

/-- The inner loop over the right slice. A zero score pairs immediately and
continues the outer loop. -/
def scanRights (i : Fin L.length) : List (Fin R.length) → State L R → m (State L R)
  | [], st => pure st
  | j :: js, st =>
    if j ∈ st.pairedRights then scanRights i js st
    else do
      let s ← score (L.get i) (R.get j)
      if s = 0 then pure (st.pair i j)
      else if s > 0 then
        scanRights i js { st with scoredPairs := st.scoredPairs ++ [⟨i, j, s⟩] }
      else scanRights i js st

/-- The outer loop, labelled `OuterPairing` in the source. -/
def generate : List (Fin L.length) → State L R → m (State L R)
  | [], st => pure st
  | i :: is, st => do
    let st ← scanRights L R score i (List.finRange R.length) st
    generate is st

/-- Collect the best pairs from the sorted candidates. The loop stops as soon
as one side is used up. -/
def collect {L : List α} {R : List β} : List (ScoredPair L R) → State L R → State L R
  | [], st => st
  | sp :: rest, st =>
    if st.pairedLefts.card = L.length ∨ st.pairedRights.card = R.length then st
    else if sp.left ∈ st.pairedLefts then collect rest st
    else if sp.right ∈ st.pairedRights then collect rest st
    else collect rest (st.pair sp.left sp.right)

/-- Insertion before the first candidate that is not better, hence stable. -/
def sortStable {L : List α} {R : List β} (sps : List (ScoredPair L R)) : List (ScoredPair L R) :=
  sps.insertionSort (fun a b => a.score ≤ b.score)

/-- The unpaired elements, in the order of the original slices. -/
def State.result {L : List α} {R : List β} (st : State L R) : Result α β where
  pairs := st.pairs
  lonelyLefts := ((List.finRange L.length).filter (· ∉ st.pairedLefts)).map L.get
  lonelyRights := ((List.finRange R.length).filter (· ∉ st.pairedRights)).map R.get

/-- `Join` with a score that may fail. -/
def joinM : m (Result α β) := do
  let st ← generate L R score (List.finRange L.length) (State.initial L R)
  pure (collect (sortStable st.scoredPairs) st).result

end Model

/-- `Join` with a pure score function. -/
def join (L : List α) (R : List β) (score : α → β → Int) : Result α β :=
  Id.run (joinM (m := Id) L R score)

/-- The score of two indices, as the loops see it. -/
abbrev indexScore (L : List α) (R : List β) (score : α → β → Int) :
    Fin L.length → Fin R.length → Int :=
  fun i j => score (L.get i) (R.get j)

section Rank

variable {L : List α} {R : List β} {score : α → β → Int}

/-- The place of an index pair in the order in which the join takes its pairs:
lower scores come first, equal scores are taken in the order of the slices. A
pair that never matches keeps its negative score. -/
def rank (L : List α) (R : List β) (score : α → β → Int) (i : Fin L.length)
    (j : Fin R.length) : Int :=
  if indexScore L R score i j < 0 then indexScore L R score i j
  else indexScore L R score i j * (L.length * R.length : Nat) + (i * R.length + j : Nat)

/-- The first pair stands before the second one in the order of the slices. -/
def Before (i : Fin L.length) (j : Fin R.length) (i' : Fin L.length) (j' : Fin R.length) : Prop :=
  i < i' ∨ i = i' ∧ j < j'

theorem offset_lt (i : Fin L.length) (j : Fin R.length) :
    (i * R.length + j : Nat) < L.length * R.length := by
  have hRow : (i + 1 : Nat) * R.length ≤ L.length * R.length := Nat.mul_le_mul_right _ i.isLt
  rw [Nat.succ_mul] at hRow
  have := j.isLt
  omega

theorem Before.offset_lt {i i' : Fin L.length} {j j' : Fin R.length} (h : Before i j i' j') :
    (i * R.length + j : Nat) < i' * R.length + j' := by
  rcases h with h | ⟨rfl, h⟩
  · have hRow : (i + 1 : Nat) * R.length ≤ i' * R.length := Nat.mul_le_mul_right _ h
    rw [Nat.succ_mul] at hRow
    have := j.isLt
    omega
  · exact Nat.add_lt_add_left h _

theorem rank_nonneg_iff {i : Fin L.length} {j : Fin R.length} :
    0 ≤ rank L R score i j ↔ 0 ≤ indexScore L R score i j := by
  rw [rank]
  split_ifs with h
  · rfl
  · have := Int.mul_nonneg (not_lt.mp h) (Int.natCast_nonneg (L.length * R.length))
    omega

/-- A lower score comes first, whatever the positions are. -/
theorem rank_lt_of_score_lt {i i' : Fin L.length} {j j' : Fin R.length}
    (h : 0 ≤ indexScore L R score i j)
    (hLt : indexScore L R score i j < indexScore L R score i' j') :
    rank L R score i j < rank L R score i' j' := by
  have hStep := Int.mul_le_mul_of_nonneg_right (Int.add_one_le_iff.mpr hLt)
    (Int.natCast_nonneg (L.length * R.length))
  rw [Int.add_mul, Int.one_mul] at hStep
  have := offset_lt i j
  rw [rank, rank, if_neg h.not_gt, if_neg (h.trans hLt.le).not_gt]
  omega

theorem rank_lt_of_before {i i' : Fin L.length} {j j' : Fin R.length}
    (h : 0 ≤ indexScore L R score i j)
    (hLe : indexScore L R score i j ≤ indexScore L R score i' j') (hBefore : Before i j i' j') :
    rank L R score i j < rank L R score i' j' := by
  rcases hLe.lt_or_eq with hLt | hEq
  · exact rank_lt_of_score_lt h hLt
  · have := hBefore.offset_lt
    rw [rank, rank, ← hEq, if_neg h.not_gt, if_neg h.not_gt]
    omega

/-- A pair of a lower or equal rank has no higher score. -/
theorem score_le_of_rank_le {i i' : Fin L.length} {j j' : Fin R.length}
    (h : 0 ≤ indexScore L R score i' j') (hLe : rank L R score i j ≤ rank L R score i' j') :
    indexScore L R score i j ≤ indexScore L R score i' j' := by
  by_contra hGt
  exact absurd (rank_lt_of_score_lt h (not_le.mp hGt)) hLe.not_gt

/-- Stability by ranks is stability by scores. -/
theorem stable_of_rank {M : List (Fin L.length × Fin R.length)} (h : Stable (rank L R score) M) :
    Stable (indexScore L R score) M := by
  have hStable := h.map_right Function.injective_id (fun _ j _ => ⟨j, rfl⟩)
    (fun _ _ => rank_nonneg_iff.symm)
    (fun _ _ _ _ _ hs hLe => score_le_of_rank_le (rank_nonneg_iff.mp hs) hLe)
  rwa [Prod.map_id, List.map_id] at hStable

end Rank

/-- The index pairs behind the local variables of `join`. -/
structure Tracks {L : List α} {R : List β} (score : α → β → Int) (st : State L R)
    (M : List (Fin L.length × Fin R.length)) : Prop where
  pairs : st.pairs = M.map (fun p => ⟨L.get p.1, R.get p.2⟩)
  lefts : st.pairedLefts = (M.map Prod.fst).toFinset
  rights : st.pairedRights = (M.map Prod.snd).toFinset
  scores : ∀ sp ∈ st.scoredPairs, sp.score = indexScore L R score sp.left sp.right ∧ 0 < sp.score

section Loops

variable {L : List α} {R : List β} {score : α → β → Int} {st : State L R}
  {M : List (Fin L.length × Fin R.length)}

theorem Tracks.mem_lefts (h : Tracks score st M) (i : Fin L.length) :
    i ∈ st.pairedLefts ↔ i ∈ M.map Prod.fst := by
  rw [h.lefts, List.mem_toFinset]

theorem Tracks.mem_rights (h : Tracks score st M) (j : Fin R.length) :
    j ∈ st.pairedRights ↔ j ∈ M.map Prod.snd := by
  rw [h.rights, List.mem_toFinset]

theorem Tracks.initial : Tracks score (State.initial L R) [] :=
  ⟨rfl, rfl, rfl, by simp [State.initial]⟩

theorem Tracks.pair (h : Tracks score st M) (i : Fin L.length) (j : Fin R.length) :
    Tracks score (st.pair i j) (M ++ [(i, j)]) := by
  refine ⟨by simp [State.pair, h.pairs], ?_, ?_, h.scores⟩
  · simp only [State.pair, h.lefts, List.map_append, List.toFinset_append]
    ext x
    simp
  · simp only [State.pair, h.rights, List.map_append, List.toFinset_append]
    ext x
    simp

/-- The indices occur among the collected candidates. -/
def Candidate (sps : List (ScoredPair L R)) (i : Fin L.length) (j : Fin R.length) : Prop :=
  ∃ sp ∈ sps, sp.left = i ∧ sp.right = j

theorem candidate_snoc (sps : List (ScoredPair L R)) (sp : ScoredPair L R) (i : Fin L.length)
    (j : Fin R.length) :
    Candidate (sps ++ [sp]) i j ↔ Candidate sps i j ∨ (sp.left = i ∧ sp.right = j) := by
  simp [Candidate, or_and_right, exists_or]

/-- A score of zero is the best that is pending: candidates have positive scores,
and every other pair comes later. -/
theorem Tracks.rank_least {i : Fin L.length} {j : Fin R.length} {rest : List (Fin L.length)}
    {js : List (Fin R.length)} (h : Tracks score st M) (hZero : indexScore L R score i j = 0)
    (hLater : ∀ b ∈ js, j < b) (hRest : ∀ a ∈ rest, i < a) {a : Fin L.length} {b : Fin R.length}
    (hab : Candidate st.scoredPairs a b ∨ (a = i ∧ b ∈ j :: js) ∨ a ∈ rest)
    (hScore : 0 ≤ rank L R score a b) : rank L R score i j ≤ rank L R score a b := by
  have hLe : indexScore L R score i j ≤ indexScore L R score a b := by
    rw [hZero]
    exact rank_nonneg_iff.mp hScore
  rcases hab with ⟨sp, hsp, rfl, rfl⟩ | ⟨rfl, hb⟩ | ha
  · apply le_of_lt
    apply rank_lt_of_score_lt hZero.ge
    rw [hZero, ← (h.scores sp hsp).1]
    exact (h.scores sp hsp).2
  · rcases List.mem_cons.mp hb with rfl | hb
    · exact le_refl _
    · exact (rank_lt_of_before hZero.ge hLe (Or.inr ⟨rfl, hLater b hb⟩)).le
  · exact (rank_lt_of_before hZero.ge hLe (Or.inl (hRest a ha))).le

theorem scanRights_cons (i : Fin L.length) (j : Fin R.length) (js : List (Fin R.length))
    (st : State L R) :
    Id.run (scanRights (m := Id) L R score i (j :: js) st) =
      if j ∈ st.pairedRights then Id.run (scanRights (m := Id) L R score i js st)
      else if indexScore L R score i j = 0 then st.pair i j
      else if indexScore L R score i j > 0 then
        Id.run (scanRights (m := Id) L R score i js
          { st with scoredPairs := st.scoredPairs ++ [⟨i, j, indexScore L R score i j⟩] })
      else Id.run (scanRights (m := Id) L R score i js st) := by
  rw [scanRights]
  split_ifs with hj hZero hPos
  · rfl
  · change Id.run (if indexScore L R score i j = 0 then _ else _) = _
    rw [if_pos hZero]
    rfl
  · change Id.run (if indexScore L R score i j = 0 then _ else if indexScore L R score i j > 0
      then _ else _) = _
    rw [if_neg hZero, if_pos hPos]
  · change Id.run (if indexScore L R score i j = 0 then _ else if indexScore L R score i j > 0
      then _ else _) = _
    rw [if_neg hZero, if_neg hPos]

/-- The inner loop decides every pair of the current left index: it is matched,
it becomes a candidate, or it has no admissible score. Only the current left
index can become used. -/
theorem scanRights_greedy (i : Fin L.length) (rest : List (Fin L.length))
    (js : List (Fin R.length)) (hRest : ∀ a ∈ rest, i < a) (hAscending : js.Pairwise (· < ·))
    (hFree : i ∉ M.map Prod.fst) (hTracks : Tracks score st M)
    (hGreedy : Greedy (rank L R score) M
      (fun a b => Candidate st.scoredPairs a b ∨ (a = i ∧ b ∈ js) ∨ a ∈ rest)) :
    ∃ M', Tracks score (Id.run (scanRights (m := Id) L R score i js st)) M' ∧
      Greedy (rank L R score) M' (fun a b =>
        Candidate (Id.run (scanRights (m := Id) L R score i js st)).scoredPairs a b ∨ a ∈ rest) ∧
      ∀ x ∈ M'.map Prod.fst, x ∈ M.map Prod.fst ∨ x = i := by
  induction js generalizing st with
  | nil => exact ⟨M, hTracks, by simpa [scanRights] using hGreedy, fun x hx => Or.inl hx⟩
  | cons j js ih =>
      obtain ⟨hLater, hAscending⟩ := List.pairwise_cons.mp hAscending
      rw [scanRights_cons]
      split_ifs with hj hZero hPos
      · refine ih hAscending hTracks (hGreedy.narrow (fun a b hab => ?_) (fun a b hab _ hn => ?_))
        · simp only [List.mem_cons]
          tauto
        · have hb : b = j := by
            simp only [List.mem_cons] at hab
            tauto
          exact Or.inr (hb ▸ (hTracks.mem_rights j).mp hj)
      · have hPair := hGreedy.pair (rank_nonneg_iff.mpr hZero.ge) hFree
          (fun h => hj ((hTracks.mem_rights j).mpr h))
          (fun a b hab hs => hTracks.rank_least hZero hLater hRest hab hs)
        refine ⟨M ++ [(i, j)], hTracks.pair i j, hPair.narrow (fun a b hab => ?_)
          (fun a b hab _ hn => ?_), by simp⟩
        · exact hab.imp_right Or.inr
        · have ha : a = i := by
            simp only [State.pair] at hn
            tauto
          simp [ha]
      · refine ih hAscending ⟨hTracks.pairs, hTracks.lefts, hTracks.rights, ?_⟩ (hGreedy.narrow
          (fun a b hab => ?_) (fun a b hab _ hn => ?_))
        · intro sp hsp
          rcases List.mem_append.mp hsp with hsp | hsp
          · exact hTracks.scores sp hsp
          · obtain rfl := List.mem_singleton.mp hsp
            exact ⟨rfl, hPos⟩
        · simp only [candidate_snoc, List.mem_cons] at hab ⊢
          grind
        · simp only [candidate_snoc, List.mem_cons] at hab hn
          grind
      · refine ih hAscending hTracks (hGreedy.narrow (fun a b hab => ?_) (fun a b hab hs hn => ?_))
        · simp only [List.mem_cons]
          tauto
        · have hab' : a = i ∧ b = j := by
            simp only [List.mem_cons] at hab
            tauto
          obtain ⟨rfl, rfl⟩ := hab'
          have := rank_nonneg_iff.mp hs
          omega

/-- After the outer loop only the collected candidates are pending. -/
theorem generate_greedy (is : List (Fin L.length)) (hAscending : is.Pairwise (· < ·))
    (hFree : ∀ i ∈ is, i ∉ M.map Prod.fst) (hTracks : Tracks score st M)
    (hGreedy : Greedy (rank L R score) M
      (fun a b => Candidate st.scoredPairs a b ∨ a ∈ is)) :
    ∃ M', Tracks score (Id.run (generate (m := Id) L R score is st)) M' ∧
      Greedy (rank L R score) M'
        (Candidate (Id.run (generate (m := Id) L R score is st)).scoredPairs) := by
  induction is generalizing st M with
  | nil => exact ⟨M, hTracks, by simpa [generate] using hGreedy⟩
  | cons i is ih =>
      obtain ⟨hi, hAscending⟩ := List.pairwise_cons.mp hAscending
      have hScan : Greedy (rank L R score) M (fun a b =>
          Candidate st.scoredPairs a b ∨ (a = i ∧ b ∈ List.finRange R.length) ∨ a ∈ is) := by
        simpa [List.mem_cons, List.mem_finRange] using hGreedy
      obtain ⟨M', hTracks', hGreedy', hUsed⟩ := scanRights_greedy i is (List.finRange R.length) hi
        (List.pairwise_lt_finRange _) (hFree i (List.mem_cons_self ..)) hTracks hScan
      refine ih hAscending (fun a ha hUse => ?_) hTracks' hGreedy'
      rcases hUsed a hUse with hOld | rfl
      · exact hFree a (List.mem_cons_of_mem _ ha) hOld
      · exact absurd (hi a ha) (lt_irrefl a)

/-- The candidate stands before the other one in the order of the slices. -/
def ScoredPair.Precedes (a b : ScoredPair L R) : Prop := Before a.left a.right b.left b.right

theorem scanRights_candidates (score : α → β → Int) (i : Fin L.length)
    (js : List (Fin R.length)) (st : State L R) :
    ∃ new, (Id.run (scanRights (m := Id) L R score i js st)).scoredPairs = st.scoredPairs ++ new ∧
      (new.map ScoredPair.right).Sublist js ∧ ∀ sp ∈ new, sp.left = i := by
  induction js generalizing st with
  | nil => exact ⟨[], by simp [scanRights], List.Sublist.refl _, by simp⟩
  | cons j js ih =>
      rw [scanRights_cons]
      split_ifs
      · obtain ⟨new, hNew, hRights, hLefts⟩ := ih st
        exact ⟨new, hNew, hRights.cons _, hLefts⟩
      · exact ⟨[], by simp [State.pair], List.nil_sublist _, by simp⟩
      · obtain ⟨new, hNew, hRights, hLefts⟩ := ih
          { st with scoredPairs := st.scoredPairs ++ [⟨i, j, indexScore L R score i j⟩] }
        refine ⟨⟨i, j, indexScore L R score i j⟩ :: new, ?_, hRights.cons_cons _, ?_⟩
        · rw [hNew, List.append_assoc, List.singleton_append]
        · simpa using hLefts
      · obtain ⟨new, hNew, hRights, hLefts⟩ := ih st
        exact ⟨new, hNew, hRights.cons _, hLefts⟩

/-- The candidates are collected in the order of the slices. -/
theorem generate_candidates (score : α → β → Int) (is : List (Fin L.length))
    (hAscending : is.Pairwise (· < ·)) (st : State L R) :
    ∃ new, (Id.run (generate (m := Id) L R score is st)).scoredPairs = st.scoredPairs ++ new ∧
      new.Pairwise ScoredPair.Precedes ∧ ∀ sp ∈ new, sp.left ∈ is := by
  induction is generalizing st with
  | nil => exact ⟨[], by simp [generate], List.Pairwise.nil, by simp⟩
  | cons i is ih =>
      obtain ⟨hi, hAscending⟩ := List.pairwise_cons.mp hAscending
      obtain ⟨first, hFirst, hRights, hLefts⟩ :=
        scanRights_candidates score i (List.finRange R.length) st
      obtain ⟨later, hLater, hPairwise, hMem⟩ := ih hAscending
        (Id.run (scanRights (m := Id) L R score i (List.finRange R.length) st))
      refine ⟨first ++ later, ?_, List.pairwise_append.mpr ⟨?_, hPairwise, ?_⟩, ?_⟩
      · rw [← List.append_assoc, ← hFirst]
        exact hLater
      · have hOrdered := (List.pairwise_lt_finRange R.length).sublist hRights
        rw [List.pairwise_map] at hOrdered
        apply hOrdered.imp_of_mem
        intro a b ha hb hLt
        exact Or.inr ⟨(hLefts a ha).trans (hLefts b hb).symm, hLt⟩
      · intro a ha b hb
        rw [ScoredPair.Precedes, hLefts a ha]
        exact Or.inl (hi _ (hMem b hb))
      · intro sp hsp
        rcases List.mem_append.mp hsp with hsp | hsp
        · rw [hLefts sp hsp]
          exact List.mem_cons_self ..
        · exact List.mem_cons_of_mem _ (hMem sp hsp)

/-- Since the sort is stable, the candidates end up in the order of their ranks. -/
theorem sortStable_ranked {sps : List (ScoredPair L R)} (hOrdered : sps.Pairwise ScoredPair.Precedes)
    (hScores : ∀ sp ∈ sps, sp.score = indexScore L R score sp.left sp.right ∧ 0 < sp.score) :
    (sortStable sps).Pairwise
      (fun a b => rank L R score a.left a.right ≤ rank L R score b.left b.right) := by
  have hSame : sps.Pairwise (fun a b => a.score ≤ b.score ↔
      rank L R score a.left a.right ≤ rank L R score b.left b.right) := by
    apply hOrdered.imp_of_mem
    intro a b ha hb hPrecedes
    obtain ⟨hScoreA, hPosA⟩ := hScores a ha
    obtain ⟨hScoreB, hPosB⟩ := hScores b hb
    rw [hScoreA] at hPosA
    rw [hScoreB] at hPosB
    rw [hScoreA, hScoreB]
    exact ⟨fun hLe => (rank_lt_of_before hPosA.le hLe hPrecedes).le, score_le_of_rank_le hPosB.le⟩
  rw [sortStable, Lists.insertionSort_congr hSame]
  have : Std.Total (fun a b : ScoredPair L R =>
      rank L R score a.left a.right ≤ rank L R score b.left b.right) := ⟨fun a b => le_total _ _⟩
  have : IsTrans (ScoredPair L R) (fun a b =>
      rank L R score a.left a.right ≤ rank L R score b.left b.right) := ⟨fun _ _ _ => le_trans⟩
  exact List.pairwise_insertionSort _ _

theorem Tracks.all_lefts (h : Tracks score st M) (hCard : st.pairedLefts.card = L.length)
    (i : Fin L.length) : i ∈ M.map Prod.fst := by
  have hUniv : st.pairedLefts = Finset.univ :=
    Finset.eq_univ_of_card _ (by rw [hCard, Fintype.card_fin])
  exact (h.mem_lefts i).mp (hUniv ▸ Finset.mem_univ i)

theorem Tracks.all_rights (h : Tracks score st M) (hCard : st.pairedRights.card = R.length)
    (j : Fin R.length) : j ∈ M.map Prod.snd := by
  have hUniv : st.pairedRights = Finset.univ :=
    Finset.eq_univ_of_card _ (by rw [hCard, Fintype.card_fin])
  exact (h.mem_rights j).mp (hUniv ▸ Finset.mem_univ j)

/-- The sorted pass leaves a stable matching, whether it reaches the last
candidate or stops early because one side is used up. -/
theorem collect_stable (sps : List (ScoredPair L R))
    (hSorted : sps.Pairwise
      (fun a b => rank L R score a.left a.right ≤ rank L R score b.left b.right))
    (hScores : ∀ sp ∈ sps, 0 ≤ rank L R score sp.left sp.right)
    (hTracks : Tracks score st M) (hGreedy : Greedy (rank L R score) M (Candidate sps)) :
    ∃ M', Tracks score (collect sps st) M' ∧ Stable (rank L R score) M' := by
  induction sps generalizing st M with
  | nil => exact ⟨M, hTracks, hGreedy.stable (by simp [Candidate])⟩
  | cons sp rest ih =>
      obtain ⟨hFirst, hSorted⟩ := List.pairwise_cons.mp hSorted
      have hRest := fun sp' h => hScores sp' (List.mem_cons_of_mem _ h)
      have hSub : ∀ a b, Candidate rest a b → Candidate (sp :: rest) a b :=
        fun a b ⟨sp', hm, hab⟩ => ⟨sp', List.mem_cons_of_mem _ hm, hab⟩
      have hHead : ∀ a b, Candidate (sp :: rest) a b → ¬Candidate rest a b →
          a = sp.left ∧ b = sp.right := by
        rintro a b ⟨sp', hm, rfl, rfl⟩ hn
        rcases List.mem_cons.mp hm with rfl | hm
        · exact ⟨rfl, rfl⟩
        · exact (hn ⟨sp', hm, rfl, rfl⟩).elim
      rw [collect]
      split_ifs with hFull hLeft hRight
      · refine ⟨M, hTracks, hGreedy.stable (fun a b _ _ => ?_)⟩
        exact hFull.imp (hTracks.all_lefts · a) (hTracks.all_rights · b)
      · refine ih hSorted hRest hTracks (hGreedy.narrow hSub (fun a b hab _ hn => Or.inl ?_))
        rw [(hHead a b hab hn).1]
        exact (hTracks.mem_lefts _).mp hLeft
      · refine ih hSorted hRest hTracks (hGreedy.narrow hSub (fun a b hab _ hn => Or.inr ?_))
        rw [(hHead a b hab hn).2]
        exact (hTracks.mem_rights _).mp hRight
      · have hLeast : ∀ a b, Candidate (sp :: rest) a b → 0 ≤ rank L R score a b →
            rank L R score sp.left sp.right ≤ rank L R score a b := by
          rintro a b ⟨sp', hm, rfl, rfl⟩ _
          rcases List.mem_cons.mp hm with rfl | hm
          · exact le_refl _
          · exact hFirst sp' hm
        have hPair := hGreedy.pair (hScores sp (List.mem_cons_self ..))
          (fun h => hLeft ((hTracks.mem_lefts _).mpr h))
          (fun h => hRight ((hTracks.mem_rights _).mpr h)) hLeast
        refine ih hSorted hRest (hTracks.pair sp.left sp.right)
          (hPair.narrow hSub (fun a b hab _ hn => Or.inl ?_))
        simp [(hHead a b hab hn).1]

end Loops

/-- Positions behind a join result. Every index of either slice occurs exactly
once, in a pair or among the lonely elements of its side. -/
structure Positions (L : List α) (R : List β) (res : Result α β)
    (M : List (Fin L.length × Fin R.length)) (ll : List (Fin L.length))
    (lr : List (Fin R.length)) : Prop where
  pairs : res.pairs = M.map (fun p => ⟨L.get p.1, R.get p.2⟩)
  lonelyLefts : res.lonelyLefts = ll.map L.get
  lonelyRights : res.lonelyRights = lr.map R.get
  lefts : (M.map Prod.fst ++ ll).Perm (List.finRange L.length)
  rights : (M.map Prod.snd ++ lr).Perm (List.finRange R.length)

/-- Both phases together: the final local variables track a matching that is
stable by ranks. -/
theorem join_tracks (L : List α) (R : List β) (score : α → β → Int) :
    ∃ (st : State L R) (M : List (Fin L.length × Fin R.length)),
      join L R score = st.result ∧ Tracks score st M ∧ Stable (rank L R score) M := by
  have hStart : Greedy (rank L R score) [] (fun a b =>
      Candidate (State.initial L R).scoredPairs a b ∨ a ∈ List.finRange L.length) :=
    Greedy.start.narrow (fun _ _ _ => trivial)
      (fun a _ _ _ hn => (hn (Or.inr (List.mem_finRange a))).elim)
  obtain ⟨M, hTracks, hGreedy⟩ := generate_greedy (List.finRange L.length)
    (List.pairwise_lt_finRange _) (by simp) Tracks.initial hStart
  obtain ⟨sps, hNew, hOrdered, -⟩ := generate_candidates score
    (List.finRange L.length) (List.pairwise_lt_finRange _) (State.initial L R)
  rw [State.initial, List.nil_append] at hNew
  have hPerm : (sortStable (Id.run (generate (m := Id) L R score (List.finRange L.length)
      (State.initial L R))).scoredPairs).Perm _ := List.perm_insertionSort _ _
  have hSorted := sortStable_ranked (hNew ▸ hOrdered) hTracks.scores
  have hScores : ∀ sp ∈ sortStable (Id.run (generate (m := Id) L R score
      (List.finRange L.length) (State.initial L R))).scoredPairs,
      0 ≤ rank L R score sp.left sp.right := by
    intro sp hsp
    obtain ⟨hScore, hPos⟩ := hTracks.scores sp (hPerm.mem_iff.mp hsp)
    rw [rank_nonneg_iff, ← hScore]
    exact hPos.le
  obtain ⟨M', hTracks', hStable⟩ := collect_stable _ hSorted hScores hTracks
    (hGreedy.narrow (fun a b ⟨sp, hm, h⟩ => ⟨sp, hPerm.mem_iff.mp hm, h⟩)
      (fun a b ⟨sp, hm, h⟩ _ hn => (hn ⟨sp, hPerm.mem_iff.mpr hm, h⟩).elim))
  exact ⟨_, M', rfl, hTracks', hStable⟩

/-- The result of a join in terms of indices, with the lonely elements in the
order of their slices. -/
theorem join_ranked (L : List α) (R : List β) (score : α → β → Int) :
    ∃ (M : List (Fin L.length × Fin R.length)) (ll : List (Fin L.length))
      (lr : List (Fin R.length)), Positions L R (join L R score) M ll lr ∧
        ll.Pairwise (· < ·) ∧ lr.Pairwise (· < ·) ∧ Stable (rank L R score) M := by
  obtain ⟨st, M, hResult, hTracks, hStable⟩ := join_tracks L R score
  refine ⟨M, _, _, ⟨?_, ?_, ?_, Lists.append_filter_notMem_perm hStable.matching.left,
    Lists.append_filter_notMem_perm hStable.matching.right⟩, ?_, ?_, hStable⟩
  · rw [hResult]
    exact hTracks.pairs
  · simp only [hResult, State.result, hTracks.mem_lefts]
  · simp only [hResult, State.result, hTracks.mem_rights]
  · exact (List.pairwise_lt_finRange _).filter _
  · exact (List.pairwise_lt_finRange _).filter _

/-- What holds of the pairs by scores alone, whatever the positions are. -/
theorem join_spec (L : List α) (R : List β) (score : α → β → Int) :
    ∃ (M : List (Fin L.length × Fin R.length)) (ll : List (Fin L.length))
      (lr : List (Fin R.length)), Positions L R (join L R score) M ll lr ∧
        ll.Pairwise (· < ·) ∧ lr.Pairwise (· < ·) ∧ Stable (indexScore L R score) M := by
  obtain ⟨M, ll, lr, hPositions, hLeft, hRight, hStable⟩ := join_ranked L R score
  exact ⟨M, ll, lr, hPositions, hLeft, hRight, stable_of_rank hStable⟩

namespace Positions

variable {L : List α} {R : List β} {res : Result α β} {M : List (Fin L.length × Fin R.length)}
  {ll : List (Fin L.length)} {lr : List (Fin R.length)} (h : Positions L R res M ll lr)

include h

theorem left_free {i : Fin L.length} (hi : i ∈ ll) : i ∉ M.map Prod.fst := by
  have hNodup := h.lefts.nodup_iff.mpr (List.nodup_finRange _)
  exact fun hm => (List.nodup_append'.mp hNodup).2.2 hm hi

theorem right_free {j : Fin R.length} (hj : j ∈ lr) : j ∉ M.map Prod.snd := by
  have hNodup := h.rights.nodup_iff.mpr (List.nodup_finRange _)
  exact fun hm => (List.nodup_append'.mp hNodup).2.2 hm hj

theorem lefts_nil_iff : ll = [] ↔ ∀ i, ∃ j, (i, j) ∈ M := by
  constructor
  · rintro rfl i
    have hLefts := h.lefts
    rw [List.append_nil] at hLefts
    obtain ⟨p, hp, rfl⟩ := List.mem_map.mp (hLefts.mem_iff.mpr (List.mem_finRange i))
    exact ⟨p.2, hp⟩
  · intro hAll
    refine List.eq_nil_iff_forall_not_mem.mpr (fun i hi => ?_)
    obtain ⟨j, hm⟩ := hAll i
    exact h.left_free hi (List.mem_map_of_mem hm)

theorem rights_nil_iff : lr = [] ↔ ∀ j, ∃ i, (i, j) ∈ M := by
  constructor
  · rintro rfl j
    have hRights := h.rights
    rw [List.append_nil] at hRights
    obtain ⟨p, hp, rfl⟩ := List.mem_map.mp (hRights.mem_iff.mpr (List.mem_finRange j))
    exact ⟨p.1, hp⟩
  · intro hAll
    refine List.eq_nil_iff_forall_not_mem.mpr (fun j hj => ?_)
    obtain ⟨i, hm⟩ := hAll j
    exact h.right_free hj (List.mem_map_of_mem hm)

theorem lefts_perm : (res.pairs.map Pair.L ++ res.lonelyLefts).Perm L := by
  have hGet := Lists.get_perm h.lefts
  rw [h.pairs, h.lonelyLefts, List.map_map]
  rwa [List.map_map] at hGet

theorem rights_perm : (res.pairs.map Pair.R ++ res.lonelyRights).Perm R := by
  have hGet := Lists.get_perm h.rights
  rw [h.pairs, h.lonelyRights, List.map_map]
  rwa [List.map_map] at hGet

end Positions

/-- Elements at equal positions are paired if whatever one of them would rather
have stands further in front. The induction is on the position: what stands in
front is paired already. -/
theorem diagonal_mem {L : List α} {R : List β} {score : α → β → Int}
    {M : List (Fin L.length × Fin R.length)} (hStable : Stable (rank L R score) M) {n : Nat}
    (hL : n ≤ L.length) (hR : n ≤ R.length)
    (hMatch : ∀ k (hk : k < n),
      0 ≤ indexScore L R score ⟨k, hk.trans_le hL⟩ ⟨k, hk.trans_le hR⟩)
    (hRights : ∀ k (hk : k < n) j, 0 ≤ indexScore L R score ⟨k, hk.trans_le hL⟩ j →
      indexScore L R score ⟨k, hk.trans_le hL⟩ j <
        indexScore L R score ⟨k, hk.trans_le hL⟩ ⟨k, hk.trans_le hR⟩ → j.val < k)
    (hLefts : ∀ k (hk : k < n) i, 0 ≤ indexScore L R score i ⟨k, hk.trans_le hR⟩ →
      indexScore L R score i ⟨k, hk.trans_le hR⟩ <
        indexScore L R score ⟨k, hk.trans_le hL⟩ ⟨k, hk.trans_le hR⟩ → i.val < k)
    (k : Nat) (hk : k < n) : (⟨k, hk.trans_le hL⟩, ⟨k, hk.trans_le hR⟩) ∈ M := by
  induction k using Nat.strong_induction_on with
  | _ k ih =>
      rcases hStable.dominated _ _ (rank_nonneg_iff.mpr (hMatch k hk)) with
        ⟨j, hm, hLe⟩ | ⟨i, hm, hLe⟩
      · have hScore := rank_nonneg_iff.mp (hStable.nonneg _ hm)
        rcases lt_trichotomy j.val k with hj | hj | hj
        · have hOwn := ih j.val hj (hj.trans hk)
          have := congrArg Prod.fst (List.inj_on_of_nodup_map hStable.matching.right hm hOwn rfl)
          exact absurd (congrArg Fin.val this) hj.ne'
        · rwa [show j = ⟨k, hk.trans_le hR⟩ from Fin.ext hj] at hm
        · rcases (score_le_of_rank_le (hMatch k hk) hLe).lt_or_eq with hLt | hEq
          · exact absurd (hRights k hk j hScore hLt) hj.not_gt
          · exact absurd (rank_lt_of_before (hMatch k hk) hEq.ge (Or.inr ⟨rfl, hj⟩)) hLe.not_gt
      · have hScore := rank_nonneg_iff.mp (hStable.nonneg _ hm)
        rcases lt_trichotomy i.val k with hi | hi | hi
        · have hOwn := ih i.val hi (hi.trans hk)
          have := congrArg Prod.snd (List.inj_on_of_nodup_map hStable.matching.left hm hOwn rfl)
          exact absurd (congrArg Fin.val this) hi.ne'
        · rwa [show i = ⟨k, hk.trans_le hL⟩ from Fin.ext hi] at hm
        · rcases (score_le_of_rank_le (hMatch k hk) hLe).lt_or_eq with hLt | hEq
          · exact absurd (hLefts k hk i hScore hLt) hi.not_gt
          · exact absurd (rank_lt_of_before (hMatch k hk) hEq.ge (Or.inl hi)) hLe.not_gt

/-- For every pair of slices and every pure score the join is a stable greedy
matching. No element is lost or used twice, no pair has a negative score, and
every admissible pair that was not made is outranked at one of its ends. -/
theorem join_stable_greedy (L : List α) (R : List β) (score : α → β → Int) :
    ∃ (M : List (Fin L.length × Fin R.length)) (ll : List (Fin L.length))
      (lr : List (Fin R.length)),
      Positions L R (join L R score) M ll lr ∧ ll.Pairwise (· < ·) ∧ lr.Pairwise (· < ·) ∧
      (∀ p ∈ M, 0 ≤ score (L.get p.1) (R.get p.2)) ∧
      (∀ i j, 0 ≤ score (L.get i) (R.get j) → (i, j) ∉ M →
        (∃ j', (i, j') ∈ M ∧ score (L.get i) (R.get j') ≤ score (L.get i) (R.get j)) ∨
        (∃ i', (i', j) ∈ M ∧ score (L.get i') (R.get j) ≤ score (L.get i) (R.get j))) ∧
      (∀ i ∈ ll, ∀ j ∈ lr, score (L.get i) (R.get j) < 0) := by
  obtain ⟨M, ll, lr, hPositions, hLeft, hRight, hStable⟩ := join_spec L R score
  refine ⟨M, ll, lr, hPositions, hLeft, hRight, hStable.nonneg,
    fun i j hs _ => hStable.dominated i j hs, fun i hi j hj => ?_⟩
  exact hStable.negative_of_free (hPositions.left_free hi) (hPositions.right_free hj)

example : join [10, 11, 12] [13, 1, 2] (fun l r => l - r) =
    ⟨[⟨10, 2⟩, ⟨11, 1⟩], [12], [13]⟩ := by decide +kernel

/-- A score that never fails on the two slices runs the pure join. -/
theorem joinM_ok {ε : Type} (L : List α) (R : List β) (scoreM : α → β → Except ε Int)
    (score : α → β → Int) (h : ∀ l ∈ L, ∀ r ∈ R, scoreM l r = .ok (score l r)) :
    joinM L R scoreM = .ok (join L R score) := by
  have hScan : ∀ i js st, scanRights L R scoreM i js st =
      .ok (Id.run (scanRights (m := Id) L R score i js st)) := by
    intro i js st
    induction js generalizing st with
    | nil => rfl
    | cons j js ih =>
        rw [scanRights_cons, scanRights, h _ (List.get_mem L i) _ (List.get_mem R j)]
        change (if _ then _ else if indexScore L R score i j = 0 then _ else _) = _
        split_ifs
        all_goals first | rfl | exact ih _
  have hGenerate : ∀ is st, generate L R scoreM is st =
      .ok (Id.run (generate (m := Id) L R score is st)) := by
    intro is st
    induction is generalizing st with
    | nil => rfl
    | cons i is ih =>
        rw [generate, hScan]
        exact ih _
  rw [joinM, hGenerate]
  rfl

end Kelda.Join
