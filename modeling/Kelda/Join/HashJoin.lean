import Kelda.Join.Join
import Kelda.Lib.HashMap

/-! The hash join of package join. The join table is a map from keys to left
elements, which is filled from the left slice, shrunk while the right slice is
scanned, and finally walked in an order chosen by the runtime. A nil key
function of the source is the identity here. -/
namespace Kelda.Join

open KeyedMap (entry keys_map_entry kerase_map_entry foldl_get)

variable {α β κ : Type} [DecidableEq κ]

/-- The local variables of the second loop of `hashJoin`. -/
structure HashState (α β κ : Type) where
  pairs : List (Pair α β)
  lonelyRights : List β
  joinTable : AList (fun _ : κ => α)

/-- One right element either takes the entry of its key out of the table or is
lonely. -/
def queryStep (rKey : β → κ) (st : HashState α β κ) (rElem : β) : HashState α β κ :=
  match st.joinTable.lookup (rKey rElem) with
  | some entry =>
    { st with
      pairs := st.pairs ++ [⟨entry, rElem⟩]
      joinTable := st.joinTable.erase (rKey rElem) }
  | none => { st with lonelyRights := st.lonelyRights ++ [rElem] }

/-- In the table a later left element has replaced an earlier one with the same
key. The lonely lefts are what is left in it, in the order of the walk. -/
def hashJoin (ord : MapOrder) (lSlice : List α) (rSlice : List β) (lKey : α → κ) (rKey : β → κ) :
    Result α β :=
  let st := rSlice.foldl (queryStep rKey) ⟨[], [], KeyedMap.fill lKey lSlice⟩
  { pairs := st.pairs
    lonelyLefts := (ord.walk st.joinTable.entries).map Sigma.snd
    lonelyRights := st.lonelyRights }

section Spec

variable {L : List α} {R : List β} {lKey : α → κ} {rKey : β → κ}

/-- The indices behind the second loop after the right indices `done`. `T₀` is
the filled table and `T` what is left of it. -/
structure Queried (lKey : α → κ) (rKey : β → κ) (T₀ : List (Fin L.length))
    (done : List (Fin R.length)) (st : HashState α β κ)
    (M : List (Fin L.length × Fin R.length)) (T : List (Fin L.length))
    (lr : List (Fin R.length)) : Prop where
  pairs : st.pairs = M.map (fun p => ⟨L.get p.1, R.get p.2⟩)
  lonelyRights : st.lonelyRights = lr.map R.get
  table : st.joinTable.entries = T.map (entry L lKey)
  lefts : (M.map Prod.fst ++ T).Perm T₀
  rights : (M.map Prod.snd ++ lr).Perm done
  sameKey : ∀ p ∈ M, lKey (L.get p.1) = rKey (R.get p.2)
  unmatched : ∀ i ∈ T, ∀ j ∈ done, lKey (L.get i) ≠ rKey (R.get j)
  taken : ∀ j ∈ lr, (∃ i ∈ T₀, lKey (L.get i) = rKey (R.get j)) →
    ∃ p ∈ M, rKey (R.get p.2) = rKey (R.get j)

section Step

variable {T₀ T : List (Fin L.length)} {done lr : List (Fin R.length)} {st : HashState α β κ}
  {M : List (Fin L.length × Fin R.length)} {j : Fin R.length}

omit [DecidableEq κ] in
theorem Queried.keys (h : Queried lKey rKey T₀ done st M T lr) :
    st.joinTable.keys = T.map (fun i => lKey (L.get i)) := by
  rw [AList.keys, h.table, keys_map_entry]

/-- Without an entry the right element stays alone. -/
theorem Queried.miss (h : Queried lKey rKey T₀ done st M T lr)
    (hLookup : st.joinTable.lookup (rKey (R.get j)) = none) :
    Queried lKey rKey T₀ (done ++ [j]) (queryStep rKey st (R.get j)) M T (lr ++ [j]) := by
  have hAbsent : ∀ i ∈ T, lKey (L.get i) ≠ rKey (R.get j) := by
    intro i hi hEq
    apply AList.lookup_eq_none.mp hLookup
    rw [AList.mem_keys, h.keys, ← hEq]
    exact List.mem_map_of_mem hi
  simp only [queryStep, hLookup]
  refine ⟨h.pairs, by simp [h.lonelyRights], h.table, h.lefts, ?_, h.sameKey, ?_, ?_⟩
  · rw [← List.append_assoc]
    exact h.rights.append_right [j]
  · intro i hi j' hj'
    rcases List.mem_append.mp hj' with hj' | hj'
    · exact h.unmatched i hi j' hj'
    · exact (List.mem_singleton.mp hj') ▸ hAbsent i hi
  · intro j' hj' hLeft
    rcases List.mem_append.mp hj' with hj' | hj'
    · exact h.taken j' hj' hLeft
    · obtain rfl := List.mem_singleton.mp hj'
      obtain ⟨i, hi, hEq⟩ := hLeft
      rcases List.mem_append.mp (h.lefts.mem_iff.mpr hi) with hi | hi
      · obtain ⟨p, hp, rfl⟩ := List.mem_map.mp hi
        exact ⟨p, hp, (h.sameKey p hp).symm.trans hEq⟩
      · exact (hAbsent i hi hEq).elim

/-- The table has one entry for a key, so the index that is erased is the one
that was looked up. -/
theorem Queried.exists_erased {l : α} (h : Queried lKey rKey T₀ done st M T lr)
    (hLookup : st.joinTable.lookup (rKey (R.get j)) = some l) :
    ∃ i T', l = L.get i ∧ lKey (L.get i) = rKey (R.get j) ∧ T.Perm (i :: T') ∧
      (st.joinTable.erase (rKey (R.get j))).entries = T'.map (entry L lKey) ∧
      ∀ i' ∈ T', lKey (L.get i') ≠ rKey (R.get j) := by
  have hMem : (⟨rKey (R.get j), l⟩ : Σ _ : κ, α) ∈ T.map (entry L lKey) :=
    h.table ▸ AList.mem_lookup_iff.mp hLookup
  obtain ⟨i₀, hi₀, hEntry⟩ := List.mem_map.mp hMem
  obtain ⟨i, T₁, T₂, -, hKey, hT, hErase⟩ :=
    List.exists_of_eraseP (p := fun i => rKey (R.get j) = lKey (L.get i)) hi₀ (by
      simpa using (congrArg Sigma.fst hEntry).symm)
  replace hKey : lKey (L.get i) = rKey (R.get j) := (of_decide_eq_true hKey).symm
  have hPerm : T.Perm (i :: (T₁ ++ T₂)) := hT ▸ List.perm_middle
  refine ⟨i, T₁ ++ T₂, ?_, hKey, hPerm, ?_, ?_⟩
  · have hi : entry L lKey i ∈ st.joinTable.entries :=
      h.table ▸ List.mem_map_of_mem (hPerm.mem_iff.mpr (List.mem_cons_self ..))
    have hFound := AList.mem_lookup_iff.mpr hi
    rw [hKey, hLookup] at hFound
    exact Option.some.inj hFound
  · change List.kerase _ _ = _
    rw [h.table, kerase_map_entry, hErase]
  · have hNodup : (T.map (fun i => lKey (L.get i))).Nodup := h.keys ▸ st.joinTable.keys_nodup
    have hCons := (hPerm.map (fun i => lKey (L.get i))).nodup_iff.mp hNodup
    intro i' hi' hEq
    exact (List.nodup_cons.mp hCons).1 (List.mem_map.mpr ⟨i', hi', hEq.trans hKey.symm⟩)

/-- An entry is taken out of the table and paired. -/
theorem Queried.hit {l : α} (h : Queried lKey rKey T₀ done st M T lr)
    (hLookup : st.joinTable.lookup (rKey (R.get j)) = some l) :
    ∃ i T', Queried lKey rKey T₀ (done ++ [j]) (queryStep rKey st (R.get j)) (M ++ [(i, j)]) T'
      lr := by
  obtain ⟨i, T', rfl, hKey, hPerm, hErase, hRest⟩ := h.exists_erased hLookup
  refine ⟨i, T', ?_⟩
  simp only [queryStep, hLookup]
  refine ⟨by simp [h.pairs], h.lonelyRights, hErase, ?_, ?_, ?_, ?_, ?_⟩
  · refine List.Perm.trans ?_ h.lefts
    rw [List.map_append, List.append_assoc]
    exact (List.Perm.refl _).append hPerm.symm
  · rw [List.map_append, List.append_assoc]
    refine List.Perm.trans ?_ (h.rights.append_right [j])
    rw [List.append_assoc]
    exact (List.Perm.refl _).append List.perm_append_comm
  · intro p hp
    rcases List.mem_append.mp hp with hp | hp
    · exact h.sameKey p hp
    · obtain rfl := List.mem_singleton.mp hp
      exact hKey
  · intro i' hi' j' hj'
    rcases List.mem_append.mp hj' with hj' | hj'
    · exact h.unmatched i' (hPerm.mem_iff.mpr (List.mem_cons_of_mem _ hi')) j' hj'
    · exact (List.mem_singleton.mp hj') ▸ hRest i' hi'
  · intro j' hj' hLeft
    obtain ⟨p, hp, hEq⟩ := h.taken j' hj' hLeft
    exact ⟨p, List.mem_append_left _ hp, hEq⟩

theorem Queried.step (h : Queried lKey rKey T₀ done st M T lr) (j : Fin R.length) :
    ∃ M' T' lr', Queried lKey rKey T₀ (done ++ [j]) (queryStep rKey st (R.get j)) M' T' lr' := by
  cases hLookup : st.joinTable.lookup (rKey (R.get j)) with
  | none => exact ⟨M, T, lr ++ [j], h.miss hLookup⟩
  | some l =>
      obtain ⟨i, T', hNext⟩ := h.hit hLookup
      exact ⟨M ++ [(i, j)], T', lr, hNext⟩

end Step

theorem Queried.run {T₀ : List (Fin L.length)} (js done : List (Fin R.length))
    {st : HashState α β κ} {M : List (Fin L.length × Fin R.length)} {T : List (Fin L.length)}
    {lr : List (Fin R.length)} (h : Queried lKey rKey T₀ done st M T lr) :
    ∃ M' T' lr', Queried lKey rKey T₀ (done ++ js)
      (js.foldl (fun st j => queryStep rKey st (R.get j)) st) M' T' lr' := by
  induction js generalizing done st M T lr with
  | nil => exact ⟨M, T, lr, by simpa using h⟩
  | cons j js ih =>
      obtain ⟨M', T', lr', hStep⟩ := h.step j
      obtain ⟨M'', T'', lr'', hRun⟩ := ih (done ++ [j]) hStep
      exact ⟨M'', T'', lr'', by simpa using hRun⟩

/-- What a hash join does for arbitrary keys. The right slice is partitioned;
of the left slice one index for every key is kept, and a lonely left has a key
that no right element has. -/
structure Joined (L : List α) (R : List β) (lKey : α → κ) (rKey : β → κ) (res : Result α β)
    (M : List (Fin L.length × Fin R.length)) (ll : List (Fin L.length))
    (lr : List (Fin R.length)) : Prop where
  pairs : res.pairs = M.map (fun p => ⟨L.get p.1, R.get p.2⟩)
  lonelyLefts : res.lonelyLefts = ll.map L.get
  lonelyRights : res.lonelyRights = lr.map R.get
  leftKeys : ((M.map Prod.fst ++ ll).map (fun i => lKey (L.get i))).Nodup
  covers : ∀ i, ∃ i' ∈ M.map Prod.fst ++ ll, lKey (L.get i') = lKey (L.get i)
  rights : (M.map Prod.snd ++ lr).Perm (List.finRange R.length)
  sameKey : ∀ p ∈ M, lKey (L.get p.1) = rKey (R.get p.2)
  unmatched : ∀ i ∈ ll, ∀ j, lKey (L.get i) ≠ rKey (R.get j)
  taken : ∀ j ∈ lr, (∃ i, lKey (L.get i) = rKey (R.get j)) →
    ∃ p ∈ M, rKey (R.get p.2) = rKey (R.get j)

theorem hashJoin_joined (ord : MapOrder) (L : List α) (R : List β) (lKey : α → κ) (rKey : β → κ) :
    ∃ M ll lr, Joined L R lKey rKey (hashJoin ord L R lKey rKey) M ll lr := by
  obtain ⟨T₀, hTable, hCover⟩ := KeyedMap.fill_indices lKey L
  have hStart : Queried lKey rKey T₀ ([] : List (Fin R.length))
      ⟨[], [], KeyedMap.fill lKey L⟩ [] T₀ [] :=
    ⟨rfl, rfl, hTable, by simp, by simp, by simp, by simp, by simp⟩
  obtain ⟨M, T, lr, hRun⟩ := hStart.run (List.finRange R.length)
  rw [← foldl_get, List.nil_append] at hRun
  obtain ⟨ll, hPerm, hWalk⟩ := List.Perm.exists_map_eq
    ((ord.perm _).trans (List.Perm.of_eq hRun.table))
  have hLefts : (M.map Prod.fst ++ ll).Perm T₀ :=
    ((List.Perm.refl _).append hPerm).trans hRun.lefts
  refine ⟨M, ll, lr, hRun.pairs, ?_, hRun.lonelyRights, ?_, ?_, hRun.rights, hRun.sameKey, ?_, ?_⟩
  · simp only [hashJoin, hWalk, List.map_map]
    rfl
  · rw [(hLefts.map _).nodup_iff, ← keys_map_entry, ← hTable]
    exact (KeyedMap.fill lKey L).keys_nodup
  · intro i
    obtain ⟨i', hi', hEq⟩ := hCover i
    exact ⟨i', hLefts.mem_iff.mpr hi', hEq⟩
  · exact fun i hi j => hRun.unmatched i (hPerm.mem_iff.mp hi) j (List.mem_finRange j)
  · rintro j hj ⟨i, hEq⟩
    obtain ⟨i', hi', hEq'⟩ := hCover i
    exact hRun.taken j hj ⟨i', hi', hEq'.trans hEq⟩

/-- Nothing is lost and nothing is duplicated: the result partitions the
positions of both slices, pairs equal keys, and leaves no match unmade. -/
def Exact (L : List α) (R : List β) (lKey : α → κ) (rKey : β → κ) (res : Result α β) : Prop :=
  ∃ (M : List (Fin L.length × Fin R.length)) (ll : List (Fin L.length))
    (lr : List (Fin R.length)), Positions L R res M ll lr ∧
      (∀ p ∈ M, lKey (L.get p.1) = rKey (R.get p.2)) ∧
      (∀ i ∈ ll, ∀ j ∈ lr, lKey (L.get i) ≠ rKey (R.get j))

omit [DecidableEq κ] in
theorem Joined.lefts_nodup {res : Result α β} {M : List (Fin L.length × Fin R.length)}
    {ll : List (Fin L.length)} {lr : List (Fin R.length)}
    (h : Joined L R lKey rKey res M ll lr) : (M.map Prod.fst ++ ll).Nodup :=
  h.leftKeys.of_map _

/-- A hash join is exact precisely when no two left positions share a key.
Repeated keys in the right slice do no harm. -/
theorem hashJoin_exact_iff (ord : MapOrder) (L : List α) (R : List β) (lKey : α → κ)
    (rKey : β → κ) :
    Exact L R lKey rKey (hashJoin ord L R lKey rKey) ↔ (L.map lKey).Nodup := by
  obtain ⟨M, ll, lr, h⟩ := hashJoin_joined ord L R lKey rKey
  have hKeys : L.map lKey = (List.finRange L.length).map (fun i => lKey (L.get i)) := by
    conv_lhs => rw [← List.map_get_finRange L]
    rw [List.map_map]
    rfl
  constructor
  · rintro ⟨M', ll', lr', hPositions, -, -⟩
    -- the left positions that survive are as many as the slice has
    have hCount : (M.map Prod.fst ++ ll).length = L.length := by
      have hPairs := congrArg List.length (h.pairs.symm.trans hPositions.pairs)
      have hLonely := congrArg List.length (h.lonelyLefts.symm.trans hPositions.lonelyLefts)
      have hAll := hPositions.lefts.length_eq
      simp only [List.length_map, List.length_append, List.length_finRange] at *
      omega
    have hPerm : (M.map Prod.fst ++ ll).Perm (List.finRange L.length) := by
      refine List.Subperm.perm_of_length_le (h.lefts_nodup.subperm ?_) ?_
      · exact fun i _ => List.mem_finRange i
      · rw [hCount, List.length_finRange]
    rw [hKeys]
    exact (hPerm.map _).nodup_iff.mp h.leftKeys
  · intro hNodup
    rw [hKeys] at hNodup
    refine ⟨M, ll, lr, ⟨h.pairs, h.lonelyLefts, h.lonelyRights, ?_, h.rights⟩, h.sameKey,
      fun i hi j _ => h.unmatched i hi j⟩
    refine (List.perm_ext_iff_of_nodup h.lefts_nodup (List.nodup_finRange _)).mpr (fun i => ?_)
    refine ⟨fun _ => List.mem_finRange i, fun _ => ?_⟩
    obtain ⟨i', hi', hEq⟩ := h.covers i
    have hSame : i' = i :=
      List.inj_on_of_nodup_map hNodup (List.mem_finRange i') (List.mem_finRange i) hEq
    exact hSame ▸ hi'

/-- Two equal left elements and no right element: one of the two is lost. -/
theorem hashJoin_loses_left :
    ¬Exact ["a", "a"] [] id id (hashJoin MapOrder.stored ["a", "a"] ([] : List String) id id) := by
  rintro ⟨M, ll, lr, hPositions, -, -⟩
  have hCount := hPositions.lefts.length_eq
  have hPairs : M.length = 0 := by
    simpa [hashJoin] using (congrArg List.length hPositions.pairs).symm
  have hLonely : ll.length = 1 := by
    have hResult : (hashJoin MapOrder.stored ["a", "a"] ([] : List String) id id).lonelyLefts =
      ["a"] := by decide +kernel
    simpa [hResult] using (congrArg List.length hPositions.lonelyLefts).symm
  simp [hPairs, hLonely] at hCount

end Spec

/-- The elements of a hash join, without their positions. This is what the
reconciliation loops rely on, also when keys are repeated. -/
structure Reconciles (L : List α) (R : List β) (lKey : α → κ) (rKey : β → κ)
    (res : Result α β) : Prop where
  rights : (res.pairs.map Pair.R ++ res.lonelyRights).Perm R
  leftKeys : ((res.pairs.map Pair.L ++ res.lonelyLefts).map lKey).Nodup
  lefts : res.pairs.map Pair.L ++ res.lonelyLefts ⊆ L
  covers : ∀ l ∈ L, ∃ l' ∈ res.pairs.map Pair.L ++ res.lonelyLefts, lKey l' = lKey l
  sameKey : ∀ p ∈ res.pairs, lKey p.L = rKey p.R
  unmatched : ∀ l ∈ res.lonelyLefts, ∀ r ∈ R, lKey l ≠ rKey r
  taken : ∀ r ∈ res.lonelyRights, ∀ l ∈ L, lKey l = rKey r → ∃ p ∈ res.pairs, rKey p.R = rKey r

theorem hashJoin_reconciles (ord : MapOrder) (L : List α) (R : List β) (lKey : α → κ)
    (rKey : β → κ) : Reconciles L R lKey rKey (hashJoin ord L R lKey rKey) := by
  obtain ⟨M, ll, lr, h⟩ := hashJoin_joined ord L R lKey rKey
  have hLefts : (hashJoin ord L R lKey rKey).pairs.map Pair.L ++
      (hashJoin ord L R lKey rKey).lonelyLefts = (M.map Prod.fst ++ ll).map L.get := by
    rw [h.pairs, h.lonelyLefts, List.map_map, List.map_append, List.map_map]
    rfl
  have hRights : (hashJoin ord L R lKey rKey).pairs.map Pair.R ++
      (hashJoin ord L R lKey rKey).lonelyRights = (M.map Prod.snd ++ lr).map R.get := by
    rw [h.pairs, h.lonelyRights, List.map_map, List.map_append, List.map_map]
    rfl
  constructor
  · rw [hRights]
    exact (h.rights.map R.get).trans (List.Perm.of_eq (List.map_get_finRange R))
  · rw [hLefts, List.map_map]
    exact h.leftKeys
  · rw [hLefts]
    intro l hl
    obtain ⟨i, -, rfl⟩ := List.mem_map.mp hl
    exact List.get_mem L i
  · intro l hl
    obtain ⟨i, rfl⟩ := List.get_of_mem hl
    obtain ⟨i', hi', hEq⟩ := h.covers i
    exact ⟨L.get i', hLefts ▸ List.mem_map_of_mem hi', hEq⟩
  · intro p hp
    rw [h.pairs] at hp
    obtain ⟨q, hq, rfl⟩ := List.mem_map.mp hp
    exact h.sameKey q hq
  · intro l hl r hr
    rw [h.lonelyLefts] at hl
    obtain ⟨i, hi, rfl⟩ := List.mem_map.mp hl
    obtain ⟨j, rfl⟩ := List.get_of_mem hr
    exact h.unmatched i hi j
  · intro r hr l hl hEq
    rw [h.lonelyRights] at hr
    obtain ⟨j, hj, rfl⟩ := List.mem_map.mp hr
    obtain ⟨i, rfl⟩ := List.get_of_mem hl
    obtain ⟨q, hq, hSame⟩ := h.taken j hj ⟨i, hEq⟩
    exact ⟨_, h.pairs ▸ List.mem_map_of_mem hq, hSame⟩

namespace Reconciles

variable {L : List α} {R : List β} {lKey : α → κ} {rKey : β → κ} {res : Result α β}
  (h : Reconciles L R lKey rKey res)

omit [DecidableEq κ]

include h

theorem right_mem {p : Pair α β} (hp : p ∈ res.pairs) : p.R ∈ R :=
  h.rights.mem_iff.mp (List.mem_append_left _ (List.mem_map_of_mem hp))

theorem left_mem {p : Pair α β} (hp : p ∈ res.pairs) : p.L ∈ L :=
  h.lefts (List.mem_append_left _ (List.mem_map_of_mem hp))

/-- Elements that share their key with each other only are a pair. -/
theorem mem_pairs_of_own_key {l : α} {r : β} (hl : l ∈ L) (hr : r ∈ R) (hKey : lKey l = rKey r)
    (hOwn : ∀ l' ∈ L, lKey l' = lKey l → l' = l) (hOwn' : ∀ r' ∈ R, rKey r' = rKey r → r' = r) :
    ⟨l, r⟩ ∈ res.pairs := by
  obtain ⟨l', hl', hSame⟩ := h.covers l hl
  obtain rfl := hOwn l' (h.lefts hl') hSame
  rcases List.mem_append.mp hl' with hPair | hLonely
  · obtain ⟨p, hp, rfl⟩ := List.mem_map.mp hPair
    have hRight : p.R = r := hOwn' p.R (h.right_mem hp) ((h.sameKey p hp).symm.trans hKey)
    rwa [← hRight]
  · exact absurd hKey (h.unmatched l' hLonely r hr)

/-- No left element is lonely if all their keys occur on the right. -/
theorem lonelyLefts_eq_nil_iff : res.lonelyLefts = [] ↔ ∀ l ∈ L, ∃ r ∈ R, rKey r = lKey l := by
  constructor
  · intro hNone l hl
    obtain ⟨l', hl', hKey⟩ := h.covers l hl
    rw [hNone, List.append_nil] at hl'
    obtain ⟨p, hp, rfl⟩ := List.mem_map.mp hl'
    exact ⟨p.R, h.right_mem hp, (h.sameKey p hp).symm.trans hKey⟩
  · intro hAll
    refine List.eq_nil_iff_forall_not_mem.mpr (fun l hl => ?_)
    obtain ⟨r, hr, hKey⟩ := hAll l (h.lefts (List.mem_append_right _ hl))
    exact h.unmatched l hl r hr hKey.symm

/-- A lonely right element without a namesake has a key of its own. -/
theorem unmatched_right (hNodup : (R.map rKey).Nodup) {r : β} (hr : r ∈ res.lonelyRights) {l : α}
    (hl : l ∈ L) : lKey l ≠ rKey r := by
  intro hKey
  obtain ⟨p, hp, hSame⟩ := h.taken r hr l hl hKey
  have hKeys := (h.rights.map rKey).nodup_iff.mpr hNodup
  rw [List.map_append] at hKeys
  refine (List.nodup_append'.mp hKeys).2.2 (List.mem_map_of_mem (List.mem_map_of_mem hp)) ?_
  rw [hSame]
  exact List.mem_map_of_mem hr

/-- No two pairs share a key. -/
theorem pairs_keys_nodup : ((res.pairs.map Pair.R).map rKey).Nodup := by
  have hKeys : (res.pairs.map Pair.R).map rKey = (res.pairs.map Pair.L).map lKey := by
    rw [List.map_map, List.map_map]
    exact List.map_congr_left (fun p hp => (h.sameKey p hp).symm)
  have hLefts := h.leftKeys
  rw [List.map_append] at hLefts
  rw [hKeys]
  exact (List.nodup_append'.mp hLefts).1

/-- No right element is lonely if they have keys of their own and all of them
occur on the left. -/
theorem lonelyRights_eq_nil_iff :
    res.lonelyRights = [] ↔ (R.map rKey).Nodup ∧ ∀ r ∈ R, ∃ l ∈ L, lKey l = rKey r := by
  constructor
  · intro hNone
    have hRights := h.rights
    rw [hNone, List.append_nil] at hRights
    constructor
    · rw [← (hRights.map rKey).nodup_iff]
      exact h.pairs_keys_nodup
    · intro r hr
      obtain ⟨p, hp, rfl⟩ := List.mem_map.mp (hRights.mem_iff.mpr hr)
      exact ⟨p.L, h.left_mem hp, h.sameKey p hp⟩
  · rintro ⟨hNodup, hAll⟩
    refine List.eq_nil_iff_forall_not_mem.mpr (fun r hr => ?_)
    obtain ⟨l, hl, hKey⟩ := hAll r (h.rights.mem_iff.mp (List.mem_append_right _ hr))
    exact h.unmatched_right hNodup hr hl hKey

theorem mem_lonelyLefts_keys_iff {k : κ} :
    k ∈ res.lonelyLefts.map lKey ↔ k ∈ L.map lKey ∧ k ∉ R.map rKey := by
  constructor
  · intro hk
    obtain ⟨l, hl, rfl⟩ := List.mem_map.mp hk
    refine ⟨List.mem_map_of_mem (h.lefts (List.mem_append_right _ hl)), fun hR => ?_⟩
    obtain ⟨r, hr, hKey⟩ := List.mem_map.mp hR
    exact h.unmatched l hl r hr hKey.symm
  · rintro ⟨hL, hR⟩
    obtain ⟨l, hl, rfl⟩ := List.mem_map.mp hL
    obtain ⟨l', hl', hKey⟩ := h.covers l hl
    rcases List.mem_append.mp hl' with hPair | hLonely
    · obtain ⟨p, hp, rfl⟩ := List.mem_map.mp hPair
      rw [← hKey, h.sameKey p hp] at hR
      exact absurd (List.mem_map_of_mem (h.right_mem hp)) hR
    · exact hKey ▸ List.mem_map_of_mem hLonely

theorem mem_lonelyRights_keys_iff (hNodup : (R.map rKey).Nodup) {k : κ} :
    k ∈ res.lonelyRights.map rKey ↔ k ∈ R.map rKey ∧ k ∉ L.map lKey := by
  constructor
  · intro hk
    obtain ⟨r, hr, rfl⟩ := List.mem_map.mp hk
    refine ⟨List.mem_map_of_mem (h.rights.mem_iff.mp (List.mem_append_right _ hr)), fun hL => ?_⟩
    obtain ⟨l, hl, hKey⟩ := List.mem_map.mp hL
    exact h.unmatched_right hNodup hr hl hKey
  · rintro ⟨hR, hL⟩
    obtain ⟨r, hr, rfl⟩ := List.mem_map.mp hR
    rcases List.mem_append.mp (h.rights.mem_iff.mpr hr) with hPair | hLonely
    · obtain ⟨p, hp, rfl⟩ := List.mem_map.mp hPair
      rw [← h.sameKey p hp] at hL
      exact absurd (List.mem_map_of_mem (h.left_mem hp)) hL
    · exact List.mem_map_of_mem hLonely

/-- Without repeated keys on the left no element is lost. -/
theorem lefts_perm (hL : (L.map lKey).Nodup) :
    (res.pairs.map Pair.L ++ res.lonelyLefts).Perm L := by
  refine (List.perm_ext_iff_of_nodup (h.leftKeys.of_map _) (hL.of_map _)).mpr (fun l => ?_)
  refine ⟨fun hl => h.lefts hl, fun hl => ?_⟩
  obtain ⟨l', hl', hKey⟩ := h.covers l hl
  rwa [← List.inj_on_of_nodup_map hL (h.lefts hl') hl hKey]

/-- Between sides with the same keys nothing is lonely, if the right ones do not
repeat a key. -/
theorem lonely_eq_nil (hR : (R.map rKey).Nodup) (hKeys : ∀ k, k ∈ R.map rKey ↔ k ∈ L.map lKey) :
    res.lonelyLefts = [] ∧ res.lonelyRights = [] := by
  constructor
  · rw [h.lonelyLefts_eq_nil_iff]
    intro l hl
    exact List.mem_map.mp ((hKeys (lKey l)).mpr (List.mem_map_of_mem hl))
  · rw [h.lonelyRights_eq_nil_iff]
    exact ⟨hR, fun r hr => List.mem_map.mp ((hKeys (rKey r)).mp (List.mem_map_of_mem hr))⟩

/-- The matched right elements and the lonely left ones have all left keys. -/
theorem keys_perm (hL : (L.map lKey).Nodup) :
    ((res.pairs.map Pair.R).map rKey ++ res.lonelyLefts.map lKey).Perm (L.map lKey) := by
  have hKeys : (res.pairs.map Pair.R).map rKey = (res.pairs.map Pair.L).map lKey := by
    rw [List.map_map, List.map_map]
    exact List.map_congr_left (fun p hp => (h.sameKey p hp).symm)
  rw [hKeys, ← List.map_append]
  exact (h.lefts_perm hL).map lKey

theorem lonelyLefts_keys_nodup : (res.lonelyLefts.map lKey).Nodup := by
  have hKeys := h.leftKeys
  rw [List.map_append] at hKeys
  exact (List.nodup_append'.mp hKeys).2.1

end Reconciles

theorem mem_foldl_queryStep {rKey : β → κ} {p : Pair α β} (R : List β) {st : HashState α β κ}
    (h : p ∈ st.pairs) : p ∈ (R.foldl (queryStep rKey) st).pairs := by
  induction R generalizing st with
  | nil => exact h
  | cons r R ih =>
      rw [List.foldl_cons]
      apply ih
      rw [queryStep]
      split
      · exact List.mem_append_left _ h
      · exact h

theorem foldl_queryStep_lonelyRights {rKey : β → κ} (R : List β) (st : HashState α β κ) :
    ∃ rest, (R.foldl (queryStep rKey) st).lonelyRights = st.lonelyRights ++ rest := by
  induction R generalizing st with
  | nil => exact ⟨[], (List.append_nil _).symm⟩
  | cons r R ih =>
      obtain ⟨rest, hRest⟩ := ih (queryStep rKey st r)
      rw [List.foldl_cons, hRest, queryStep]
      split
      · exact ⟨rest, rfl⟩
      · exact ⟨r :: rest, by rw [List.append_assoc, List.singleton_append]⟩

/-- If no right element is lonely, the pairs follow the right slice. -/
theorem hashJoin_pairs_rights {ord : MapOrder} {L : List α} {R : List β} {lKey : α → κ}
    {rKey : β → κ} (h : (hashJoin ord L R lKey rKey).lonelyRights = []) :
    (hashJoin ord L R lKey rKey).pairs.map Pair.R = R := by
  have hRun : ∀ (R : List β) (st : HashState α β κ),
      (R.foldl (queryStep rKey) st).lonelyRights = [] →
      (R.foldl (queryStep rKey) st).pairs.map Pair.R = st.pairs.map Pair.R ++ R := by
    intro R
    induction R with
    | nil => exact fun st _ => (List.append_nil _).symm
    | cons r R ih =>
        intro st hNone
        rw [List.foldl_cons] at hNone ⊢
        rw [ih _ hNone]
        obtain ⟨rest, hRest⟩ := foldl_queryStep_lonelyRights R (queryStep rKey st r)
        rw [hRest] at hNone
        rw [queryStep] at hNone ⊢
        split at hNone
        · rw [List.map_append, List.append_assoc]
          rfl
        · simp at hNone
  exact hRun R _ h

/-- The only right element of a key is paired with the element of the key in the
table. -/
theorem mem_pairs_of_lookup {rKey : β → κ} {R : List β} {r : β} {l : α} {st : HashState α β κ}
    (hLookup : st.joinTable.lookup (rKey r) = some l) (hr : r ∈ R)
    (hNodup : (R.map rKey).Nodup) : ⟨l, r⟩ ∈ (R.foldl (queryStep rKey) st).pairs := by
  induction R generalizing st with
  | nil => cases hr
  | cons r' R ih =>
      rw [List.map_cons, List.nodup_cons] at hNodup
      rw [List.foldl_cons]
      rcases List.mem_cons.mp hr with rfl | hr
      · apply mem_foldl_queryStep
        rw [queryStep, hLookup]
        exact List.mem_append_right _ (List.mem_singleton_self _)
      · have hKey : rKey r ≠ rKey r' := fun hEq => hNodup.1 (hEq ▸ List.mem_map_of_mem hr)
        refine ih ?_ hr hNodup.2
        rw [queryStep]
        split
        · rw [AList.lookup_erase_ne hKey]
          exact hLookup
        · exact hLookup

/-- A right element that takes the entry of its key is the first of that key. -/
theorem first_of_mem_pairs {rKey : β → κ} {p : Pair α β} (R : List β) {st : HashState α β κ}
    (h : p ∈ (R.foldl (queryStep rKey) st).pairs) :
    p ∈ st.pairs ∨ st.joinTable.lookup (rKey p.R) = some p.L ∧
      R.find? (fun r => rKey r = rKey p.R) = some p.R := by
  induction R generalizing st with
  | nil => exact Or.inl h
  | cons r R ih =>
      rw [List.foldl_cons] at h
      have hLater : ∀ l, (queryStep rKey st r).joinTable.lookup (rKey p.R) = some l →
          rKey r ≠ rKey p.R ∧ st.joinTable.lookup (rKey p.R) = some l := by
        intro l hLookup
        rw [queryStep] at hLookup
        split at hLookup
        · by_cases hKey : rKey r = rKey p.R
          · rw [hKey, AList.lookup_erase] at hLookup
            cases hLookup
          · rw [AList.lookup_erase_ne (fun hEq => hKey hEq.symm)] at hLookup
            exact ⟨hKey, hLookup⟩
        · next hNone =>
            refine ⟨fun hKey => ?_, hLookup⟩
            rw [hKey, hLookup] at hNone
            cases hNone
      rcases ih h with hPair | ⟨hLookup, hFind⟩
      · rw [queryStep] at hPair
        split at hPair
        · next entry hEntry =>
            rcases List.mem_append.mp hPair with hPair | hPair
            · exact Or.inl hPair
            · obtain rfl := List.mem_singleton.mp hPair
              exact Or.inr ⟨hEntry, by simp⟩
        · exact Or.inl hPair
      · obtain ⟨hKey, hLookup⟩ := hLater _ hLookup
        refine Or.inr ⟨hLookup, ?_⟩
        rw [List.find?_cons_of_neg (by simpa using hKey), hFind]

/-- The table only shrinks. -/
theorem mem_joinTable_of_foldl {rKey : β → κ} {e : Σ _ : κ, α} (R : List β)
    {st : HashState α β κ} (h : e ∈ (R.foldl (queryStep rKey) st).joinTable.entries) :
    e ∈ st.joinTable.entries := by
  induction R generalizing st with
  | nil => exact h
  | cons r R ih =>
      have hStep := ih h
      rw [queryStep] at hStep
      split at hStep
      · exact (List.kerase_sublist _ _).subset hStep
      · exact hStep

/-- The left elements of the result are those that the table was filled with. -/
theorem lookup_of_result {ord : MapOrder} {L : List α} {R : List β} {lKey : α → κ} {rKey : β → κ}
    {l : α} (h : l ∈ (hashJoin ord L R lKey rKey).pairs.map Pair.L ++
      (hashJoin ord L R lKey rKey).lonelyLefts) :
    (KeyedMap.fill lKey L).lookup (lKey l) = some l := by
  rcases List.mem_append.mp h with h | h
  · obtain ⟨p, hp, rfl⟩ := List.mem_map.mp h
    rcases first_of_mem_pairs R hp with hNone | ⟨hLookup, -⟩
    · cases hNone
    · rwa [(hashJoin_reconciles ord L R lKey rKey).sameKey p hp]
  · obtain ⟨e, he, rfl⟩ := List.mem_map.mp h
    have hEntry := mem_joinTable_of_foldl R (ord.mem_walk.mp he)
    rw [(KeyedMap.mem_fill hEntry).2]
    exact AList.mem_lookup_iff.mpr hEntry

def Pair.swap (p : Pair α β) : Pair β α := ⟨p.R, p.L⟩

/-- The result of a join with the sides exchanged. -/
def Result.swap (res : Result α β) : Result β α where
  pairs := res.pairs.map Pair.swap
  lonelyLefts := res.lonelyRights
  lonelyRights := res.lonelyLefts

omit [DecidableEq κ] in
/-- Without repeated keys the join treats both sides alike. -/
theorem Reconciles.swap {L : List α} {R : List β} {lKey : α → κ} {rKey : β → κ}
    {res : Result α β} (h : Reconciles L R lKey rKey res) (hL : (L.map lKey).Nodup)
    (hR : (R.map rKey).Nodup) : Reconciles R L rKey lKey res.swap := by
  have hLefts : (res.swap.pairs.map Pair.L ++ res.swap.lonelyLefts).Perm R := by
    rw [Result.swap, List.map_map]
    exact h.rights
  have hRights : (res.swap.pairs.map Pair.R ++ res.swap.lonelyRights) =
      res.pairs.map Pair.L ++ res.lonelyLefts := by
    rw [Result.swap, List.map_map]
    rfl
  constructor
  · rw [hRights]
    exact h.lefts_perm hL
  · exact (hLefts.map rKey).nodup_iff.mpr hR
  · exact hLefts.subset
  · exact fun r hr => ⟨r, hLefts.mem_iff.mpr hr, rfl⟩
  · intro p hp
    obtain ⟨q, hq, rfl⟩ := List.mem_map.mp hp
    exact (h.sameKey q hq).symm
  · exact fun r hr l hl hKey => h.unmatched_right hR hr hl hKey.symm
  · exact fun l hl r hr hKey => absurd hKey.symm (h.unmatched l hl r hr)

end Kelda.Join
