import Kelda.Minion.Wanted

/-! The placements that keep containers of one public port apart: which there are,
how often each of them occurs, and that no order makes a difference. -/
namespace Kelda.Minion

open DB

variable {connections connections' : List Connection} {port : Int} {a b : String}

section Pairs

/-- The positions other than one of them. -/
theorem filterMap_zipIdx_ne {α β : Type} (f : α → β) (l : List α) (start i : Nat) :
    (l.zipIdx start).filterMap (fun e => if start + i = e.2 then none else some (f e.1)) =
      (l.eraseIdx i).map f := by
  induction l generalizing start i with
  | nil => rfl
  | cons x l ih =>
      rw [List.zipIdx_cons, List.filterMap_cons]
      cases i with
      | zero =>
          -- the first position is left out, and all others come after it
          have hLater : ∀ e ∈ l.zipIdx (start + 1),
              (if start + 0 = e.2 then none else some (f e.1)) = some (f e.1) := by
            intro e he
            have hLe := List.le_snd_of_mem_zipIdx he
            exact if_neg (by omega)
          rw [if_pos (Nat.add_zero start), List.filterMap_congr hLater]
          have hMap : (l.zipIdx (start + 1)).filterMap (fun e => some (f e.1)) =
              ((l.zipIdx (start + 1)).map Prod.fst).map f := by
            rw [List.map_map, ← List.filterMap_eq_map]
            rfl
          rw [hMap, List.zipIdx_map_fst]
          rfl
      | succ i =>
          rw [if_neg (by simp)]
          have hStart : start + (i + 1) = start + 1 + i := by omega
          simp only [List.eraseIdx_cons_succ, List.map_cons, hStart, ih]

/-- Each listener, with the others. -/
theorem pairPlacements_perm_erase (cids : List String) :
    (pairPlacements cids).Perm
      (cids.flatMap (fun tgt => (cids.erase tgt).map (exclusiveRule tgt))) := by
  have hPairs : pairPlacements cids = cids.zipIdx.flatMap (fun e =>
      (cids.eraseIdx e.2).map (exclusiveRule e.1)) := by
    apply List.flatMap_congr
    intro e _
    rw [← filterMap_zipIdx_ne (exclusiveRule e.1) cids 0 e.2, Nat.zero_add]
    rfl
  have hErase : ∀ e ∈ cids.zipIdx, ((cids.eraseIdx e.2).map (exclusiveRule e.1)).Perm
      ((cids.erase e.1).map (exclusiveRule e.1)) := by
    intro e he
    obtain ⟨hLt, hEq⟩ := List.getElem?_eq_some_iff.mp (List.mem_zipIdx_iff_getElem?.mp he)
    have hMem : e.1 ∈ cids := hEq ▸ List.getElem_mem hLt
    have hCons := List.getElem_cons_eraseIdx_perm hLt
    rw [hEq] at hCons
    exact (hCons.trans (List.perm_cons_erase hMem)).cons_inv.map _
  have hFst : cids.flatMap (fun tgt => (cids.erase tgt).map (exclusiveRule tgt)) =
      cids.zipIdx.flatMap (fun e => (cids.erase e.1).map (exclusiveRule e.1)) := by
    conv_lhs => rw [← List.zipIdx_map_fst 0 cids, List.flatMap_map]
    rw [List.zipIdx_map_fst]
  rw [hPairs, hFst]
  exact List.Perm.flatMap_left _ hErase

theorem pairPlacements_perm {cids cids' : List String} (h : cids.Perm cids') :
    (pairPlacements cids).Perm (pairPlacements cids') := by
  refine (pairPlacements_perm_erase cids).trans (List.Perm.trans ?_
    (pairPlacements_perm_erase cids').symm)
  exact h.flatMap (fun tgt _ => (h.erase tgt).map _)

theorem exclusiveRule_inj {tgt other tgt' other' : String} :
    exclusiveRule tgt other = exclusiveRule tgt' other' ↔ tgt = tgt' ∧ other = other' := by
  simp [exclusiveRule]

/-- A rule is made for each choice of its target and then of another position. -/
theorem count_pairPlacements (cids : List String) (a b : String) :
    (pairPlacements cids).count (exclusiveRule a b) = cids.count a * (cids.erase a).count b := by
  have hRun : ∀ tgts : List String,
      (tgts.flatMap (fun tgt => (cids.erase tgt).map (exclusiveRule tgt))).count
        (exclusiveRule a b) = tgts.count a * (cids.erase a).count b := by
    intro tgts
    induction tgts with
    | nil => simp
    | cons tgt tgts ih =>
        rw [List.flatMap_cons, List.count_append, ih, List.count_cons]
        by_cases hTgt : tgt = a
        · have hInj : Function.Injective (exclusiveRule a) :=
            fun _ _ hEq => (exclusiveRule_inj.mp hEq).2
          rw [hTgt, List.count_map_of_injective _ _ hInj, if_pos (beq_self_eq_true a)]
          ring
        · have hNone : ((cids.erase tgt).map (exclusiveRule tgt)).count (exclusiveRule a b) = 0 := by
            rw [List.count_eq_zero]
            intro hMem
            obtain ⟨other, -, hEq⟩ := List.mem_map.mp hMem
            exact hTgt (exclusiveRule_inj.mp hEq).1
          rw [hNone, if_neg (by simpa using hTgt)]
          ring
  rw [(pairPlacements_perm_erase cids).count_eq, hRun]

theorem count_pairPlacements_symm (cids : List String) (a b : String) :
    (pairPlacements cids).count (exclusiveRule a b) =
      (pairPlacements cids).count (exclusiveRule b a) := by
  by_cases hEq : a = b
  · rw [hEq]
  · rw [count_pairPlacements, count_pairPlacements, List.count_erase_of_ne (Ne.symm hEq),
      List.count_erase_of_ne hEq, Nat.mul_comm]

end Pairs

section Ports

theorem listeners_perm (h : connections.Perm connections') (port : Int) :
    (listeners port connections).Perm (listeners port connections') :=
  h.flatMap_right _

theorem mem_publicPorts_keys :
    port ∈ (publicPorts connections).keys ↔
      ∃ conn ∈ connections, Blueprint.publicInternetLabel ∈ conn.fromHosts ∧
        conn.minPort = port := by
  rw [← AList.mem_keys]
  induction connections using List.reverseRecOn with
  | nil => simp [publicPorts]
  | append_singleton connections conn ih =>
      have hStep : publicPorts (connections ++ [conn]) =
          addPublicPort (publicPorts connections) conn := by
        rw [publicPorts, List.foldl_append]
        rfl
      rw [hStep, addPublicPort]
      by_cases hPublic : Blueprint.publicInternetLabel ∈ conn.fromHosts
      · rw [if_pos (Str.sliceContains_iff.mpr hPublic), AList.mem_insert, ih]
        simp [hPublic, or_comm, eq_comm, or_and_right, exists_or]
      · rw [if_neg (fun hContains => hPublic (Str.sliceContains_iff.mp hContains)), ih]
        simp [hPublic, or_and_right, exists_or]

/-- The entries of the map of ports, by its keys. -/
theorem publicPorts_entries (connections : List Connection) :
    (publicPorts connections).entries =
      (publicPorts connections).keys.map (fun port => ⟨port, listeners port connections⟩) := by
  rw [AList.keys, List.keys, List.map_map]
  conv_lhs => rw [← List.map_id (publicPorts connections).entries]
  apply List.map_congr_left
  intro e he
  have hLookup : (publicPorts connections).lookup e.1 = some e.2 := AList.mem_lookup_iff.mpr he
  rw [Function.comp_apply, ← lookup_publicPorts, hLookup]
  rfl

/-- The rules port by port, in the order of the walk. -/
theorem portPlacements_perm_keys (ord : MapOrder) (connections : List Connection) :
    (portPlacements ord connections).Perm ((publicPorts connections).keys.flatMap
      (fun port => pairPlacements (listeners port connections))) := by
  refine ((ord.perm _).flatMap_right _).trans ?_
  rw [publicPorts_entries, List.flatMap_map]

theorem publicPorts_keys_perm (h : connections.Perm connections') :
    (publicPorts connections).keys.Perm (publicPorts connections').keys := by
  rw [List.perm_ext_iff_of_nodup (publicPorts connections).keys_nodup
    (publicPorts connections').keys_nodup]
  intro port
  simp only [mem_publicPorts_keys, h.mem_iff]

/-- A placement for the other one of its two containers. -/
def exchanged (p : Placement) : Placement :=
  { p with targetContainer := p.otherContainer, otherContainer := p.targetContainer }

theorem eq_exclusiveRule_of_mem {ord : MapOrder} {p : Placement}
    (h : p ∈ portPlacements ord connections) :
    p = exclusiveRule p.targetContainer p.otherContainer := by
  obtain ⟨port, tgt, other, -, -, rfl⟩ := mem_portPlacements.mp h
  rfl

theorem count_exclusiveRule_symm (ord : MapOrder) (connections : List Connection) (a b : String) :
    (portPlacements ord connections).count (exclusiveRule a b) =
      (portPlacements ord connections).count (exclusiveRule b a) := by
  rw [(portPlacements_perm_keys ord connections).count_eq,
    (portPlacements_perm_keys ord connections).count_eq, List.count_flatMap, List.count_flatMap]
  congr 1
  apply List.map_congr_left
  intro port _
  exact count_pairPlacements_symm _ a b

/-- The same rules are made as often in every order, and each of them as often as the
one with its containers exchanged. -/
theorem portPlacements_order (ord ord' : MapOrder) (h : connections.Perm connections') :
    (portPlacements ord connections).Perm (portPlacements ord' connections') ∧
      ∀ p, (portPlacements ord connections).count p =
        (portPlacements ord connections).count (exchanged p) := by
  constructor
  · refine (portPlacements_perm_keys ord connections).trans (List.Perm.trans ?_
      (portPlacements_perm_keys ord' connections').symm)
    exact (publicPorts_keys_perm h).flatMap
      (fun port _ => pairPlacements_perm (listeners_perm h port))
  · intro p
    by_cases hRule : p = exclusiveRule p.targetContainer p.otherContainer
    · rw [hRule]
      exact count_exclusiveRule_symm ord connections _ _
    · rw [List.count_eq_zero_of_not_mem (fun hp => hRule (eq_exclusiveRule_of_mem hp)),
        List.count_eq_zero_of_not_mem (fun hp => hRule ?_)]
      exact congrArg exchanged (eq_exclusiveRule_of_mem hp)

/-- Three containers on two ports, with the connections in two orders. -/
theorem portPlacements_order_reversed :
    (portPlacements .stored
        [{ id := 1, fromHosts := ["public"], toHosts := ["a", "b"], minPort := 80 },
          { id := 2, fromHosts := ["public"], toHosts := ["c"], minPort := 80 }]).Perm
      (portPlacements .reversed
        [{ id := 2, fromHosts := ["public"], toHosts := ["c"], minPort := 80 },
          { id := 1, fromHosts := ["public"], toHosts := ["a", "b"], minPort := 80 }]) ∧
      ∀ p, (portPlacements .stored
          [{ id := 1, fromHosts := ["public"], toHosts := ["a", "b"], minPort := 80 },
            { id := 2, fromHosts := ["public"], toHosts := ["c"], minPort := 80 }]).count p =
        (portPlacements .stored
          [{ id := 1, fromHosts := ["public"], toHosts := ["a", "b"], minPort := 80 },
            { id := 2, fromHosts := ["public"], toHosts := ["c"], minPort := 80 }]).count
          (exchanged p) :=
  portPlacements_order .stored .reversed (List.Perm.swap ..)

end Ports

section Conflicts

/-- Different containers that the public network reaches on one port. -/
def Conflict (connections : List Connection) (a b : String) : Prop :=
  a ≠ b ∧ a ≠ Blueprint.publicInternetLabel ∧ b ≠ Blueprint.publicInternetLabel ∧
    ∃ c ∈ connections, ∃ d ∈ connections, Blueprint.publicInternetLabel ∈ c.fromHosts ∧
      Blueprint.publicInternetLabel ∈ d.fromHosts ∧ c.minPort = d.minPort ∧ a ∈ c.toHosts ∧
      b ∈ d.toHosts

/-- No container is made public on one port twice. -/
structure Unrepeated (connections : List Connection) : Prop where
  within : ∀ c ∈ connections, Blueprint.publicInternetLabel ∈ c.fromHosts →
    (Str.sliceFilterOut c.toHosts Blueprint.publicInternetLabel).Nodup
  between : connections.Pairwise (fun c d => Blueprint.publicInternetLabel ∈ c.fromHosts →
    Blueprint.publicInternetLabel ∈ d.fromHosts → c.minPort = d.minPort →
    ∀ a ∈ c.toHosts, a ∈ d.toHosts → a = Blueprint.publicInternetLabel)

theorem mem_listeners :
    a ∈ listeners port connections ↔ a ≠ Blueprint.publicInternetLabel ∧
      ∃ c ∈ connections, Blueprint.publicInternetLabel ∈ c.fromHosts ∧ c.minPort = port ∧
        a ∈ c.toHosts := by
  rw [listeners, List.mem_flatMap]
  constructor
  · rintro ⟨c, hc, ha⟩
    split_ifs at ha with hPort
    · obtain ⟨hTo, hNe⟩ := Str.mem_sliceFilterOut.mp ha
      exact ⟨hNe, c, hc, hPort.1, hPort.2, hTo⟩
    · cases ha
  · rintro ⟨hNe, c, hc, hPublic, hPort, hTo⟩
    refine ⟨c, hc, ?_⟩
    rw [if_pos ⟨hPublic, hPort⟩]
    exact Str.mem_sliceFilterOut.mpr ⟨hTo, hNe⟩

theorem nodup_listeners_iff :
    (∀ port, (listeners port connections).Nodup) ↔ Unrepeated connections := by
  simp only [listeners, List.nodup_flatMap]
  constructor
  · intro h
    constructor
    · intro c hc hPublic
      have hNodup := (h c.minPort).1 c hc
      rwa [if_pos ⟨hPublic, rfl⟩] at hNodup
    · rw [List.pairwise_iff_forall_sublist]
      intro c d hSublist hPublic hPublic' hPort a hc hd
      have hDisjoint := List.pairwise_iff_forall_sublist.mp (h c.minPort).2 hSublist
      rw [Function.onFun, if_pos ⟨hPublic, rfl⟩, if_pos ⟨hPublic', hPort.symm⟩] at hDisjoint
      by_contra hNe
      exact hDisjoint (Str.mem_sliceFilterOut.mpr ⟨hc, hNe⟩) (Str.mem_sliceFilterOut.mpr ⟨hd, hNe⟩)
  · intro h port
    constructor
    · intro c hc
      split_ifs with hPort
      · exact h.within c hc hPort.1
      · exact List.nodup_nil
    · refine h.between.imp (fun {c d} hBetween => ?_)
      intro a hc hd
      dsimp only at hc hd
      split_ifs at hc hd with hPort hPort'
      · obtain ⟨hTo, hNe⟩ := Str.mem_sliceFilterOut.mp hc
        exact hNe (hBetween hPort.1 hPort'.1 (hPort.2.trans hPort'.2.symm) a hTo
          (Str.mem_sliceFilterOut.mp hd).1)
      · cases hd
      · cases hc
      · cases hc

theorem mem_portPlacements_rule {ord : MapOrder} :
    exclusiveRule a b ∈ portPlacements ord connections ↔
      ∃ port, a ∈ listeners port connections ∧ b ∈ (listeners port connections).erase a := by
  rw [mem_portPlacements, PortPlacement]
  constructor
  · rintro ⟨port, tgt, other, hTgt, hOther, hEq⟩
    obtain ⟨rfl, rfl⟩ := exclusiveRule_inj.mp hEq
    exact ⟨port, hTgt, hOther⟩
  · rintro ⟨port, hTgt, hOther⟩
    exact ⟨port, a, b, hTgt, hOther, rfl⟩

/-- Rules for different containers are those of the conflicts. -/
theorem mem_portPlacements_of_ne {ord : MapOrder} (hNe : a ≠ b) :
    exclusiveRule a b ∈ portPlacements ord connections ↔ Conflict connections a b := by
  simp only [mem_portPlacements_rule, List.mem_erase_of_ne (Ne.symm hNe), mem_listeners]
  constructor
  · rintro ⟨port, ⟨hA, c, hc, hPublic, hPort, hTo⟩, hB, d, hd, hPublic', hPort', hTo'⟩
    exact ⟨hNe, hA, hB, c, hc, d, hd, hPublic, hPublic', hPort.trans hPort'.symm, hTo, hTo'⟩
  · rintro ⟨-, hA, hB, c, hc, d, hd, hPublic, hPublic', hPort, hTo, hTo'⟩
    exact ⟨d.minPort, ⟨hA, c, hc, hPublic, hPort, hTo⟩, hB, d, hd, hPublic', rfl, hTo'⟩

/-- The rules are exactly those of the conflicts if no container is made public on
one port twice. Otherwise it is kept apart from itself. -/
theorem portPlacements_exact_iff (connections : List Connection) :
    (∀ ord a b, exclusiveRule a b ∈ portPlacements ord connections ↔ Conflict connections a b) ↔
      Unrepeated connections := by
  rw [← nodup_listeners_iff]
  constructor
  · intro hExact port
    rw [List.nodup_iff_count_le_one]
    intro a
    by_contra hTwice
    have hErase : a ∈ (listeners port connections).erase a := by
      rw [← List.count_pos_iff, List.count_erase_self]
      omega
    have hRule := (hExact .stored a a).mp
      (mem_portPlacements_rule.mpr ⟨port, List.mem_of_mem_erase hErase, hErase⟩)
    exact hRule.1 rfl
  · intro hNodup ord a b
    by_cases hEq : a = b
    · subst hEq
      have hNone : ¬exclusiveRule a a ∈ portPlacements ord connections := by
        rw [mem_portPlacements_rule]
        rintro ⟨port, -, hErase⟩
        exact ((hNodup port).mem_erase_iff.mp hErase).1 rfl
      exact iff_of_false hNone (fun hConflict => hConflict.1 rfl)
    · exact mem_portPlacements_of_ne hEq

/-- A container that is public both by itself and behind a load balancer. -/
theorem container_excludes_itself :
    exclusiveRule "app" "app" ∈ portPlacements .stored
      [{ id := 1, fromHosts := ["public"], toHosts := ["app"], minPort := 80, maxPort := 80 },
        { id := 2, fromHosts := ["public"], toHosts := ["app", "web"], minPort := 80,
          maxPort := 80 }] := by
  decide

end Conflicts

end Kelda.Minion
