import Kelda.Lib.Text
import Kelda.Minion.Engine

/-! What the policy asks for in each table, in terms of the blueprint and
without the order of any walk. -/
namespace Kelda.Minion

open DB

variable {bp : Blueprint}

/-- The found images and the set of them agree, so that no image is skipped
before it has been found. -/
theorem mem_foldl_addImage (cs : List Blueprint.Container)
    (acc : List Blueprint.Image × Finset Blueprint.Image) (hAcc : ∀ im, im ∈ acc.2 → im ∈ acc.1)
    (im : Blueprint.Image) :
    im ∈ (cs.foldl addImage acc).1 ↔
      im ∈ acc.1 ∨ (im.dockerfile ≠ "" ∧ ∃ c ∈ cs, c.image = im) := by
  induction cs generalizing acc with
  | nil => simp
  | cons c cs ih =>
      obtain ⟨images, addedImages⟩ := acc
      rw [List.foldl_cons, addImage]
      split_ifs with hSkip
      · rw [ih _ hAcc]
        have hFound : c.image.dockerfile = "" ∨ c.image ∈ images := hSkip.imp_right (hAcc _)
        simp only [List.mem_cons, exists_eq_or_imp]
        constructor
        · rintro (h | ⟨h, hc⟩)
          · exact Or.inl h
          · exact Or.inr ⟨h, Or.inr hc⟩
        · rintro (h | ⟨h, rfl | hc⟩)
          · exact Or.inl h
          · exact Or.inl (hFound.resolve_left h)
          · exact Or.inr ⟨h, hc⟩
      · rw [ih]
        · simp only [not_or] at hSkip
          rw [List.mem_append, List.mem_singleton]
          simp only [List.mem_cons, exists_eq_or_imp]
          constructor
          · rintro ((h | rfl) | ⟨h, hc⟩)
            · exact Or.inl h
            · exact Or.inr ⟨hSkip.1, Or.inl rfl⟩
            · exact Or.inr ⟨h, Or.inr hc⟩
          · rintro (h | ⟨h, rfl | hc⟩)
            · exact Or.inl (Or.inl h)
            · exact Or.inl (Or.inr rfl)
            · exact Or.inr ⟨h, hc⟩
        · intro im' hIm
          rcases Finset.mem_insert.mp hIm with rfl | hIm
          · exact List.mem_append_right _ (List.mem_singleton_self _)
          · exact List.mem_append_left _ (hAcc im' hIm)

@[simp] theorem mem_queryImages {im : Blueprint.Image} :
    im ∈ queryImages bp ↔ im.dockerfile ≠ "" ∧ ∃ c ∈ bp.containers, c.image = im := by
  rw [queryImages, mem_foldl_addImage _ _ (by simp)]
  simp

theorem queryContainers_subset {ord : MapOrder} {r : Container}
    (h : r ∈ queryContainers ord bp) : ∃ c ∈ bp.containers, r = containerRow c := by
  obtain ⟨e, he, rfl⟩ := List.mem_map.mp h
  obtain ⟨c, hc, hEq⟩ := List.mem_map.mp (KeyedMap.mem_fill ((MapOrder.mem_walk _).mp he)).1
  exact ⟨c, hc, hEq.symm⟩

/-- With distinct hostnames no container is replaced by another. -/
theorem mem_queryContainers (hHosts : (bp.containers.map Blueprint.Container.hostname).Nodup)
    {ord : MapOrder} {r : Container} :
    r ∈ queryContainers ord bp ↔ ∃ c ∈ bp.containers, r = containerRow c := by
  refine ⟨queryContainers_subset, ?_⟩
  rintro ⟨c, hc, rfl⟩
  have hNodup : ((bp.containers.map containerRow).map Container.hostname).Nodup := by
    rw [List.map_map]
    exact hHosts
  have hPerm : (queryContainers ord bp).Perm (bp.containers.map containerRow) := by
    rw [queryContainers]
    exact ((ord.perm _).map _).trans (KeyedMap.fill_perm hNodup)
  exact hPerm.mem_iff.mpr (List.mem_map_of_mem hc)

/-- A connection of the blueprint, or one to the containers behind a load
balancer that a connection of the blueprint names. -/
def WantedConnection (bp : Blueprint) (c : Blueprint.Connection) : Prop :=
  c ∈ bp.connections ∨ ∃ c₀ ∈ bp.connections, ∃ lb ∈ bp.loadBalancers,
    lb.name ∈ c₀.toHosts ∧ c = ⟨c₀.fromHosts, lb.hostnames, c₀.minPort, c₀.maxPort⟩

theorem mem_expandConnections
    (hNames : (bp.loadBalancers.map Blueprint.LoadBalancer.name).Nodup)
    {c : Blueprint.Connection} : c ∈ expandConnections bp ↔ WantedConnection bp c := by
  rw [expandConnections, List.mem_append, WantedConnection]
  refine or_congr_right ?_
  simp only [List.mem_flatMap, List.mem_filterMap, Option.map_eq_some_iff, loadBalancerMap,
    KeyedMap.lookup_fill_iff hNames]
  constructor
  · rintro ⟨c₀, hc₀, dst, hTo, lb, ⟨hLb, rfl⟩, rfl⟩
    exact ⟨c₀, hc₀, lb, hLb, hTo, rfl⟩
  · rintro ⟨c₀, hc₀, lb, hLb, hTo, rfl⟩
    exact ⟨c₀, hc₀, lb.name, hTo, lb, ⟨hLb, rfl⟩, rfl⟩

/-- The hostnames that the bindings accept. -/
def ValidHost (host : String) : Prop :=
  host ≠ "" ∧ ∀ c ∈ host.toList, ('a' ≤ c ∧ c ≤ 'z') ∨ c.isDigit ∨ c = '-'

instance (host : String) : Decidable (ValidHost host) :=
  @instDecidableAnd _ _ _ (List.decidableBAll _ _)

theorem ValidHost.notMem {host : String} (h : ValidHost host) {c : Char}
    (hc : ¬(('a' ≤ c ∧ c ≤ 'z') ∨ c.isDigit ∨ c = '-')) : c ∉ host.toList :=
  fun hm => hc (h.2 c hm)

theorem formatSlice_eq (xs : List String) :
    Str.formatSlice xs =
      ("[" ++ (String.singleton ' ').intercalate xs) ++ String.singleton ']' := rfl

/-- The format of a slice of hostnames ends at its bracket, and the spaces
separate the hostnames. -/
theorem formatSlice_append_inj {xs ys : List String} (hx : ∀ x ∈ xs, ValidHost x)
    (hy : ∀ y ∈ ys, ValidHost y) {s t : String}
    (h : Str.formatSlice xs ++ s = Str.formatSlice ys ++ t) :
    xs = ys ∧ s = t := by
  have hBracket : ∀ {zs : List String}, (∀ z ∈ zs, ValidHost z) →
      ']' ∉ ("[" ++ (String.singleton ' ').intercalate zs).toList := by
    intro zs hz
    rw [String.toList_append, List.mem_append, not_or]
    exact ⟨by decide, Text.notMem_intercalate (by decide) (fun z hm => (hz z hm).notMem (by decide))⟩
  rw [formatSlice_eq, formatSlice_eq, @String.append_assoc ("[" ++ _),
    @String.append_assoc ("[" ++ _)] at h
  obtain ⟨hFirst, hRest⟩ := Text.string_append_sep_inj (hBracket hx) (hBracket hy) h
  refine ⟨Text.intercalate_inj ?_ ?_ ((String.append_right_inj "[").mp hFirst), hRest⟩
  · exact fun x hm => ⟨(hx x hm).notMem (by decide), (hx x hm).1⟩
  · exact fun y hm => ⟨(hy y hm).notMem (by decide), (hy y hm).1⟩

/-- The key of a connection determines it. -/
theorem connectionKey_inj {f f' t t' : List String} {a a' b b' : Int}
    (hf : ∀ x ∈ f, ValidHost x) (hf' : ∀ x ∈ f', ValidHost x) (ht : ∀ x ∈ t, ValidHost x)
    (ht' : ∀ x ∈ t', ValidHost x) (h : connectionKey f t a b = connectionKey f' t' a' b') :
    f = f' ∧ t = t' ∧ a = a' ∧ b = b' := by
  simp only [connectionKey, String.append_assoc] at h
  obtain ⟨rfl, hTo⟩ := formatSlice_append_inj hf hf' h
  obtain ⟨rfl, hPorts⟩ := formatSlice_append_inj ht ht' (String.append_right_inj " " |>.mp hTo)
  have hSpace : ∀ n : Int, ' ' ∉ n.repr.toList := by
    intro n hm
    rcases Text.isDigit_of_mem_int_repr hm with h | h
    · exact absurd h (by decide)
    · exact absurd h (by decide)
  obtain ⟨hMin, hMax⟩ := Text.string_append_sep_inj (hSpace a) (hSpace a')
    (String.append_right_inj " " |>.mp hPorts)
  exact ⟨rfl, rfl, Int.repr_inj.mp hMin, Int.repr_inj.mp hMax⟩

/-- The hosts that listen on a public port, once for each connection that
lets the public network reach them there. -/
def listeners (port : Int) (connections : List Connection) : List String :=
  connections.flatMap (fun conn =>
    if Blueprint.publicInternetLabel ∈ conn.fromHosts ∧ conn.minPort = port then
      Str.sliceFilterOut conn.toHosts Blueprint.publicInternetLabel
    else [])

theorem lookup_addPublicPort (ports : AList (fun _ : Int => List String)) (conn : Connection)
    (port : Int) :
    ((addPublicPort ports conn).lookup port).getD [] =
      (ports.lookup port).getD [] ++ listeners port [conn] := by
  simp only [addPublicPort, listeners, Str.sliceContains_iff, List.flatMap_singleton]
  by_cases hPublic : Blueprint.publicInternetLabel ∈ conn.fromHosts
  · by_cases hPort : conn.minPort = port
    · subst hPort
      simp [hPublic]
    · rw [if_pos hPublic, if_neg (by simp [hPort]), AList.lookup_insert_ne (Ne.symm hPort)]
      simp
  · simp [hPublic]

theorem lookup_publicPorts (connections : List Connection) (port : Int) :
    ((publicPorts connections).lookup port).getD [] = listeners port connections := by
  induction connections using List.reverseRecOn with
  | nil => rfl
  | append_singleton connections conn ih =>
      rw [publicPorts, List.foldl_append, List.foldl_cons, List.foldl_nil, lookup_addPublicPort]
      change ((publicPorts connections).lookup port).getD [] ++ _ = _
      rw [ih, listeners, listeners, listeners, List.flatMap_append]

/-- Two different positions of a list hold `a` and `b`. -/
theorem exists_ne_positions_iff {α : Type} [DecidableEq α] {l : List α} {a b : α} :
    (∃ i j : Nat, i ≠ j ∧ l[i]? = some a ∧ l[j]? = some b) ↔ a ∈ l ∧ b ∈ l.erase a := by
  have hErase : ∀ i : Nat, l[i]? = some a → (l.eraseIdx i).Perm (l.erase a) := by
    intro i hi
    obtain ⟨hLt, rfl⟩ := List.getElem?_eq_some_iff.mp hi
    have hMem := List.getElem_mem hLt
    exact ((List.getElem_cons_eraseIdx_perm hLt).trans (List.perm_cons_erase hMem)).cons_inv
  constructor
  · rintro ⟨i, j, hne, hi, hj⟩
    refine ⟨List.mem_of_getElem? hi, (hErase i hi).mem_iff.mp ?_⟩
    exact List.mem_eraseIdx_iff_getElem?.mpr ⟨j, Ne.symm hne, hj⟩
  · rintro ⟨ha, hb⟩
    obtain ⟨i, hi⟩ := List.mem_iff_getElem?.mp ha
    obtain ⟨j, hne, hj⟩ := List.mem_eraseIdx_iff_getElem?.mp ((hErase i hi).mem_iff.mpr hb)
    exact ⟨i, j, Ne.symm hne, hi, hj⟩

/-- The rule that keeps two containers off the same machine. -/
def exclusiveRule (tgt other : String) : Placement :=
  { id := 0, exclusive := true, targetContainer := tgt, otherContainer := other }

/-- A rule for two different positions among the listeners of a public port.
A host that two connections make public on one port gets a rule with itself. -/
def PortPlacement (connections : List Connection) (p : Placement) : Prop :=
  ∃ port tgt other, tgt ∈ listeners port connections ∧
    other ∈ (listeners port connections).erase tgt ∧ p = exclusiveRule tgt other

theorem mem_pairPlacements {cids : List String} {p : Placement} :
    p ∈ pairPlacements cids ↔
      ∃ tgt other, tgt ∈ cids ∧ other ∈ cids.erase tgt ∧ p = exclusiveRule tgt other := by
  simp only [pairPlacements, List.mem_flatMap, List.mem_filterMap, Prod.exists,
    List.mem_zipIdx_iff_getElem?, Option.ite_none_left_eq_some, Option.some.injEq]
  constructor
  · rintro ⟨tgt, i, hi, other, j, hj, hne, rfl⟩
    obtain ⟨hTgt, hOther⟩ := exists_ne_positions_iff.mp ⟨i, j, hne, hi, hj⟩
    exact ⟨tgt, other, hTgt, hOther, rfl⟩
  · rintro ⟨tgt, other, hTgt, hOther, rfl⟩
    obtain ⟨i, j, hne, hi, hj⟩ := exists_ne_positions_iff.mpr ⟨hTgt, hOther⟩
    exact ⟨tgt, i, hi, other, j, hj, hne, rfl⟩

theorem mem_portPlacements {ord : MapOrder} {connections : List Connection} {p : Placement} :
    p ∈ portPlacements ord connections ↔ PortPlacement connections p := by
  have hPair : PortPlacement connections p ↔
      ∃ port, p ∈ pairPlacements (((publicPorts connections).lookup port).getD []) := by
    simp only [PortPlacement, lookup_publicPorts, mem_pairPlacements]
  rw [hPair, portPlacements, List.mem_flatMap]
  constructor
  · rintro ⟨e, he, hp⟩
    refine ⟨e.1, ?_⟩
    rw [AList.mem_lookup_iff.mpr ((MapOrder.mem_walk _).mp he)]
    exact hp
  · rintro ⟨port, hp⟩
    cases hLookup : (publicPorts connections).lookup port with
    | none => simp [hLookup, pairPlacements] at hp
    | some cids =>
        rw [hLookup] at hp
        exact ⟨⟨port, cids⟩, (MapOrder.mem_walk _).mpr (AList.mem_lookup_iff.mp hLookup), hp⟩

/-- The rules do not depend on the order of the connections. -/
theorem PortPlacement.perm {connections connections' : List Connection} {p : Placement}
    (hPerm : connections.Perm connections') (h : PortPlacement connections p) :
    PortPlacement connections' p := by
  obtain ⟨port, tgt, other, hTgt, hOther, rfl⟩ := h
  have hListeners : (listeners port connections).Perm (listeners port connections') :=
    hPerm.flatMap_right _
  exact ⟨port, tgt, other, hListeners.mem_iff.mp hTgt, (hListeners.erase tgt).mem_iff.mp hOther, rfl⟩

end Kelda.Minion
