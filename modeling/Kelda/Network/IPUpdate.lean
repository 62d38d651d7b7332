import Kelda.Network.IPPool

/-! What one call of updateIPsOnce does: it is a number of attempts to hand out
addresses to the containers and load balancers that want one. -/
namespace Kelda.Network

open DB Database Net IPDef Allocation

section Routes

/-- The subnet of a route meets the container subnet and contains the
address. -/
def routeContains (ip subnetStr : String) : Bool :=
  match parseCIDR subnetStr with
  | .ok subnet => subnetIntersects keldaSubnet subnet && subnet.contains (parseIP ip)
  | .error _ => false

/-- The host subnets of the workers. -/
def workerSubnets (view : Database) : List String :=
  ((view.rows .minion).filter (fun m => m.role = .worker)).flatMap Minion.hostSubnets

/-- The subnet of some worker cannot be parsed. -/
def BadRoute (view : Database) : Prop := ∃ s ∈ workerSubnets view, ∃ err, parseCIDR s = .error err

/-- Some worker has a route into the container subnet that contains the
address. -/
def onWorkerRoute (view : Database) (ip : String) : Bool :=
  (workerSubnets view).any (routeContains ip)

/-- An owner with this address is to be given another one. -/
def wantsIP (view : Database) (ip : String) : Bool := ip = "" || onWorkerRoute view ip

variable {ords : Nat → MapOrder} {view : Database} {subnetBlacklist : List IPNet}

theorem foldlM_addSubnet_ok {subnets : List String} {bl bl' : List IPNet}
    (h : subnets.foldlM addSubnet bl = .ok bl') (ip : String) :
    ipBlacklisted ip bl' = (ipBlacklisted ip bl || subnets.any (routeContains ip)) := by
  induction subnets generalizing bl with
  | nil =>
      cases h
      simp
  | cons s subnets ih =>
      rw [List.foldlM_cons, addSubnet] at h
      cases hParse : parseCIDR s with
      | error err =>
          rw [hParse] at h
          cases h
      | ok subnet =>
          rw [hParse] at h
          dsimp only at h
          rw [List.any_cons, ← Bool.or_assoc]
          by_cases hMeets : subnetIntersects keldaSubnet subnet = true
          · rw [if_pos hMeets] at h
            rw [ih h]
            simp [ipBlacklisted, routeContains, hParse, hMeets]
          · rw [if_neg hMeets] at h
            rw [ih h]
            simp [routeContains, hParse, hMeets]

theorem foldlM_addSubnet_error (subnets : List String) (bl : List IPNet) :
    (∃ err, subnets.foldlM addSubnet bl = .error err) ↔
      ∃ s ∈ subnets, ∃ err, parseCIDR s = .error err := by
  induction subnets generalizing bl with
  | nil => simp [pure, Except.pure]
  | cons s subnets ih =>
      rw [List.foldlM_cons, addSubnet]
      cases hParse : parseCIDR s with
      | error err => simp [hParse, bind, Except.bind]
      | ok subnet =>
          dsimp only
          split_ifs <;> simp [hParse, bind, Except.bind, ih]

/-- The loops over workers and their subnets collect all of them. -/
theorem mem_collect (ms : List Minion) (collected : List String) (s : String) :
    s ∈ ms.foldl (fun subnets m =>
        m.hostSubnets.foldl (fun subnets subnet => subnets.insert subnet) subnets) collected ↔
      s ∈ collected ∨ ∃ m ∈ ms, s ∈ m.hostSubnets := by
  refine List.foldl_iff (P := fun l : List String => s ∈ l) (fun l m => ?_) ms collected
  have hInner := List.foldl_iff (P := fun l : List String => s ∈ l) (Q := fun a => s = a)
    (f := fun (l : List String) a => l.insert a)
    (fun l a => by rw [List.mem_insert_iff, or_comm]) m.hostSubnets l
  simpa using hInner

theorem mem_workerSubnets_iff (ord ord' : MapOrder) (s : String) :
    s ∈ ord'.walk ((view.select ord .minion (fun m => decide (m.role = .worker))).foldl
        (fun subnets m => m.hostSubnets.foldl (fun subnets subnet => subnets.insert subnet) subnets)
          []) ↔ s ∈ workerSubnets view := by
  rw [MapOrder.mem_walk, mem_collect, workerSubnets, List.mem_flatMap,
    or_iff_right List.not_mem_nil]
  refine exists_congr (fun m => and_congr_left' ?_)
  rw [List.mem_filter]
  exact view.mem_select

theorem makeSubnetBlacklist_ok (h : makeSubnetBlacklist ords view = .ok subnetBlacklist)
    (ip : String) : ipBlacklisted ip subnetBlacklist = onWorkerRoute view ip := by
  rw [foldlM_addSubnet_ok h, onWorkerRoute, Bool.eq_iff_iff]
  simp only [ipBlacklisted, List.any_nil, Bool.false_or, List.any_eq_true]
  exact exists_congr (fun s => and_congr_left' (mem_workerSubnets_iff _ _ s))

theorem makeSubnetBlacklist_error (ords : Nat → MapOrder) (view : Database) :
    (∃ err, makeSubnetBlacklist ords view = .error err) ↔ BadRoute view := by
  rw [makeSubnetBlacklist, foldlM_addSubnet_error]
  exact exists_congr (fun s => and_congr_left' (mem_workerSubnets_iff _ _ s))

end Routes

section Owners

/-- The owner of an address: its table and ID. -/
abbrev OwnerID := Owner × Nat

def Owner.key (o : Owner) (r : RowOf o.table) : OwnerID := (o, getID o.table r)

@[simp] theorem Owner.key_withIP {o : Owner} {ip : String} {r : RowOf o.table} :
    o.key (o.withIP ip r) = o.key r := by
  rw [Owner.key, Owner.getID_withIP, Owner.key]

/-- The addresses of one table. -/
def Owner.entries (o : Owner) (rows : List (RowOf o.table)) : List (OwnerID × String) :=
  rows.map (fun r => (o.key r, o.ip r))

/-- The addresses of all owners. -/
def owners (view : Database) : List (OwnerID × String) :=
  [Owner.container, Owner.loadBalancer].flatMap (fun o => o.entries (view.rows o.table))

theorem mem_owners {view : Database} {e : OwnerID × String} :
    e ∈ owners view ↔ ∃ o : Owner, ∃ r ∈ view.rows o.table, (o.key r, o.ip r) = e := by
  simp only [owners, List.mem_flatMap, Owner.entries, List.mem_map]
  refine exists_congr (fun o => and_iff_right ?_)
  cases o <;> simp

theorem Owner.mem_owners {o : Owner} {view : Database} {r : RowOf o.table}
    (h : r ∈ view.rows o.table) : (o.key r, o.ip r) ∈ owners view :=
  Network.mem_owners.mpr ⟨o, r, h, rfl⟩

theorem Owner.mem_keys_entries {o : Owner} {rows : List (RowOf o.table)} {k : OwnerID}
    (h : k ∈ (o.entries rows).map Prod.fst) : k.1 = o := by
  rw [Owner.entries, List.map_map] at h
  obtain ⟨r, -, rfl⟩ := List.mem_map.mp h
  rfl

theorem nodup_owners (view : Database) : ((owners view).map Prod.fst).Nodup := by
  have hPart : ∀ o : Owner, ((o.entries (view.rows o.table)).map Prod.fst).Nodup := by
    intro o
    have hKeys : (o.entries (view.rows o.table)).map Prod.fst =
        ((view.rows o.table).map (getID o.table)).map (fun id => (o, id)) := by
      simp [Owner.entries, Owner.key]
    rw [hKeys]
    exact (view.nodup o.table).map (fun _ _ h => (Prod.mk.inj h).2)
  simp only [owners, List.flatMap_cons, List.flatMap_nil, List.append_nil, List.map_append]
  refine List.nodup_append'.mpr ⟨hPart _, hPart _, fun k hk hk' => ?_⟩
  have hSame := (Owner.mem_keys_entries hk).symm.trans (Owner.mem_keys_entries hk')
  cases hSame

end Owners

section Context

variable {o : Owner} {wants : String → Bool} {subnetBlacklist : List IPNet}

theorem addOwner_eq (hWants : ∀ ip, wants ip = (ip = "" || ipBlacklisted ip subnetBlacklist))
    (reserved : Finset String) (unassigned : List (RowOf o.table)) (r : RowOf o.table) :
    addOwner o subnetBlacklist (reserved, unassigned) r =
      if wants (o.ip r) then (reserved, unassigned ++ [o.withIP "" r])
      else (insert (o.ip r) reserved, unassigned) := by
  rw [addOwner, hWants]
  by_cases hNone : o.ip r = ""
  · have hSame : o.withIP "" r = r := by rw [← hNone, Owner.withIP_ip]
    simp [hNone, hSame]
  · cases ipBlacklisted (o.ip r) subnetBlacklist <;> simp [hNone]

theorem foldl_addOwner (hWants : ∀ ip, wants ip = (ip = "" || ipBlacklisted ip subnetBlacklist))
    (rows : List (RowOf o.table)) (reserved : Finset String) (unassigned : List (RowOf o.table)) :
    rows.foldl (addOwner o subnetBlacklist) (reserved, unassigned) =
      (reserved ∪ ((rows.filter (fun r => !wants (o.ip r))).map o.ip).toFinset,
        unassigned ++ (rows.filter (fun r => wants (o.ip r))).map (o.withIP "")) := by
  induction rows generalizing reserved unassigned with
  | nil => simp
  | cons r rows ih =>
      rw [List.foldl_cons, addOwner_eq hWants]
      cases hr : wants (o.ip r) with
      | true => simp [ih, hr]
      | false => simp [ih, hr, Finset.insert_union, Finset.union_insert]

/-- The rows of a table that want an address, without the one they have. -/
def wantingRows (o : Owner) (ord : MapOrder) (view : Database) (wants : String → Bool) :
    List (RowOf o.table) :=
  ((view.selectAll ord o.table).filter (fun r => wants (o.ip r))).map (o.withIP "")

variable (ord : MapOrder) (ords : Nat → MapOrder) (view : Database)

/-- The rows that want an address are listed; the addresses of the others are
reserved. -/
theorem addOwners_eq (hWants : ∀ ip, wants ip = (ip = "" || ipBlacklisted ip subnetBlacklist))
    (reserved : Finset String) :
    addOwners o ord view subnetBlacklist reserved =
      (reserved ∪ (((view.rows o.table).filter (fun r => !wants (o.ip r))).map o.ip).toFinset,
        wantingRows o ord view wants) := by
  rw [addOwners, foldl_addOwner hWants, List.nil_append, wantingRows]
  congr 2
  exact List.toFinset_eq_of_perm _ _ (((view.selectAll_perm ord o.table).filter _).map _)

theorem makeIPContext_eq
    (hWants : ∀ ip, wants ip = (ip = "" || ipBlacklisted ip subnetBlacklist)) :
    makeIPContext ords view subnetBlacklist =
      ⟨usedBy reservedIPs wants (owners view), wantingRows .container (ords 0) view wants,
        wantingRows .loadBalancer (ords 1) view wants⟩ := by
  rw [makeIPContext, addOwners_eq _ _ hWants]
  dsimp only
  rw [addOwners_eq _ _ hWants]
  have hReserved : reservedIPs ∪
      (((view.rows .container).filter (fun r => !wants (Owner.container.ip r))).map
        Owner.container.ip).toFinset ∪
      (((view.rows .loadBalancer).filter (fun r => !wants (Owner.loadBalancer.ip r))).map
        Owner.loadBalancer.ip).toFinset = usedBy reservedIPs wants (owners view) := by
    simp [usedBy, owners, Owner.entries, List.filter_map, Function.comp_def, Finset.union_assoc]
  rw [← hReserved]

/-- The owners of a context are those that want an address. -/
theorem wantingRows_perm (wants : String → Bool) (ords : Nat → MapOrder) (view : Database) :
    ((wantingRows .container (ords 0) view wants).map Owner.container.key ++
      (wantingRows .loadBalancer (ords 1) view wants).map Owner.loadBalancer.key).Perm
        (openKeys wants (owners view)) := by
  have hPart : ∀ (o : Owner) (ord : MapOrder),
      ((wantingRows o ord view wants).map o.key).Perm
        (openKeys wants (o.entries (view.rows o.table))) := by
    intro o ord
    have hKeys : openKeys wants (o.entries (view.rows o.table)) =
        ((view.rows o.table).filter (fun r => wants (o.ip r))).map o.key := by
      simp [openKeys, Owner.entries, List.filter_map, Function.comp_def]
    have hSame : o.key ∘ o.withIP "" = o.key := funext (fun r => Owner.key_withIP)
    rw [hKeys, wantingRows, List.map_map, hSame]
    exact ((view.selectAll_perm ord o.table).filter _).map _
  have hOwners : openKeys wants (owners view) =
      openKeys wants (Owner.container.entries (view.rows .container)) ++
        openKeys wants (Owner.loadBalancer.entries (view.rows .loadBalancer)) := by
    simp [openKeys, owners]
  rw [hOwners]
  exact (hPart _ _).append (hPart _ _)

end Context

section Simulation

/-- Two views that differ at most in the addresses of owners. -/
structure SameButIPs (before after : Database) : Prop where
  owners : ∀ o : Owner,
    (after.rows o.table).map (o.withIP "") = (before.rows o.table).map (o.withIP "")
  others : ∀ tt, (∀ o : Owner, tt ≠ o.table) → after.rows tt = before.rows tt

theorem SameButIPs.refl (view : Database) : SameButIPs view view :=
  ⟨fun _ => rfl, fun _ _ => rfl⟩

theorem SameButIPs.trans {first second third : Database} (h : SameButIPs first second)
    (h' : SameButIPs second third) : SameButIPs first third :=
  ⟨fun o => (h'.owners o).trans (h.owners o), fun tt htt => (h'.others tt htt).trans (h.others tt htt)⟩

variable {o : Owner} {view : Database} {r : RowOf o.table}

theorem Owner.table_ne {o o' : Owner} (h : o' ≠ o) : o'.table ≠ o.table := by
  cases o <;> cases o' <;> simp_all

theorem entries_replaceRow (ip : String) (rows : List (RowOf o.table)) :
    o.entries (replaceRow o.table (o.withIP ip r) rows) = assign (o.entries rows) (o.key r) ip := by
  rw [replaceRow, Owner.entries, Owner.entries, assign, List.map_map, List.map_map]
  apply List.map_congr_left
  intro old _
  by_cases hID : getID o.table old = getID o.table r <;> simp [Owner.key, hID]

/-- A commit of a row with another address assigns that address. -/
theorem commit_withIP (h : o.withIP "" r ∈ (view.rows o.table).map (o.withIP "")) (ip : String) :
    ∃ view', view.commit o.table (o.withIP ip r) = .ok view' ∧
      owners view' = assign (owners view) (o.key r) ip ∧ SameButIPs view view' := by
  obtain ⟨old, hOld, hSame⟩ := List.mem_map.mp h
  have hID : getID o.table old = getID o.table r := by
    have hSameID := congrArg (getID o.table) hSame
    rwa [Owner.getID_withIP, Owner.getID_withIP] at hSameID
  obtain ⟨view', hCommit, hRows, -, hTouches⟩ := view.commit_spec (r := o.withIP ip r) hOld
    (hID.trans Owner.getID_withIP.symm)
  have hEntries : ∀ o' : Owner, o'.entries (view'.rows o'.table) =
      assign (o'.entries (view.rows o'.table)) (o.key r) ip := by
    intro o'
    by_cases hOwner : o' = o
    · subst hOwner
      rw [hRows, entries_replaceRow]
    · rw [hTouches.rows _ (Owner.table_ne hOwner), assign_of_notMem]
      exact fun hMem => hOwner (Owner.mem_keys_entries hMem).symm
  refine ⟨view', hCommit, ?_, fun o' => ?_, fun tt htt => hTouches.rows tt (htt o)⟩
  · simp only [owners, hEntries, assign, List.map_flatMap]
  · by_cases hOwner : o' = o
    · subst hOwner
      rw [hRows, replaceRow, List.map_map]
      apply List.map_congr_left
      intro r' hr'
      -- the row with this ID differs from the new one in its address only
      by_cases hID' : getID o'.table r' = getID o'.table r
      · rw [view.eq_of_getID_eq hr' hOld (hID'.trans hID.symm)]
        simp [hID, hSame]
      · simp [hID']
    · rw [hTouches.rows _ (Owner.table_ne hOwner)]

/-- The table of addresses, and what an attempt has drawn and reserved. -/
def AllocState.abs (s : AllocState) : State OwnerID String := ⟨owners s.view, s.reserved, s.draws⟩

variable (rand32 : Nat → UInt32)

/-- The loop over rows assigns addresses to their owners, one after another. -/
theorem allocateIPs_refines (rs : List (RowOf o.table)) (s : AllocState)
    (hrs : ∀ r ∈ rs, o.withIP "" r ∈ (s.view.rows o.table).map (o.withIP "")) :
    ∃ err s', allocateIPs o rand32 rs s = .ok (err, s') ∧
      assignAll (drawIP rand32) (rs.map o.key) s.abs = (s'.abs, err.isNone) ∧
      SameButIPs s.view s'.view := by
  induction rs generalizing s with
  | nil => exact ⟨none, s, rfl, rfl, SameButIPs.refl _⟩
  | cons r rs ih =>
      rw [allocateIPs, allocateIP_keldaSubnet, List.map_cons, assignAll]
      have hPick : (drawIP rand32).pick s.abs.draws s.abs.used =
        firstFree (rand32 s.draws) s.reserved := rfl
      rw [hPick]
      cases firstFree (rand32 s.draws) s.reserved with
      | none => exact ⟨_, _, rfl, rfl, SameButIPs.refl _⟩
      | some ip =>
          obtain ⟨view, hCommit, hOwners, hSame⟩ := commit_withIP (hrs r (List.mem_cons_self ..)) ip
          obtain ⟨err, s', hRun, hAssign, hSame'⟩ := ih ⟨view, insert ip s.reserved, s.draws + 1⟩
            (fun r' hr' => (hSame.owners o).symm ▸ hrs r' (List.mem_cons_of_mem _ hr'))
          refine ⟨err, s', ?_, ?_, hSame.trans hSame'⟩
          · simp only [bind, Except.bind, hCommit, hRun]
          · rw [← hAssign, AllocState.abs, AllocState.abs, hOwners]

theorem allocateAll_refines (ctx : IPContext) (view : Database) (draws : Nat)
    (hContainers : ∀ r ∈ ctx.unassignedContainers,
      Owner.container.withIP "" r ∈ (view.rows .container).map (Owner.container.withIP ""))
    (hLoadBalancers : ∀ r ∈ ctx.unassignedLoadBalancers,
      Owner.loadBalancer.withIP "" r ∈
        (view.rows .loadBalancer).map (Owner.loadBalancer.withIP "")) :
    ∃ err s', allocateAll rand32 ctx view draws = .ok (err, s') ∧
      assignAll (drawIP rand32)
        (ctx.unassignedContainers.map Owner.container.key ++
          ctx.unassignedLoadBalancers.map Owner.loadBalancer.key)
        ⟨owners view, ctx.reserved, draws⟩ = (s'.abs, err.isNone) ∧
      SameButIPs view s'.view := by
  obtain ⟨err, s, hRun, hAssign, hSame⟩ := allocateIPs_refines
    (o := .container) rand32 ctx.unassignedContainers ⟨view, ctx.reserved, draws⟩ hContainers
  rw [allocateAll, allocateContainerIPs, hRun, assignAll_append]
  have hFirst : assignAll (drawIP rand32) (ctx.unassignedContainers.map Owner.container.key)
      ⟨owners view, ctx.reserved, draws⟩ = (s.abs, err.isNone) := hAssign
  rw [hFirst]
  cases err with
  | some err => exact ⟨some err, s, rfl, rfl, hSame⟩
  | none =>
      obtain ⟨err', s', hRun', hAssign', hSame'⟩ := allocateIPs_refines
        (o := .loadBalancer) rand32 ctx.unassignedLoadBalancers s
        (fun r hr => (hSame.owners .loadBalancer).symm ▸ hLoadBalancers r hr)
      exact ⟨err', s', hRun', hAssign', hSame.trans hSame'⟩

theorem withIP_mem_of_wantingRows {ord : MapOrder} {wants : String → Bool}
    (h : r ∈ wantingRows o ord view wants) :
    o.withIP "" r ∈ (view.rows o.table).map (o.withIP "") := by
  obtain ⟨r', hr', rfl⟩ := List.mem_map.mp h
  rw [Owner.withIP_withIP]
  exact List.mem_map_of_mem ((view.mem_selectAll).mp (List.mem_filter.mp hr').1)

/-- The loop makes attempts until no owner wants an address. -/
theorem updateIPsLoop_refines (ords : Nat → MapOrder) {subnetBlacklist : List IPNet}
    (wants : String → Bool)
    (hWants : ∀ ip, wants ip = (ip = "" || ipBlacklisted ip subnetBlacklist)) (left : Nat)
    (err : Option String) (view : Database) (draws : Nat) :
    ∃ err' view', updateIPsLoop ords rand32 subnetBlacklist left err view draws =
        .ok (err', view') ∧
      Attempts reservedIPs wants (drawIP rand32) left err.isNone (owners view) draws
        (owners view') err'.isNone ∧ SameButIPs view view' := by
  induction left generalizing err view draws with
  | zero => exact ⟨err, view, rfl, .done _ _ _, SameButIPs.refl _⟩
  | succ left ih =>
      rw [updateIPsLoop, makeIPContext_eq _ _ hWants]
      have hPerm := wantingRows_perm wants (fun k => ords (2 * left + k)) view
      dsimp only
      split_ifs with hNone
      · refine ⟨none, view, rfl, .nothing ?_, SameButIPs.refl _⟩
        rw [hNone.1, hNone.2] at hPerm
        exact hPerm.nil_eq.symm
      · obtain ⟨err', s, hRun, hAssign, hSame⟩ := allocateAll_refines rand32
          ⟨usedBy reservedIPs wants (owners view), wantingRows .container _ view wants,
            wantingRows .loadBalancer _ view wants⟩ view draws
          (fun r hr => withIP_mem_of_wantingRows hr) (fun r hr => withIP_mem_of_wantingRows hr)
        obtain ⟨err'', view', hRest, hAttempts, hSame'⟩ := ih err' s.view s.draws
        refine ⟨err'', view', ?_, .attempt _ hPerm (fun hNil => hNone ?_) hAssign hAttempts,
          hSame.trans hSame'⟩
        · simp only [bind, Except.bind, hRun, hRest]
        · rw [hNil] at hPerm
          obtain ⟨hC, hL⟩ := List.append_eq_nil_iff.mp hPerm.eq_nil
          exact ⟨List.map_eq_nil_iff.mp hC, List.map_eq_nil_iff.mp hL⟩

/-- A call is three attempts, or fails at a route that cannot be parsed. -/
theorem updateIPsOnce_refines (ords : Nat → MapOrder) (rand32 : Nat → UInt32) (view : Database) :
    ∃ err view', updateIPsOnce ords rand32 view = .ok (err, view') ∧ SameButIPs view view' ∧
      (BadRoute view → err ≠ none ∧ view' = view) ∧
      (¬ BadRoute view → Attempts reservedIPs (wantsIP view) (drawIP rand32) 3 true (owners view) 0
        (owners view') err.isNone) := by
  rw [updateIPsOnce, ← makeSubnetBlacklist_error ords view]
  cases hBlacklist : makeSubnetBlacklist ords view with
  | error e =>
      exact ⟨_, view, rfl, SameButIPs.refl _, fun _ => ⟨by simp, rfl⟩, fun h => (h ⟨e, rfl⟩).elim⟩
  | ok subnetBlacklist =>
      obtain ⟨err, view', hRun, hAttempts, hSame⟩ := updateIPsLoop_refines rand32
        (fun k => ords (2 + k)) (wantsIP view) (fun ip => by rw [wantsIP, makeSubnetBlacklist_ok hBlacklist])
        3 none view 0
      exact ⟨err, view', hRun, hSame, fun h => by simp at h, fun _ => hAttempts⟩

end Simulation

section Call

/-- A call changes addresses only, only those of owners that want another one,
and to addresses of the container subnet. -/
structure OnlyWantedIPs (before after : Database) : Prop where
  owners : ∀ o : Owner, List.Forall₂ (fun r r' => r' = o.withIP (o.ip r') r ∧
    (o.ip r' ≠ o.ip r → wantsIP before (o.ip r) = true ∧
      keldaSubnet.contains (parseIP (o.ip r')) = true)) (before.rows o.table) (after.rows o.table)
  others : ∀ tt, (∀ o : Owner, tt ≠ o.table) → after.rows tt = before.rows tt

variable {o : Owner} {before after : Database}

theorem SameButIPs.of_mem_zip (h : SameButIPs before after) {r r' : RowOf o.table}
    (hMem : (r, r') ∈ (before.rows o.table).zip (after.rows o.table)) :
    r' = o.withIP (o.ip r') r ∧ o.key r' = o.key r := by
  have hAll : List.Forall₂ (fun r r' => o.withIP "" r = o.withIP "" r') (before.rows o.table)
      (after.rows o.table) := by
    rw [← List.forall₂_map_right_iff, ← List.forall₂_map_left_iff, h.owners o]
    exact List.forall₂_same.mpr (fun _ _ => rfl)
  have hErased := (List.forall₂_iff_zip.mp hAll).2 hMem
  have hRow : r' = o.withIP (o.ip r') r := by
    calc r' = o.withIP (o.ip r') (o.withIP "" r') := by rw [Owner.withIP_withIP, Owner.withIP_ip]
      _ = o.withIP (o.ip r') r := by rw [← hErased, Owner.withIP_withIP]
  refine ⟨hRow, ?_⟩
  rw [hRow, Owner.key_withIP]

theorem SameButIPs.length_eq (h : SameButIPs before after) (o : Owner) :
    (before.rows o.table).length = (after.rows o.table).length := by
  simpa using congrArg List.length (h.owners o).symm

theorem contains_of_mem_keldaAddresses {ip : String} (h : ip ∈ keldaAddresses) :
    keldaSubnet.contains (parseIP ip) = true := by
  obtain ⟨addr, hAddr, rfl⟩ := mem_keldaAddresses.mp h
  rw [parseIP_text]
  exact (contains_keldaSubnet addr).mpr hAddr

theorem onlyWantedIPs_of_kept (hSame : SameButIPs before after)
    (hKept : Kept keldaAddresses reservedIPs (wantsIP before) (owners before) (owners after)) :
    OnlyWantedIPs before after := by
  refine ⟨fun o => List.forall₂_iff_zip.mpr ⟨hSame.length_eq o, ?_⟩, hSame.others⟩
  intro r r' hMem
  obtain ⟨hRow, hKey⟩ := hSame.of_mem_zip hMem
  obtain ⟨hr, hr'⟩ := List.of_mem_zip hMem
  refine ⟨hRow, fun hNew => ?_⟩
  rcases hKept.origin _ (Owner.mem_owners hr') with hOld | ⟨hOpen, hPool, -⟩
  · have hEq := List.inj_on_of_nodup_map (nodup_owners before) hOld (Owner.mem_owners hr) hKey
    exact (hNew (Prod.mk.inj hEq).2).elim
  · have hWants : o.key r ∈ openKeys (wantsIP before) (owners before) ↔
        wantsIP before (o.ip r) = true := mem_openKeys hKept.nodup (Owner.mem_owners hr)
    exact ⟨hWants.mp (hKey ▸ hOpen), contains_of_mem_keldaAddresses hPool⟩

theorem updateIPsOnce_onlyWanted (ords : Nat → MapOrder) (rand32 : Nat → UInt32)
    (view : Database) : ∃ err view', updateIPsOnce ords rand32 view = .ok (err, view') ∧
      OnlyWantedIPs view view' := by
  obtain ⟨err, view', hRun, hSame, hBad, hGood⟩ := updateIPsOnce_refines ords rand32 view
  refine ⟨err, view', hRun, onlyWantedIPs_of_kept hSame ?_⟩
  by_cases hRoute : BadRoute view
  · rw [(hBad hRoute).2]
    exact Kept.refl (nodup_owners view)
  · exact ((hGood hRoute).outcome (Kept.refl (nodup_owners view)) (by omega)).1

end Call

end Kelda.Network
