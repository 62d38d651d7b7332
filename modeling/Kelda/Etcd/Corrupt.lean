import Kelda.Etcd.Replicate

/-! What the followers do with a value that does not decode. The error is
dropped, so that the table is joined with whatever the decoder has left: the
first elements of a list, or nothing at all. -/
namespace Kelda.Etcd

open DB Join Minion Database

section Listed

variable {α : Type}

/-- The elements up to the first one that the decoder refuses. -/
def untilStopped (decode : Json.Decoder α) (zero : α) : List Json → List Json
  | [] => []
  | v :: vs =>
    if (decode v zero).2 = .stopped then [v] else v :: untilStopped decode zero vs

/-- The rows that a text lists, as far as they could be decoded. -/
def SliceCodec.listed (codec : SliceCodec α) (s : String) : List α :=
  match Json.parse s with
  | some (.arr vs) =>
    (untilStopped codec.decode codec.zero vs).map (fun v => (codec.decode v codec.zero).1)
  | _ => []

theorem decodeAll_fst (decode : Json.Decoder α) (zero : α) (vs : List Json) (done : List α) :
    (Json.Decoder.decodeAll (fun v as => (as ++ [(decode v zero).1], (decode v zero).2))
      vs done).1 =
        done ++ (untilStopped decode zero vs).map (fun v => (decode v zero).1) := by
  induction vs generalizing done with
  | nil => simp [Json.Decoder.decodeAll, untilStopped]
  | cons v vs ih =>
      rw [untilStopped, Json.Decoder.decodeAll]
      cases hStatus : (decode v zero).2 with
      | stopped => simp
      | ok => simp [ih]
      | mismatch => simp [ih]

theorem SliceCodec.unmarshal_fst (codec : SliceCodec α) (s : String) :
    (codec.unmarshal s).1 = codec.listed s := by
  rw [SliceCodec.unmarshal, Json.unmarshal_fst, SliceCodec.listed]
  cases Json.parse s with
  | none => rfl
  | some v =>
      cases v with
      | arr vs => exact decodeAll_fst codec.decode codec.zero vs []
      | _ => rfl

end Listed

section Idle

variable {tt : TableType} {κ : Type} [DecidableEq κ]

/-- The listed rows are those of the table, by their keys. -/
structure SameKeys (key : RowOf tt → κ) (listed rows : List (RowOf tt)) : Prop where
  nodup : (listed.map key).Nodup
  covered : ∀ r ∈ rows, ∃ d ∈ listed, key d = key r
  known : ∀ d ∈ listed, ∃ r ∈ rows, key r = key d

/-- If the IDs are the same after rows were removed and others added, then there
were none. -/
theorem nothing_changed {view : Database} {olds : List (RowOf tt)} {news : List Nat}
    (hOlds : olds ⊆ view.rows tt) (hNews : ∀ id ∈ news, view.curID < id)
    (h : ((view.removeAll tt olds).rows tt).map (getID tt) ++ news =
      (view.rows tt).map (getID tt)) : olds = [] ∧ news = [] := by
  have hNone : news = [] := by
    refine List.eq_nil_iff_forall_not_mem.mpr (fun id hid => ?_)
    have hMem : id ∈ (view.rows tt).map (getID tt) := h ▸ List.mem_append_right _ hid
    obtain ⟨r, hr, rfl⟩ := List.mem_map.mp hMem
    exact absurd (hNews _ hid) (not_lt.mpr (view.bounded tt r hr))
  refine ⟨List.eq_nil_iff_forall_not_mem.mpr (fun r hr => ?_), hNone⟩
  rw [hNone, List.append_nil, (view.removeAll_spec olds).1] at h
  have hMem : getID tt r ∈ (view.rows tt).map (getID tt) := List.mem_map_of_mem (hOlds hr)
  rw [← h] at hMem
  obtain ⟨r', hr', hEq⟩ := List.mem_map.mp hMem
  exact absurd (hEq ▸ List.mem_map_of_mem hr) (of_decide_eq_true (List.mem_filter.mp hr').2)

/-- Rows that are removed and rows that are added show. -/
theorem nothing_added {view view' : Database} {olds news : List (RowOf tt)}
    {fill : RowOf tt → RowOf tt → RowOf tt} (hID : ∀ d r, getID tt (fill d r) = getID tt r)
    (hOlds : olds ⊆ view.rows tt) (hRun : (view.removeAll tt olds).addAll tt fill news = .ok view')
    (hRows : view'.rows tt = view.rows tt) : olds = [] ∧ news = [] := by
  obtain ⟨view₁, hAdd, hRows', -, -⟩ := (view.removeAll tt olds).addAll_spec
    (fun d id => (hID d _).trans (getID_blankRow tt id)) news
  obtain rfl : view₁ = view' := Except.ok.inj (hAdd.symm.trans hRun)
  rw [(view.removeAll_spec olds).2.1] at hRows'
  have hFresh : ∀ id ∈ (freshRows tt fill view.curID news).map (getID tt), view.curID < id := by
    intro id hid
    obtain ⟨r, hr, rfl⟩ := List.mem_map.mp hid
    obtain ⟨d, -, id, hLt, rfl⟩ := mem_freshRows hr
    rw [hID, getID_blankRow]
    exact hLt
  obtain ⟨hOld, hNew⟩ := nothing_changed hOlds hFresh (by rw [← List.map_append, ← hRows', hRows])
  refine ⟨hOld, List.length_eq_zero_iff.mp ?_⟩
  simpa [freshRows] using congrArg List.length hNew

/-- Commits keep the IDs of a table. -/
theorem commitAll_ids {δ : Type} {upd : δ → RowOf tt → RowOf tt} {view view' : Database}
    {pairs : List (Pair δ (RowOf tt))} (h : view.commitAll tt upd pairs = .ok view') :
    (view'.rows tt).map (getID tt) = (view.rows tt).map (getID tt) := by
  induction pairs generalizing view with
  | nil => rw [← Except.ok.inj h]
  | cons p pairs ih =>
      rw [commitAll, List.foldlM_cons] at h
      obtain ⟨mid, hCommit, hRest⟩ := Except.exists_of_bind_eq_ok h
      rw [ih hRest]
      obtain ⟨old, hOld, hEq⟩ := commit_found hCommit
      obtain ⟨mid', hCommit', hRows, -⟩ := view.commit_spec hOld hEq
      obtain rfl : mid' = mid := Except.ok.inj (hCommit'.symm.trans hCommit)
      rw [hRows, map_getID_replaceRow]

theorem nothing_inserted {view view' : Database} {olds news : List (RowOf tt)}
    {upd : RowOf tt → RowOf tt → RowOf tt} {pairs : List (Pair (RowOf tt) (RowOf tt))}
    (hOlds : olds ⊆ view.rows tt)
    (hRun : ((view.removeAll tt olds).insertAll tt news).2.commitAll tt upd pairs = .ok view')
    (hRows : view'.rows tt = view.rows tt) : olds = [] ∧ news = [] := by
  obtain ⟨-, hInserted, -, -⟩ := (view.removeAll tt olds).insertAll_spec tt news
  rw [(view.removeAll_spec olds).2.1] at hInserted
  have hFresh : ∀ id ∈ ((freshPairs tt view.curID news).map Pair.R).map (getID tt),
      view.curID < id := by
    intro id hid
    rw [List.map_map] at hid
    obtain ⟨p, hp, rfl⟩ := List.mem_map.mp hid
    obtain ⟨k, -, rfl⟩ := List.mem_mapIdx.mp hp
    rw [Function.comp_apply, getID_blankRow]
    omega
  obtain ⟨hOld, hNew⟩ := nothing_changed hOlds hFresh (by
    rw [← List.map_append, ← hInserted, ← commitAll_ids hRun, hRows])
  refine ⟨hOld, List.length_eq_zero_iff.mp ?_⟩
  simpa [freshPairs] using congrArg List.length hNew

omit [DecidableEq κ] in
theorem sameKeys_of_lonely {key : RowOf tt → κ} {view : Database} {ord : MapOrder}
    {etcdRows : List (RowOf tt)} {res : Result (RowOf tt) (RowOf tt)}
    (hJoin : Reconciles (view.selectAll ord tt) etcdRows key key res)
    (hOld : res.lonelyLefts = []) (hNew : res.lonelyRights = []) :
    SameKeys key etcdRows (view.rows tt) := by
  obtain ⟨hNodup, hKnown⟩ := hJoin.lonelyRights_eq_nil_iff.mp hNew
  refine ⟨hNodup, fun r hr => ?_, fun d hd => ?_⟩
  · exact hJoin.lonelyLefts_eq_nil_iff.mp hOld r (view.mem_selectAll.mpr hr)
  · obtain ⟨r, hr, hKey⟩ := hKnown d hd
    exact ⟨r, view.mem_selectAll.mp hr, hKey⟩

omit [DecidableEq κ] in
theorem lonelyLefts_subset {key : RowOf tt → κ} {view : Database} {ord : MapOrder}
    {etcdRows : List (RowOf tt)} {res : Result (RowOf tt) (RowOf tt)}
    (hJoin : Reconciles (view.selectAll ord tt) etcdRows key key res) :
    res.lonelyLefts ⊆ view.rows tt :=
  fun _ hr => view.mem_selectAll.mp (hJoin.lefts (List.mem_append_right _ hr))

/-- The join leaves a table alone exactly if the listed keys are those of its
rows. -/
theorem joinRows_idle_iff (tt : TableType) (key : RowOf tt → κ)
    {setID : RowOf tt → RowOf tt → RowOf tt} (hID : ∀ d r, getID tt (setID d r) = getID tt r)
    (view : Database) (etcdRows : List (RowOf tt)) (ords : Nat → MapOrder) :
    (∃ view', joinRows tt key setID ords view etcdRows = .ok view' ∧
      view'.rows tt = view.rows tt) ↔ SameKeys key etcdRows (view.rows tt) := by
  constructor
  · rintro ⟨view', hRun, hRows⟩
    have hJoin := hashJoin_reconciles (ords 1) (view.selectAll (ords 0) tt) etcdRows key key
    obtain ⟨hOld, hNew⟩ := nothing_added hID (lonelyLefts_subset hJoin) hRun hRows
    exact sameKeys_of_lonely hJoin hOld hNew
  · intro h
    exact ⟨view, joinRows_self h.nodup h.covered h.known ords, rfl⟩

/-- The listed containers are those of the table, with the fields that the join
copies. -/
structure SameContainers (listed rows : List Container) : Prop where
  keys : @SameKeys .container _ storedKey listed rows
  fields : ∀ dbc ∈ rows, ∀ edbc ∈ listed, storedKey dbc = storedKey edbc →
    copyContainer edbc dbc = dbc

theorem sameKeys_of_idle {view view' : Database} {etcdDBCs : List Container}
    {ords : Nat → MapOrder} (hRun : joinContainers ords view etcdDBCs = .ok view')
    (hRows : view'.rows .container = view.rows .container) :
    @SameKeys .container _ storedKey etcdDBCs (view.rows .container) := by
  simp only [joinContainers, containerKey_eq_storedKey] at hRun
  have hJoin := hashJoin_reconciles (ords 1) (view.selectAll (ords 0) .container) etcdDBCs
    storedKey storedKey
  obtain ⟨hOld, hNew⟩ := nothing_inserted (lonelyLefts_subset hJoin) hRun hRows
  exact sameKeys_of_lonely hJoin hOld hNew

/-- A pair that is committed without a change had the fields already. -/
theorem fields_of_idle {view view' : Database} {pairs : List (Pair Container Container)}
    (hLefts : (pairs.map Pair.R).Nodup) (hSubset : pairs.map Pair.R ⊆ view.rows .container)
    (hRun : view.commitAll .container copyContainer pairs = .ok view')
    (hRows : view'.rows .container = view.rows .container) {p : Pair Container Container}
    (hp : p ∈ pairs) : copyContainer p.L p.R = p.R := by
  obtain ⟨lefts, hPaired, hSublist⟩ := hLefts.subperm hSubset
  obtain ⟨rest, hRest⟩ := hSublist.exists_perm_append
  have hID : ∀ edbc dbc : RowOf .container, getID .container (copyContainer edbc dbc) =
      getID .container dbc := fun _ _ => rfl
  obtain ⟨view₁, hCommit, hPerm, -, -⟩ := view.commitAll_perm hID pairs
    (List.perm_append_comm.trans ((hPaired.symm.append_right rest).trans hRest.symm))
  obtain rfl : view₁ = view' := Except.ok.inj (hCommit.symm.trans hRun)
  have hNew : copyContainer p.L p.R ∈ view.rows .container := by
    rw [← hRows, hPerm.mem_iff]
    exact List.mem_append_right _ (List.mem_map_of_mem hp)
  exact view.eq_of_getID_eq hNew (hSubset (List.mem_map_of_mem hp)) rfl

theorem joinContainers_idle_iff {view : Database} {etcdDBCs : List Container} :
    (∀ ords, ∃ view', joinContainers ords view etcdDBCs = .ok view' ∧
      view'.rows .container = view.rows .container) ↔
        SameContainers etcdDBCs (view.rows .container) := by
  constructor
  · intro h
    obtain ⟨view', hRun, hRows⟩ := h (fun _ => .stored)
    have hKeys := sameKeys_of_idle hRun hRows
    refine ⟨hKeys, fun dbc hd edbc he hKey => ?_⟩
    -- a walk that comes to this row last, so that it is the one that is paired
    obtain ⟨ord, hWalk⟩ := MapOrder.exists_walk_eq
      ((List.perm_cons_erase hd).trans (List.perm_append_singleton dbc _).symm)
    obtain ⟨view', hRun, hRows⟩ := h (fun _ => ord)
    rw [joinContainers_eq_commitAll hKeys.nodup hKeys.covered hKeys.known] at hRun
    have hJoin := hashJoin_reconciles ord (view.selectAll ord .container) etcdDBCs storedKey
      storedKey
    have hSelect : view.selectAll ord .container = (view.rows .container).erase dbc ++ [dbc] := by
      rw [Database.selectAll, Database.select, hWalk]
      exact List.filter_eq_self.mpr (fun _ _ => rfl)
    have hPair : ⟨dbc, edbc⟩ ∈ (hashJoin ord (view.selectAll ord .container) etcdDBCs storedKey
        storedKey).pairs := by
      apply mem_pairs_of_lookup _ he hKeys.nodup
      rw [hSelect, ← hKey]
      exact KeyedMap.lookup_fill_append _ _ _
    have hRows' : ((hashJoin ord (view.selectAll ord .container) etcdDBCs storedKey
        storedKey).pairs.map Pair.swap).map Pair.R = (hashJoin ord (view.selectAll ord .container)
          etcdDBCs storedKey storedKey).pairs.map Pair.L := by
      rw [List.map_map]
      rfl
    have hLefts := hJoin.leftKeys.of_map
    refine fields_of_idle (p := ⟨edbc, dbc⟩) ?_ ?_ hRun hRows (List.mem_map_of_mem hPair)
    · rw [hRows']
      exact (List.nodup_append'.mp hLefts).1
    · rw [hRows']
      exact fun r hr => view.mem_selectAll.mp (hJoin.lefts (List.mem_append_left _ hr))
  · intro h ords
    exact ⟨view, joinContainers_self h.keys.nodup h.keys.covered h.keys.known h.fields ords, rfl⟩

end Idle

section Corrupt

variable {tt : TableType} {table : Synced tt} {view : Database} {store : Store} {s : String}

/-- Every run leaves the table as it was. -/
def Unharmed (table : Synced tt) (store : Store) (view : Database) : Prop :=
  ∀ ords, ∃ out, table.runOnce ords {} store view = .ok out ∧ out.view.rows tt = view.rows tt

theorem exists_laterOrders (ords : Nat → MapOrder) (n : Nat) :
    ∃ ords', laterOrders ords' n = ords :=
  ⟨fun k => ords (k - n), funext (fun k => by rw [laterOrders, Nat.add_sub_cancel_left])⟩

theorem unharmed_iff (hFollower : ∀ ord, etcdLeader ord view = false)
    (hGet : store.get table.path = .ok s) :
    Unharmed table store view ↔ ∀ ords, ∃ view',
      table.updateNonLeader ords view (table.codec.listed s) = .ok view' ∧
        view'.rows tt = view.rows tt := by
  constructor
  · intro h ords
    obtain ⟨ords', rfl⟩ := exists_laterOrders ords 1
    obtain ⟨out, hRun, hRows⟩ := h ords'
    simp only [Synced.runOnce, readEtcdNode_of_get hGet, hFollower,
      table.codec.unmarshal_fst] at hRun
    obtain ⟨view', hJoin, hOut⟩ := Except.exists_of_bind_eq_ok hRun
    cases hOut
    exact ⟨view', hJoin, hRows⟩
  · intro h ords
    obtain ⟨view', hJoin, hRows⟩ := h (laterOrders ords 1)
    exact ⟨_, runOnce_follower hFollower (table.codec.unmarshal_fst s) hGet hJoin, hRows⟩

theorem connections_unharmed_iff (hFollower : ∀ ord, etcdLeader ord view = false)
    (hGet : store.get connectionPath = .ok s) :
    Unharmed connections store view ↔
      @SameKeys .connection _ dbcKey (connectionCodec.listed s) (view.rows .connection) := by
  rw [unharmed_iff hFollower (show store.get connections.path = _ from hGet)]
  have hIdle := joinRows_idle_iff .connection dbcKey
    (show ∀ d c, getID .connection (renumberConnection d c) = getID .connection c from
      fun _ _ => rfl) view (connectionCodec.listed s)
  constructor
  · exact fun h => (hIdle (fun _ => .stored)).mp (h (fun _ => .stored))
  · exact fun h ords => (hIdle ords).mpr h

theorem hostnames_unharmed_iff (hFollower : ∀ ord, etcdLeader ord view = false)
    (hGet : store.get hostnamePath = .ok s) :
    Unharmed hostnames store view ↔
      @SameKeys .hostname _ hostnameKey (hostnameCodec.listed s) (view.rows .hostname) := by
  rw [unharmed_iff hFollower (show store.get hostnames.path = _ from hGet)]
  have hIdle := joinRows_idle_iff .hostname hostnameKey
    (show ∀ d r, getID .hostname (renumberHostname d r) = getID .hostname r from
      fun _ _ => rfl) view (hostnameCodec.listed s)
  constructor
  · exact fun h => (hIdle (fun _ => .stored)).mp (h (fun _ => .stored))
  · exact fun h ords => (hIdle ords).mpr h

theorem containers_unharmed_iff {fmt : TimeFormat} {self : Minion}
    (hFollower : ∀ ord, etcdLeader ord view = false)
    (hSelf : ∀ ord, minionSelf ord view = .ok self) (hGet : store.get containerPath = .ok s) :
    Unharmed (containers fmt) store view ↔
      SameContainers (((containerCodec fmt).listed s).filter (fun dbc =>
        self.role = .master ∨ dbc.minion = self.privateIP)) (view.rows .container) := by
  rw [unharmed_iff hFollower (show store.get (containers fmt).path = _ from hGet),
    ← joinContainers_idle_iff]
  have hJoin : ∀ ords,
      (containers fmt).updateNonLeader ords view ((containers fmt).codec.listed s) =
      joinContainers (laterOrders ords 1) view (((containerCodec fmt).listed s).filter (fun dbc =>
        self.role = .master ∨ dbc.minion = self.privateIP)) := by
    intro ords
    change updateNonLeader ords view _ = _
    rw [updateNonLeader, hSelf]
    rfl
  simp only [hJoin]
  constructor
  · intro h ords
    obtain ⟨ords', rfl⟩ := exists_laterOrders ords 1
    exact h ords'
  · exact fun h ords => h _

/-- A value in the store leaves the tables of a follower alone exactly if the
rows that it lists, as far as they decode, are those that are there. -/
theorem corrupt_value_harmless_iff (fmt : TimeFormat) (view : Database) (self : Minion)
    (store : Store) (connectionStr hostnameStr containerStr : String)
    (hFollower : ∀ ord, etcdLeader ord view = false)
    (hSelf : ∀ ord, minionSelf ord view = .ok self)
    (hConnection : store.get connectionPath = .ok connectionStr)
    (hHostname : store.get hostnamePath = .ok hostnameStr)
    (hContainer : store.get containerPath = .ok containerStr) :
    (Unharmed connections store view ↔
      @SameKeys .connection _ dbcKey (connectionCodec.listed connectionStr)
        (view.rows .connection)) ∧
    (Unharmed hostnames store view ↔
      @SameKeys .hostname _ hostnameKey (hostnameCodec.listed hostnameStr) (view.rows .hostname)) ∧
    (Unharmed (containers fmt) store view ↔
      SameContainers (((containerCodec fmt).listed containerStr).filter (fun dbc =>
        self.role = .master ∨ dbc.minion = self.privateIP)) (view.rows .container)) := by
  refine ⟨?_, ?_, ?_⟩
  · exact connections_unharmed_iff hFollower hConnection
  · exact hostnames_unharmed_iff hFollower hHostname
  · exact containers_unharmed_iff hFollower hSelf hContainer

/-- The values of a leader without rows, but for the last of them. -/
def truncatedStore : Store :=
  (((∅ : Store).insert connectionPath ⟨"null", 0⟩).insert hostnamePath ⟨"null", 0⟩).insert
    containerPath ⟨"[", 0⟩

theorem corrupt_value_harmless_iff_truncated :
    Unharmed (containers sampleFormat) truncatedStore sampleFollower ↔
      SameContainers [] (sampleFollower.rows .container) :=
  (corrupt_value_harmless_iff sampleFormat sampleFollower
    { id := 2, self := true, role := .worker, privateIP := "172.31.0.2" } truncatedStore "null"
    "null" "[" sampleFollower_follows (minionSelf_of_rows rfl rfl) rfl rfl rfl).2.2

/-- The containers of a worker are gone after it has read a value that was cut
off. -/
theorem truncated_value_harms :
    ((containerCodec sampleFormat).unmarshal "[").2 ≠ none ∧
      truncatedStore.get containerPath = .ok "[" ∧
      ¬Unharmed (containers sampleFormat) truncatedStore sampleFollower := by
  refine ⟨by decide, rfl, fun h => ?_⟩
  have hSame := (containers_unharmed_iff sampleFollower_follows (minionSelf_of_rows rfl rfl)
    rfl).mp h
  obtain ⟨edbc, he, -⟩ := hSame.keys.covered { id := 4, blueprintID := "gone" }
    (List.mem_singleton_self _)
  cases he

end Corrupt

end Kelda.Etcd
