import Kelda.Etcd.Sync
import Kelda.Minion.Reconcile
import Kelda.Minion.Wanted

/-! The tables of the followers become copies of those of the leader. The text
that the leader publishes depends on its rows alone, a follower that reads it
takes over the rows in it, and another run on either side changes nothing. -/
namespace Kelda.Etcd

open DB Join Minion Database

section Store

variable {store : Store} {path s : String}

theorem readEtcdNode_of_get (h : store.get path = .ok s) : readEtcdNode {} store path = .ok s := by
  simp only [readEtcdNode, Option.elim_none, h]

/-- Without failures a read finds the value of the key, or nothing. -/
theorem readEtcdNode_ok (store : Store) (path : String) :
    ∃ s, readEtcdNode {} store path = .ok s ∧ (store.get path = .ok s ∨ s = "") := by
  cases hGet : store.get path with
  | ok s => exact ⟨s, readEtcdNode_of_get hGet, Or.inl rfl⟩
  | error err =>
      have hMissing : err = .client errorCodeKeyNotFound := by
        rw [Store.get] at hGet
        split at hGet
        · exact (Except.error.inj hGet).symm
        · cases hGet
      refine ⟨"", ?_, Or.inr rfl⟩
      simp only [readEtcdNode, Option.elim_none, hGet, if_pos hMissing]

end Store

section Leader

theorem etcdLeader_of_rows {view : Database} {etcd : DB.Etcd} (h : view.rows .etcd = [etcd])
    (ord : MapOrder) : etcdLeader ord view = etcd.leader := by
  rw [etcdLeader, view.selectAll_single h]

variable {tt : TableType} (table : Synced tt)

/-- The leader publishes one text, whatever the order of its walks. -/
structure Publishes (leader : Database) (s : String) : Prop where
  writes : ∀ ords store, ∃ store' sets,
    table.runOnce ords {} store leader = .ok ⟨store', leader, sets, none⟩ ∧
      store'.get table.path = .ok s ∧ ∀ text ∈ sets, text = s
  once : ∀ ords store later, later.rows = leader.rows → store.get table.path = .ok s →
    table.runOnce ords {} store later = .ok ⟨store, later, [], none⟩

variable {table}

/-- The text is that of the sorted rows. It is never empty. -/
theorem publishes_of_sorted {leader : Database} {etcd : DB.Etcd} {sorted : List (RowOf tt)}
    {wire : RowOf tt → RowOf tt} {s : String} (hEtcd : leader.rows .etcd = [etcd])
    (hLead : etcd.leader = true)
    (hSorted : ∀ ord, sortSlice table.less (leader.select ord tt table.check) = sorted)
    (hWrite : table.codec.jsonMarshal sorted = .ok s)
    (hRead : table.codec.unmarshal s = (sorted.map wire, none)) : Publishes table leader s := by
  have hText : s ≠ "" := by
    rintro rfl
    have hError : (table.codec.unmarshal "").2 = some .syntaxError := rfl
    rw [hRead] at hError
    cases hError
  constructor
  · intro ords store
    obtain ⟨old, hOld, hKnown⟩ := readEtcdNode_ok store table.path
    have hRun : table.runOnce ords {} store leader =
        .ok (table.updateLeader (ords 1) {} store leader old) := by
      simp only [Synced.runOnce, hOld, etcdLeader_of_rows hEtcd, hLead, if_true]
    rw [hRun]
    by_cases hSame : s = old
    · refine ⟨store, [], ?_, ?_, by simp⟩
      · simp only [Synced.updateLeader, writeEtcdSlice, hSorted, hWrite, if_pos hSame]
        rfl
      · exact hSame ▸ hKnown.resolve_right (fun hEmpty => hText (hSame.trans hEmpty))
    · refine ⟨store.insert table.path ⟨s, 0⟩, [s], ?_, Store.get_insert .., by simp⟩
      simp only [Synced.updateLeader, writeEtcdSlice, hSorted, hWrite, if_neg hSame,
        Option.elim_none, Store.set_eq]
      rfl
  · intro ords store later hRows hGet
    have hEtcd' : later.rows .etcd = [etcd] := by rw [hRows, hEtcd]
    have hSelect : later.select (ords 1) tt table.check =
        leader.select (ords 1) tt table.check := by
      rw [Database.select, Database.select, hRows]
    simp only [Synced.runOnce, readEtcdNode_of_get hGet, etcdLeader_of_rows hEtcd', hLead, if_true,
      Synced.updateLeader, writeEtcdSlice, hSelect, hSorted, hWrite]
    rfl

end Leader

section Follower

variable {tt : TableType} (table : Synced tt)

/-- A follower that reads a text takes over the rows in it. Another run changes
nothing and raises no alert. -/
def Follows (s : String) (follower : Database) (copied : List (RowOf tt) → Prop) : Prop :=
  ∀ ords store, store.get table.path = .ok s → ∃ view',
    table.runOnce ords {} store follower = .ok ⟨store, view', [], none⟩ ∧
      Touches tt follower view' ∧ copied (view'.rows tt) ∧
      ∀ ords' later, later.rows = view'.rows →
        table.runOnce ords' {} store later = .ok ⟨store, later, [], none⟩

variable {table}

theorem etcdLeader_congr {view view' : Database} (h : view'.rows .etcd = view.rows .etcd)
    (ord : MapOrder) : etcdLeader ord view' = etcdLeader ord view := by
  simp only [etcdLeader, Database.selectAll, Database.select, h]

theorem minionSelf_of_rows {view : Database} {self : Minion} (h : view.rows .minion = [self])
    (hSelf : self.self = true) (ord : MapOrder) : minionSelf ord view = .ok self := by
  have hAll : view.select ord .minion Minion.self = [self] := by
    have hPerm : (ord.walk (view.rows .minion)).Perm [self] := h ▸ ord.perm _
    rw [Database.select, List.perm_singleton.mp hPerm, List.filter_singleton, hSelf]
    rfl
  rw [minionSelf, hAll]

theorem minionSelf_congr {view view' : Database} (h : view'.rows .minion = view.rows .minion)
    (ord : MapOrder) : minionSelf ord view' = minionSelf ord view := by
  simp only [minionSelf, Database.select, h]

/-- What a minion that does not lead does with a text. -/
theorem runOnce_follower {s : String} {etcdRows : List (RowOf tt)} {view : Database}
    (hFollower : ∀ ord, etcdLeader ord view = false)
    (hRead : (table.codec.unmarshal s).1 = etcdRows)
    {ords : Nat → MapOrder} {store : Store} (hGet : store.get table.path = .ok s) {view' : Database}
    (hJoin : table.updateNonLeader (laterOrders ords 1) view etcdRows = .ok view') :
    table.runOnce ords {} store view = .ok ⟨store, view', [], none⟩ := by
  simp only [Synced.runOnce, readEtcdNode_of_get hGet, hFollower, hRead, hJoin]
  rfl

/-- It is enough that the join copies the rows and then has nothing left to do. -/
theorem follows_of_join {s : String} {etcdRows : List (RowOf tt)} {follower : Database}
    {copied : List (RowOf tt) → Prop} (hTable : tt ≠ .etcd)
    (hFollower : ∀ ord, etcdLeader ord follower = false)
    (hRead : (table.codec.unmarshal s).1 = etcdRows)
    (hJoin : ∀ ords, ∃ view', table.updateNonLeader ords follower etcdRows = .ok view' ∧
      Touches tt follower view' ∧ copied (view'.rows tt) ∧
      ∀ ords' later, later.rows = view'.rows →
        table.updateNonLeader ords' later etcdRows = .ok later) :
    Follows table s follower copied := by
  intro ords store hGet
  obtain ⟨view', hRun, hTouches, hCopied, hAgain⟩ := hJoin (laterOrders ords 1)
  refine ⟨view', runOnce_follower hFollower hRead hGet hRun, hTouches, hCopied, ?_⟩
  intro ords' later hRows
  have hEtcd : later.rows .etcd = follower.rows .etcd := by
    rw [hRows]
    exact hTouches.rows _ hTable.symm
  refine runOnce_follower (fun ord => ?_) hRead hGet (hAgain _ later hRows)
  rw [etcdLeader_congr hEtcd, hFollower]

end Follower

section Joins

variable {tt : TableType} {κ : Type} [DecidableEq κ]

omit [DecidableEq κ] in
/-- The rows of a reconciled table say what the wanted rows say. -/
theorem perm_of_reconciled {key : RowOf tt → κ} {upd fill : RowOf tt → RowOf tt → RowOf tt}
    {wanted before after : List (RowOf tt)} {curID : Nat} {δ : Type} {wire : RowOf tt → δ}
    {wireKey : δ → κ} (h : Reconciled tt key key upd fill wanted before curID after)
    (hWanted : (wanted.map key).Nodup) (hKey : ∀ r, key r = wireKey (wire r))
    (hOld : ∀ d ∈ wanted, ∀ old ∈ before, key old = key d → wire (upd d old) = wire d)
    (hNew : ∀ d id, wire (fill d (blankRow tt id)) = wire d) :
    (after.map wire).Perm (wanted.map wire) := by
  have hNodup : ∀ {rows : List (RowOf tt)}, (rows.map key).Nodup → (rows.map wire).Nodup := by
    intro rows hRows
    have hComp : rows.map key = (rows.map wire).map wireKey := by
      rw [List.map_map]
      exact List.map_congr_left (fun r _ => hKey r)
    exact List.Nodup.of_map wireKey (hComp ▸ hRows)
  have hSame : ∀ r ∈ after, ∃ d ∈ wanted, key r = key d ∧ wire r = wire d := by
    intro r hr
    obtain ⟨d, hd, hEq, ⟨old, hMem, hOldKey, rfl⟩ | ⟨-, id, -, rfl⟩⟩ := h.origin r hr
    · exact ⟨d, hd, hEq, hOld d hd old hMem hOldKey⟩
    · exact ⟨d, hd, hEq, hNew d id⟩
  refine (List.perm_ext_iff_of_nodup (hNodup h.keys) (hNodup hWanted)).mpr (fun w => ?_)
  constructor
  · intro hw
    obtain ⟨r, hr, rfl⟩ := List.mem_map.mp hw
    obtain ⟨d, hd, -, hEq⟩ := hSame r hr
    exact hEq ▸ List.mem_map_of_mem hd
  · intro hw
    obtain ⟨d, hd, rfl⟩ := List.mem_map.mp hw
    obtain ⟨r, hr, hEq⟩ := h.covers d hd
    obtain ⟨d', hd', hKey', hWire⟩ := hSame r hr
    obtain rfl := List.inj_on_of_nodup_map hWanted hd' hd (hKey'.symm.trans hEq)
    exact hWire ▸ List.mem_map_of_mem hr

/-- A join that finds every key on both sides changes nothing. -/
theorem joinRows_self {key : RowOf tt → κ} {setID : RowOf tt → RowOf tt → RowOf tt}
    {view : Database} {etcdRows : List (RowOf tt)} (hEtcd : (etcdRows.map key).Nodup)
    (hRows : ∀ r ∈ view.rows tt, ∃ d ∈ etcdRows, key d = key r)
    (hFound : ∀ d ∈ etcdRows, ∃ r ∈ view.rows tt, key r = key d) (ords : Nat → MapOrder) :
    joinRows tt key setID ords view etcdRows = .ok view := by
  have hJoin := hashJoin_reconciles (ords 1) (view.selectAll (ords 0) tt) etcdRows key key
  have hOld := hJoin.lonelyLefts_eq_nil_iff.mpr (fun r hr => hRows r (view.mem_selectAll.mp hr))
  have hNew := hJoin.lonelyRights_eq_nil_iff.mpr ⟨hEtcd, fun d hd => by
    obtain ⟨r, hr, hKey⟩ := hFound d hd
    exact ⟨r, view.mem_selectAll.mpr hr, hKey⟩⟩
  simp only [joinRows, hOld, hNew]
  rfl

/-- One join of rows under their keys copies them, and the next one finds
nothing to do. -/
theorem joinRows_copies {δ : Type} (tt : TableType) (setID : RowOf tt → RowOf tt → RowOf tt)
    (wire : RowOf tt → δ) (wireKey : δ → κ) {key : RowOf tt → κ} {follower : Database}
    {etcdRows : List (RowOf tt)} (hRows : ((follower.rows tt).map key).Nodup)
    (hEtcd : (etcdRows.map key).Nodup) (hKey : ∀ r, key r = wireKey (wire r))
    (hID : ∀ d r, getID tt (setID d r) = getID tt r) (hSet : ∀ d r, wire (setID d r) = wire d)
    (hInj : ∀ r ∈ follower.rows tt, ∀ d ∈ etcdRows, key r = key d → wire r = wire d)
    (ords : Nat → MapOrder) :
    ∃ view', joinRows tt key setID ords follower etcdRows = .ok view' ∧
      Touches tt follower view' ∧ ((view'.rows tt).map wire).Perm (etcdRows.map wire) ∧
      ∀ ords' later, later.rows = view'.rows →
        joinRows tt key setID ords' later etcdRows = .ok later := by
  have hJoin := (hashJoin_reconciles (ords 1) (follower.selectAll (ords 0) tt) etcdRows key
    key).swap (((follower.selectAll_perm (ords 0) tt).map key).nodup_iff.mpr hRows) hEtcd
  have hSetKey : ∀ d r, key (setID d r) = key d := by
    intro d r
    rw [hKey, hSet, ← hKey]
  obtain ⟨view', hRun, hRec, hTouches⟩ := removeAll_addAll_reconciled tt follower setID hJoin
    (follower.selectAll_perm (ords 0) tt) (fun d id => (hID d _).trans (getID_blankRow tt id))
    (fun d id => hSetKey d _)
  refine ⟨view', hRun, hTouches, ?_, ?_⟩
  · exact perm_of_reconciled hRec hEtcd hKey (fun d hd old hMem hEq => hInj old hMem d hd hEq)
      (fun d id => hSet d _)
  · intro ords' later hLater
    refine joinRows_self hEtcd (fun r hr => ?_) (fun d hd => ?_) ords'
    · obtain ⟨d, hd, hEq, -⟩ := hRec.origin r (hLater ▸ hr)
      exact ⟨d, hd, hEq.symm⟩
    · rw [hLater]
      exact hRec.covers d hd

/-- The key of a container, by walks that take its maps as they are stored. -/
def storedKey : Container → ContainerKey := containerKey (fun _ => .stored)

/-- The key does not depend on the walks. -/
theorem containerKey_eq_storedKey (ords : Nat → MapOrder) : containerKey ords = storedKey := by
  funext dbc
  simp only [storedKey, containerKey, containerValueMapKey, Blueprint.valueMapAsString_eq]

/-- The fields of a container that the join copies. -/
def copiedFields (dbc : Container) : Container := copyContainer dbc { id := 0 }

/-- A join that finds every key on both sides only commits the pairs. -/
theorem joinContainers_eq_commitAll {view : Database} {etcdDBCs : List Container}
    (hEtcd : (etcdDBCs.map storedKey).Nodup)
    (hRows : ∀ dbc ∈ view.rows .container, ∃ edbc ∈ etcdDBCs, storedKey edbc = storedKey dbc)
    (hFound : ∀ edbc ∈ etcdDBCs, ∃ dbc ∈ view.rows .container, storedKey dbc = storedKey edbc)
    (ords : Nat → MapOrder) :
    joinContainers ords view etcdDBCs = view.commitAll .container copyContainer
      ((hashJoin (ords 1) (view.selectAll (ords 0) .container) etcdDBCs storedKey
        storedKey).pairs.map Pair.swap) := by
  have hJoin := hashJoin_reconciles (ords 1) (view.selectAll (ords 0) .container) etcdDBCs
    storedKey storedKey
  have hOld := hJoin.lonelyLefts_eq_nil_iff.mpr (fun r hr => hRows r (view.mem_selectAll.mp hr))
  have hNew := hJoin.lonelyRights_eq_nil_iff.mpr ⟨hEtcd, fun d hd => by
    obtain ⟨r, hr, hKey⟩ := hFound d hd
    exact ⟨r, view.mem_selectAll.mpr hr, hKey⟩⟩
  simp only [joinContainers, containerKey_eq_storedKey, Result.swap, hOld, hNew,
    Database.insertAll, List.append_nil]
  rfl

theorem joinContainers_self {view : Database} {etcdDBCs : List Container}
    (hEtcd : (etcdDBCs.map storedKey).Nodup)
    (hRows : ∀ dbc ∈ view.rows .container, ∃ edbc ∈ etcdDBCs, storedKey edbc = storedKey dbc)
    (hFound : ∀ edbc ∈ etcdDBCs, ∃ dbc ∈ view.rows .container, storedKey dbc = storedKey edbc)
    (hSame : ∀ dbc ∈ view.rows .container, ∀ edbc ∈ etcdDBCs, storedKey dbc = storedKey edbc →
      copyContainer edbc dbc = dbc) (ords : Nat → MapOrder) :
    joinContainers ords view etcdDBCs = .ok view := by
  have hJoin := hashJoin_reconciles (ords 1) (view.selectAll (ords 0) .container) etcdDBCs
    storedKey storedKey
  rw [joinContainers_eq_commitAll hEtcd hRows hFound]
  refine view.commitAll_self _ (fun p hp => ?_)
  obtain ⟨q, hq, rfl⟩ := List.mem_map.mp hp
  have hRow : q.L ∈ view.rows .container := view.mem_selectAll.mp (hJoin.left_mem hq)
  rw [Pair.swap, hSame q.L hRow q.R (hJoin.right_mem hq) (hJoin.sameKey q hq)]
  exact hRow

theorem joinContainers_copies {follower : Database} {etcdDBCs : List Container}
    (hRows : ((follower.rows .container).map storedKey).Nodup)
    (hEtcd : (etcdDBCs.map Container.blueprintID).Nodup) (ords : Nat → MapOrder) :
    ∃ view', joinContainers ords follower etcdDBCs = .ok view' ∧
      Touches .container follower view' ∧
      ((view'.rows .container).map copiedFields).Perm (etcdDBCs.map copiedFields) ∧
      ∀ ords' later, later.rows = view'.rows → joinContainers ords' later etcdDBCs = .ok later := by
  have hKeys : (etcdDBCs.map storedKey).Nodup := by
    apply List.Nodup.of_map ContainerKey.blueprintID
    rw [List.map_map]
    exact hEtcd
  have hJoin := (hashJoin_reconciles (ords 1) (follower.selectAll (ords 0) .container) etcdDBCs
    storedKey storedKey).swap
    (((follower.selectAll_perm (ords 0) .container).map _).nodup_iff.mpr hRows) hKeys
  obtain ⟨view', hRun, hRec, hTouches⟩ := commitAll_reconciled .container follower hJoin
    (follower.selectAll_perm (ords 0) .container)
    (show ∀ edbc dbc : Container, getID .container (copyContainer edbc dbc) =
      getID .container dbc from fun _ _ => rfl) (fun _ _ => rfl)
  have hStored : joinContainers ords follower etcdDBCs = .ok view' := by
    simp only [joinContainers, containerKey_eq_storedKey]
    exact hRun
  refine ⟨view', hStored, hTouches, ?_, ?_⟩
  · have hKey : ∀ dbc, storedKey dbc = storedKey (copiedFields dbc) := fun _ => rfl
    exact perm_of_reconciled hRec hKeys hKey (fun _ _ _ _ _ => rfl) (fun _ _ => rfl)
  · intro ords' later hLater
    refine joinContainers_self hKeys (fun dbc hd => ?_) (fun edbc he => ?_)
      (fun dbc hd edbc he hEq => ?_) ords'
    · obtain ⟨edbc, he, hEq, -⟩ := hRec.origin dbc (hLater ▸ hd)
      exact ⟨edbc, he, hEq.symm⟩
    · rw [hLater]
      exact hRec.covers edbc he
    · obtain ⟨edbc', he', hEq', ⟨old, -, -, rfl⟩ | ⟨-, id, -, rfl⟩⟩ := hRec.origin dbc (hLater ▸ hd)
      · obtain rfl := List.inj_on_of_nodup_map hKeys he he' (hEq.symm.trans hEq')
        rfl
      · obtain rfl := List.inj_on_of_nodup_map hKeys he he' (hEq.symm.trans hEq')
        rfl

end Joins

section Replication

variable {leader follower : Database}

/-- A connection whose hostnames the bindings accept. -/
def ValidConnection (c : Connection) : Prop :=
  (∀ host ∈ c.fromHosts, ValidHost host) ∧ ∀ host ∈ c.toHosts, ValidHost host

theorem dbcKey_inj {c c' : Connection} (hc : ValidConnection c) (hc' : ValidConnection c')
    (h : dbcKey c = dbcKey c') : wireConnection c = wireConnection c' := by
  obtain ⟨hFrom, hTo, hMin, hMax⟩ := connectionKey_inj hc.1 hc'.1 hc.2 hc'.2 h
  rw [wireConnection, wireConnection, Connection.mk.injEq]
  exact ⟨rfl, hFrom, hTo, hMin, hMax⟩

/-- The rows that the leader has to write, and the follower to keep. -/
def runsOn (self : Minion) (dbc : Container) : Bool :=
  dbc.minion ≠ "" ∧ dbc.ip ≠ "" ∧ (self.role = .master ∨ dbc.minion = self.privateIP)

theorem select_perm (view : Database) (ord : MapOrder) (tt : TableType) (check : RowOf tt → Bool) :
    (view.select ord tt check).Perm ((view.rows tt).filter check) :=
  (ord.perm _).filter _

/-- The rows that the leader writes are in one order, whatever the walk. -/
theorem sorted_eq {tt : TableType} {ρ : Type} [LinearOrder ρ] {less : RowOf tt → RowOf tt → Bool}
    {rank : RowOf tt → ρ} (hLess : ∀ a b, less a b = true ↔ rank a < rank b)
    (check : RowOf tt → Bool) (hRank : ((leader.rows tt).map rank).Nodup) (ord : MapOrder) :
    sortSlice less (leader.select ord tt check) =
      sortSlice less ((leader.rows tt).filter check) := by
  have hPerm := select_perm leader ord tt check
  apply sortSlice_eq hLess hPerm
  exact (hPerm.map rank).nodup_iff.mpr (hRank.sublist (List.filter_sublist.map rank))

theorem mem_sortSlice {α : Type} {less : α → α → Bool} {rows : List α} {r : α} :
    r ∈ sortSlice less rows ↔ r ∈ rows := (sortSlice_perm less rows).mem_iff

/-- Both sides of one table: the text of the leader, and what a follower does
with it. -/
theorem publishes_follows {tt : TableType} {table : Synced tt} {etcd : DB.Etcd}
    {ρ : Type} [LinearOrder ρ] {rank : RowOf tt → ρ} {wire : RowOf tt → RowOf tt}
    {copied : List (RowOf tt) → Prop} (hEtcd : leader.rows .etcd = [etcd])
    (hLead : etcd.leader = true) (hFollower : ∀ ord, etcdLeader ord follower = false)
    (hTable : tt ≠ .etcd) (hLess : ∀ a b, table.less a b = true ↔ rank a < rank b)
    (hRank : ((leader.rows tt).map rank).Nodup)
    (hJson : ∀ rows ⊆ leader.rows tt, table.codec.RoundTrips wire rows)
    (hJoin : ∀ etcdRows : List (RowOf tt),
      etcdRows.Perm (((leader.rows tt).filter table.check).map wire) →
      ∀ ords, ∃ view', table.updateNonLeader ords follower etcdRows = .ok view' ∧
        Touches tt follower view' ∧ copied (view'.rows tt) ∧
        ∀ ords' later, later.rows = view'.rows →
          table.updateNonLeader ords' later etcdRows = .ok later) :
    ∃ s, Publishes table leader s ∧ Follows table s follower copied := by
  have hSubset : sortSlice table.less ((leader.rows tt).filter table.check) ⊆ leader.rows tt :=
    fun r hr => List.mem_of_mem_filter (mem_sortSlice.mp hr)
  obtain ⟨s, hWrite, hRead⟩ := hJson _ hSubset
  refine ⟨s, publishes_of_sorted hEtcd hLead (sorted_eq hLess table.check hRank) hWrite hRead, ?_⟩
  have hRows : (table.codec.unmarshal s).1 = _ := congrArg Prod.fst hRead
  exact follows_of_join hTable hFollower hRows (hJoin _ ((sortSlice_perm _ _).map wire))

theorem connections_replicate {etcd : DB.Etcd} (hEtcd : leader.rows .etcd = [etcd])
    (hLead : etcd.leader = true) (hFollower : ∀ ord, etcdLeader ord follower = false)
    (hDistinct : ((leader.rows .connection).map wireConnection).Nodup)
    (hNames : ∀ c ∈ leader.rows .connection, ValidConnection c)
    (hNames' : ∀ c ∈ follower.rows .connection, ValidConnection c)
    (hKeys : ((follower.rows .connection).map dbcKey).Nodup)
    (hJson : ∀ rows ⊆ leader.rows .connection, connectionCodec.RoundTrips wireConnection rows) :
    ∃ s, Publishes connections leader s ∧ Follows connections s follower (fun rows =>
      (rows.map wireConnection).Perm ((leader.rows .connection).map wireConnection)) := by
  have hLess : ∀ c o, connections.less c o = true ↔ Connection.rank c < Connection.rank o :=
    Connection.less_iff
  have hRank : ((leader.rows .connection).map Connection.rank).Nodup := by
    apply List.Nodup.of_map (fun rank => (ofLex (ofLex (ofLex (ofLex rank).2).2).2).2)
    rw [List.map_map]
    exact leader.nodup .connection
  apply publishes_follows hEtcd hLead hFollower (by decide) hLess hRank hJson
  intro etcdRows hPerm ords
  have hAll : (leader.rows .connection).filter connections.check = leader.rows .connection :=
    List.filter_eq_self.mpr (fun _ _ => rfl)
  rw [hAll] at hPerm
  have hValid : ∀ d ∈ etcdRows, ValidConnection d := by
    intro d hd
    obtain ⟨c, hc, rfl⟩ := List.mem_map.mp (hPerm.mem_iff.mp hd)
    exact hNames c hc
  have hWire : ∀ d ∈ etcdRows, wireConnection d = d := by
    intro d hd
    obtain ⟨c, -, rfl⟩ := List.mem_map.mp (hPerm.mem_iff.mp hd)
    rfl
  have hEtcdKeys : (etcdRows.map dbcKey).Nodup := by
    refine (hPerm.nodup_iff.mpr hDistinct).map_on (fun d hd d' hd' hKey => ?_)
    rw [← hWire d hd, ← hWire d' hd']
    exact dbcKey_inj (hValid d hd) (hValid d' hd') hKey
  obtain ⟨view', hRun, hTouches, hCopied, hAgain⟩ := joinRows_copies .connection renumberConnection
    wireConnection dbcKey hKeys hEtcdKeys (fun _ => rfl) (fun _ _ => rfl) (fun _ _ => rfl)
    (fun r hr d hd hKey => dbcKey_inj (hNames' r hr) (hValid d hd) hKey) ords
  refine ⟨view', hRun, hTouches, hCopied.trans ?_, hAgain⟩
  rw [List.map_congr_left hWire, List.map_id']
  exact hPerm

theorem hostnames_replicate {etcd : DB.Etcd} (hEtcd : leader.rows .etcd = [etcd])
    (hLead : etcd.leader = true) (hFollower : ∀ ord, etcdLeader ord follower = false)
    (hDistinct : ((leader.rows .hostname).map wireHostname).Nodup)
    (hKeys : ((follower.rows .hostname).map hostnameKey).Nodup)
    (hJson : ∀ rows ⊆ leader.rows .hostname, hostnameCodec.RoundTrips wireHostname rows) :
    ∃ s, Publishes hostnames leader s ∧ Follows hostnames s follower (fun rows =>
      (rows.map wireHostname).Perm ((leader.rows .hostname).map wireHostname)) := by
  have hLess : ∀ r r2, hostnames.less r r2 = true ↔ Hostname.rank r < Hostname.rank r2 :=
    Hostname.less_iff
  have hRank : ((leader.rows .hostname).map Hostname.rank).Nodup := by
    apply List.Nodup.of_map (fun rank => (ofLex rank).2)
    rw [List.map_map]
    exact leader.nodup .hostname
  apply publishes_follows hEtcd hLead hFollower (by decide) hLess hRank hJson
  intro etcdRows hPerm ords
  have hAll : (leader.rows .hostname).filter hostnames.check = leader.rows .hostname :=
    List.filter_eq_self.mpr (fun _ _ => rfl)
  rw [hAll] at hPerm
  have hWire : ∀ d ∈ etcdRows, wireHostname d = d := by
    intro d hd
    obtain ⟨r, -, rfl⟩ := List.mem_map.mp (hPerm.mem_iff.mp hd)
    rfl
  have hEtcdKeys : (etcdRows.map hostnameKey).Nodup := by
    refine (hPerm.nodup_iff.mpr hDistinct).map_on (fun d hd d' hd' hKey => ?_)
    rw [← hWire d hd, ← hWire d' hd']
    exact hKey
  obtain ⟨view', hRun, hTouches, hCopied, hAgain⟩ := joinRows_copies .hostname renumberHostname
    wireHostname (fun r => r) hKeys hEtcdKeys (fun _ => rfl) (fun _ _ => rfl) (fun _ _ => rfl)
    (fun _ _ _ _ hKey => hKey) ords
  refine ⟨view', hRun, hTouches, hCopied.trans ?_, hAgain⟩
  rw [List.map_congr_left hWire, List.map_id']
  exact hPerm

theorem containers_replicate {fmt : TimeFormat} {etcd : DB.Etcd} {self : Minion}
    (hEtcd : leader.rows .etcd = [etcd]) (hLead : etcd.leader = true)
    (hFollower : ∀ ord, etcdLeader ord follower = false)
    (hSelf : ∀ ord, minionSelf ord follower = .ok self)
    (hDistinct : ((leader.rows .container).map Container.blueprintID).Nodup)
    (hKeys : ((follower.rows .container).map storedKey).Nodup)
    (hJson : ∀ rows ⊆ leader.rows .container,
      (containerCodec fmt).RoundTrips wireContainer rows) :
    ∃ s, Publishes (containers fmt) leader s ∧ Follows (containers fmt) s follower (fun rows =>
      (rows.map copiedFields).Perm
        (((leader.rows .container).filter (runsOn self)).map copiedFields)) := by
  have hLess : ∀ c r, (containers fmt).less c r = true ↔
      Container.blueprintID c < Container.blueprintID r := fun _ _ => decide_eq_true_iff
  apply publishes_follows hEtcd hLead hFollower (by decide) hLess hDistinct hJson
  intro etcdRows hPerm ords
  have hKept : (etcdRows.filter (fun dbc => self.role = .master ∨ dbc.minion = self.privateIP)).Perm
      (((leader.rows .container).filter (runsOn self)).map wireContainer) := by
    refine (hPerm.filter _).trans (List.Perm.of_eq ?_)
    rw [List.filter_map, List.filter_filter]
    congr 1
    apply List.filter_congr
    intro dbc _
    simp only [containers, runsOn, Function.comp, wireContainer]
    grind
  have hIDs : ((etcdRows.filter (fun dbc => self.role = .master ∨
      dbc.minion = self.privateIP)).map Container.blueprintID).Nodup := by
    refine (hKept.map _).nodup_iff.mpr ?_
    rw [List.map_map]
    exact hDistinct.sublist (List.filter_sublist.map _)
  obtain ⟨view', hRun, hTouches, hCopied, hAgain⟩ :=
    joinContainers_copies hKeys hIDs (laterOrders ords 1)
  refine ⟨view', ?_, hTouches, hCopied.trans ((hKept.map _).trans ?_), ?_⟩
  · change updateNonLeader ords follower etcdRows = _
    rw [updateNonLeader, hSelf]
    exact hRun
  · rw [List.map_map]
    rfl
  · intro ords' later hLater
    have hMinion : later.rows .minion = follower.rows .minion := by
      rw [hLater]
      exact hTouches.rows _ (by decide)
    change updateNonLeader ords' later etcdRows = _
    rw [updateNonLeader, minionSelf_congr hMinion, hSelf]
    exact hAgain (laterOrders ords' 1) later hLater

/-- Each of the three tables is published in one text, and a run on the text
makes the table of the follower a copy of it. -/
structure Replicated (fmt : TimeFormat) (leader follower : Database) (self : Minion) : Prop where
  connections : ∃ s, Publishes connections leader s ∧ Follows connections s follower (fun rows =>
    (rows.map wireConnection).Perm ((leader.rows .connection).map wireConnection))
  hostnames : ∃ s, Publishes hostnames leader s ∧ Follows hostnames s follower (fun rows =>
    (rows.map wireHostname).Perm ((leader.rows .hostname).map wireHostname))
  containers : ∃ s, Publishes (containers fmt) leader s ∧
    Follows (containers fmt) s follower (fun rows =>
      (rows.map copiedFields).Perm
        (((leader.rows .container).filter (runsOn self)).map copiedFields))

/-- The tables of a follower become copies of those of the leader, one run after
the leader has published them. -/
theorem followers_replicate (fmt : TimeFormat) (leader follower : Database) (etcd : DB.Etcd)
    (self : Minion) (hEtcd : leader.rows .etcd = [etcd]) (hLead : etcd.leader = true)
    (hFollower : ∀ ord, etcdLeader ord follower = false)
    (hSelf : ∀ ord, minionSelf ord follower = .ok self)
    (hConnections : ((leader.rows .connection).map wireConnection).Nodup)
    (hHostnames : ((leader.rows .hostname).map wireHostname).Nodup)
    (hContainers : ((leader.rows .container).map Container.blueprintID).Nodup)
    (hNames : ∀ c ∈ leader.rows .connection, ValidConnection c)
    (hFollowerNames : ∀ c ∈ follower.rows .connection, ValidConnection c)
    (hConnectionKeys : ((follower.rows .connection).map dbcKey).Nodup)
    (hHostnameKeys : ((follower.rows .hostname).map hostnameKey).Nodup)
    (hContainerKeys : ((follower.rows .container).map storedKey).Nodup)
    (hConnectionJson : ∀ rows ⊆ leader.rows .connection,
      connectionCodec.RoundTrips wireConnection rows)
    (hHostnameJson : ∀ rows ⊆ leader.rows .hostname, hostnameCodec.RoundTrips wireHostname rows)
    (hContainerJson : ∀ rows ⊆ leader.rows .container,
      (containerCodec fmt).RoundTrips wireContainer rows) :
    Replicated fmt leader follower self where
  connections := connections_replicate hEtcd hLead hFollower hConnections hNames hFollowerNames
    hConnectionKeys hConnectionJson
  hostnames := hostnames_replicate hEtcd hLead hFollower hHostnames hHostnameKeys hHostnameJson
  containers := containers_replicate hEtcd hLead hFollower hSelf hContainers hContainerKeys
    hContainerJson

/-- A leader with one row in each table. -/
def sampleLeader : Database where
  rows
    | .etcd => [{ id := 1, leader := true }]
    | .connection =>
      [{ id := 2, fromHosts := ["public"], toHosts := ["web"], minPort := 80, maxPort := 80 }]
    | .hostname => [{ id := 3, hostname := "web", ip := "10.0.0.2" }]
    | .container =>
      [{ id := 4, ip := "10.0.0.2", minion := "172.31.0.2", blueprintID := "1a", hostname := "web",
          image := "nginx", env := (∅ : StringMap _).insert "KEY" (.secret "key") }]
    | _ => []
  shouldAlert := fun _ => false
  curID := 4
  nodup := fun tt => by cases tt <;> simp
  bounded := fun tt => by cases tt <;> simp [getID]

/-- A worker whose tables hold other rows. -/
def sampleFollower : Database where
  rows
    | .etcd => [{ id := 1 }]
    | .minion => [{ id := 2, self := true, role := .worker, privateIP := "172.31.0.2" }]
    | .connection => [{ id := 3, fromHosts := ["web"], toHosts := ["public"] }]
    | .container => [{ id := 4, blueprintID := "gone" }]
    | _ => []
  shouldAlert := fun _ => false
  curID := 4
  nodup := fun tt => by cases tt <;> simp
  bounded := fun tt => by cases tt <;> simp [getID]

theorem sampleFollower_follows (ord : MapOrder) : etcdLeader ord sampleFollower = false :=
  etcdLeader_of_rows (show sampleFollower.rows .etcd = [{ id := 1 }] from rfl) ord

/-- A format of the zero time. -/
def sampleFormat : TimeFormat := ⟨fun _ => some "0001-01-01T00:00:00Z", fun _ => some 0⟩

theorem sampleLeader_portable : ∀ c ∈ sampleLeader.rows .container, Portable sampleFormat c := by
  intro c hc
  rw [List.mem_singleton.mp hc]
  refine ⟨⟨_, rfl, rfl⟩, fun key hLookup => ?_, fun key hLookup => ?_⟩
  · by_cases hKey : key = "KEY"
    · rw [hKey, Finmap.lookup_insert] at hLookup
      simp at hLookup
    · rw [Finmap.lookup_insert_of_ne _ hKey] at hLookup
      cases hLookup
  · cases hLookup

theorem followers_replicate_sample :
    Replicated sampleFormat sampleLeader sampleFollower
      { id := 2, self := true, role := .worker, privateIP := "172.31.0.2" } := by
  have hPorts : ∀ rows ⊆ sampleLeader.rows .connection,
      connectionCodec.RoundTrips wireConnection rows := by
    intro rows hRows
    refine connectionCodec_roundTrips (fun c hc => ?_) (fun c hc => ?_)
    · rw [List.mem_singleton.mp (hRows hc)]
      decide
    · rw [List.mem_singleton.mp (hRows hc)]
      decide
  have hNames : ∀ c ∈ sampleLeader.rows .connection, ValidConnection c := by
    intro c hc
    rw [List.mem_singleton.mp hc]
    exact ⟨by decide, by decide⟩
  have hNames' : ∀ c ∈ sampleFollower.rows .connection, ValidConnection c := by
    intro c hc
    rw [List.mem_singleton.mp hc]
    exact ⟨by decide, by decide⟩
  exact followers_replicate sampleFormat sampleLeader sampleFollower { id := 1, leader := true }
    { id := 2, self := true, role := .worker, privateIP := "172.31.0.2" } rfl rfl
    sampleFollower_follows (minionSelf_of_rows rfl rfl) (List.nodup_singleton _)
    (List.nodup_singleton _) (List.nodup_singleton _) hNames hNames' (List.nodup_singleton _)
    List.nodup_nil (List.nodup_singleton _) hPorts
    (fun rows _ => hostnameCodec_roundTrips rows)
    (fun rows hRows => containerCodec_roundTrips (fun c hc =>
      sampleLeader_portable c (hRows hc)))

section OddName

/-- A view with one connection. -/
def connectionView (leads : Bool) (c : Connection) (h : c.id = 2) : Database where
  rows
    | .etcd => [{ id := 1, leader := leads }]
    | .connection => [c]
    | _ => []
  shouldAlert := fun _ => false
  curID := 2
  nodup := fun tt => by cases tt <;> simp
  bounded := fun tt => by cases tt <;> simp [getID, h]

def twoNames : Connection := { id := 2, fromHosts := ["a", "b"] }

/-- One name that looks like two in the key of the join. -/
def oddName : Connection := { id := 2, fromHosts := ["a b"] }

/-- A follower with such a row keeps it instead of the one of the leader. -/
theorem oddName_not_replaced :
    ValidConnection twoNames ∧
      (((connectionView false oddName rfl).rows .connection).map dbcKey).Nodup ∧
      (∀ rows ⊆ (connectionView true twoNames rfl).rows .connection,
        connectionCodec.RoundTrips wireConnection rows) ∧
      (∃ s, Publishes connections (connectionView true twoNames rfl) s ∧
        Follows connections s (connectionView false oddName rfl) (fun rows => rows = [oddName])) ∧
      ¬([oddName].map wireConnection).Perm ([twoNames].map wireConnection) := by
  have hJson : ∀ rows ⊆ (connectionView true twoNames rfl).rows .connection,
      connectionCodec.RoundTrips wireConnection rows := by
    intro rows hRows
    refine connectionCodec_roundTrips (fun c hc => ?_) (fun c hc => ?_)
    · rw [List.mem_singleton.mp (hRows hc)]
      decide
    · rw [List.mem_singleton.mp (hRows hc)]
      decide
  refine ⟨⟨by decide, by decide⟩, List.nodup_singleton _, hJson, ?_, by decide⟩
  have hLess : ∀ c o, connections.less c o = true ↔ Connection.rank c < Connection.rank o :=
    Connection.less_iff
  have hFollower : ∀ ord, etcdLeader ord (connectionView false oddName rfl) = false :=
    fun ord => etcdLeader_of_rows
      (show (connectionView false oddName rfl).rows .etcd = [{ id := 1 }] from rfl) ord
  apply publishes_follows (show (connectionView true twoNames rfl).rows .etcd =
    [{ id := 1, leader := true }] from rfl) rfl hFollower (by decide) hLess
    (List.nodup_singleton _) hJson
  intro etcdRows hPerm ords
  obtain rfl : etcdRows = [wireConnection twoNames] := List.perm_singleton.mp hPerm
  have hKey : dbcKey (wireConnection twoNames) = dbcKey oddName := by decide
  have hSelf : ∀ ords later, later.rows = (connectionView false oddName rfl).rows →
      joinConnections ords later [wireConnection twoNames] = .ok later := by
    intro ords later hLater
    have hRows : later.rows .connection = [oddName] := by
      rw [hLater]
      rfl
    have hNodup : ([wireConnection twoNames].map dbcKey).Nodup := List.nodup_singleton _
    refine joinRows_self hNodup ?_ ?_ ords
    · rw [hRows]
      simp [hKey]
    · rw [hRows]
      simp [hKey]
  exact ⟨_, hSelf ords _ rfl, Touches.refl _ _, rfl, hSelf⟩

end OddName

end Replication

end Kelda.Etcd
