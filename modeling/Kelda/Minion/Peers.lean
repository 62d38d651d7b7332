import Kelda.Etcd.Minion
import Kelda.Minion.Server
import Kelda.Util.Str

/-! What a minion knows of itself and of its peers. Three loops write to the
table of minions: the server, the reader of the routes of the machine and the
reader of the store. -/
namespace Kelda

namespace Network

open DB

/-- A route of the machine. The default route has no destination. -/
structure Route where
  linkIndex : Int
  dst : Option String

/-- The bridge that is controlled by the minion. -/
def keldaBridge : String := "kelda-int"

/-- The destinations of the routes, without the bridge and the default route. A
link that cannot be read is an error. -/
def routeSubnets (linkByIndex : Int → Except String String) :
    List Route → Except String (List String)
  | [] => .ok []
  | r :: routes =>
    match linkByIndex r.linkIndex with
    | .error err => .error ("get link: " ++ err)
    | .ok name =>
      match r.dst with
      | none => routeSubnets linkByIndex routes
      | some dst =>
        if name = keldaBridge then routeSubnets linkByIndex routes
        else (routeSubnets linkByIndex routes).map (dst :: ·)

def withSubnets (subnets : List String) (self : Minion) : Minion :=
  { self with hostSubnets := subnets }

/-- The transaction of writeSubnetsOnce. -/
def commitSubnets (ord : MapOrder) (subnets : List String) (view : Database) :
    Except String Database := do
  let self ← minionSelf ord view
  if Str.sliceCmp subnets self.hostSubnets = 0 then pure view
  else view.commit .minion (withSubnets subnets self)

/-- The inner error is returned to the caller. -/
def writeSubnetsOnce (ord : MapOrder) (routeList : Except String (List Route))
    (linkByIndex : Int → Except String String) (view : Database) :
    Except String (Except String Database) :=
  match routeList with
  | .error err => .ok (.error ("list routes: " ++ err))
  | .ok routes =>
    match routeSubnets linkByIndex routes with
    | .error err => .ok (.error err)
    | .ok subnets => (commitSubnets ord (sortStrings subnets) view).map .ok

end Network

namespace Minion

open DB PB Etcd
open Network (Route writeSubnetsOnce commitSubnets)

section Runs

/-- A write to the table of minions, with all that it reads from elsewhere. -/
inductive Write where
  | setMinionConfig (ords : Nat → MapOrder) (msg : MinionConfig)
  | writeSubnets (ord : MapOrder) (routeList : Except String (List Route))
      (linkByIndex : Int → Except String String)
  | readMinion (ords : Nat → MapOrder) (tree : Option (List String))

/-- A call that returns an error leaves the database as it was. -/
def Write.exec : Write → Database → Except String Database
  | .setMinionConfig ords msg, view => do
    match ← Minion.setMinionConfig ords msg view with
    | .ok view' => pure view'
    | .error _ => pure view
  | .writeSubnets ord routeList linkByIndex, view => do
    match ← writeSubnetsOnce ord routeList linkByIndex view with
    | .ok view' => pure view'
    | .error _ => pure view
  | .readMinion ords tree, view => Etcd.readMinion ords tree view

def ownRow (role : DB.Role) (m : Minion) : Minion := { m with role := role, self := true }

/-- The minion starts with its own row. -/
def start (role : DB.Role) : Except String Database :=
  Database.empty.addRow .minion (ownRow role)

def run (role : DB.Role) (writes : List Write) : Except String Database := do
  writes.foldlM (fun view w => w.exec view) (← start role)

/-- The entries in the store are plain whenever they are read. -/
def Write.Plain : Write → Prop
  | .readMinion _ (some values) => Etcd.Plain (values.filterMap decodeMinion)
  | _ => True

end Runs

section Steps

/-- The minion has one row of its own, and those of the others have no keys. -/
structure Knows (view : Database) (m : Minion) : Prop where
  stored : ∃ etcdIPs blueprint, Stored view m etcdIPs blueprint
  keys : ∀ r ∈ peers view, r.authorizedKeys = ""

variable {view : Database} {m : Minion}

theorem Knows.self (h : Knows view m) : (view.rows .minion).filter Minion.self = [m] := by
  obtain ⟨etcdIPs, blueprint, hStored⟩ := h.stored
  exact hStored.self

theorem Knows.minionSelf (h : Knows view m) (ord : MapOrder) : minionSelf ord view = .ok m :=
  minionSelf_eq_ok_iff.mpr h.self

/-- The rows of the others stay. -/
theorem filter_peers_replaceRow {m' : Minion} (hSelf : (view.rows .minion).filter Minion.self = [m])
    (hID : m'.id = m.id) (hSelf' : m'.self = true) :
    (Database.replaceRow .minion m' (view.rows .minion)).filter (fun m => !m.self) = peers view := by
  have hm : m ∈ view.rows .minion ∧ m.self = true := by
    rw [← List.mem_filter, hSelf]
    exact List.mem_singleton_self m
  have hSame := replaced_self hSelf hID hSelf'
  have hFilter := List.filter_congr (fun old hOld => congrArg not (hSame old hOld))
  rw [Database.replaceRow, List.filter_map]
  refine (congrArg (List.map _) hFilter).trans ?_
  conv_rhs => rw [peers, ← List.map_id (List.filter _ _)]
  apply List.map_congr_left
  intro old hOld
  apply if_neg
  intro hEq
  obtain ⟨hOld, hNotSelf⟩ := List.mem_filter.mp hOld
  rw [view.eq_of_getID_eq hOld hm.1 (hEq.trans hID), hm.2] at hNotSelf
  exact absurd hNotSelf (by decide)

theorem peers_of_replaceRow {view' : Database} {m' : Minion}
    (hSelf : (view.rows .minion).filter Minion.self = [m]) (hID : m'.id = m.id)
    (hSelf' : m'.self = true)
    (hRows : view'.rows .minion = Database.replaceRow .minion m' (view.rows .minion)) :
    peers view' = peers view := by
  rw [peers, hRows]
  exact filter_peers_replaceRow hSelf hID hSelf'

/-- The other tables are left alone. -/
theorem Knows.of_touches (h : Knows view m) {view' : Database} {m' : Minion}
    (hTouches : Database.Touches .minion view view')
    (hSelf : (view'.rows .minion).filter Minion.self = [m'])
    (hKeys : ∀ r ∈ peers view', r.authorizedKeys = "") : Knows view' m' := by
  obtain ⟨etcdIPs, blueprint, hStored⟩ := h.stored
  refine ⟨⟨etcdIPs, blueprint, hSelf, ?_, ?_⟩, hKeys⟩
  · rw [hTouches.rows _ (by decide)]
    exact hStored.etcd
  · rw [hTouches.rows _ (by decide)]
    exact hStored.blueprint

theorem Knows.setMinionConfig (h : Knows view m) (ords : Nat → MapOrder) (msg : MinionConfig) :
    ∃ view' m', (Write.setMinionConfig ords msg).exec view = .ok view' ∧ Knows view' m' ∧
      peers view' = peers view := by
  rw [Write.exec, Minion.setMinionConfig]
  cases Blueprint.fromJSON msg.blueprint with
  | error err => exact ⟨view, m, rfl, h, rfl⟩
  | ok bp =>
      obtain ⟨etcdIPs, blueprint, hStored⟩ := h.stored
      obtain ⟨view', hApply, hStored', hRows⟩ : ∃ view', applyConfig ords msg bp view = .ok view' ∧
          Stored view' (configured msg m) _ _ ∧ _ := hStored.applyConfig bp
      have hID : (configured msg m).id = m.id := rfl
      have hPeers := peers_of_replaceRow h.self hID rfl hRows
      refine ⟨view', configured msg m, ?_, ⟨⟨_, _, hStored'⟩, hPeers ▸ h.keys⟩, hPeers⟩
      simp only [hApply]
      rfl

theorem Knows.commitSubnets (h : Knows view m) (ord : MapOrder) (subnets : List String) :
    ∃ view' m', commitSubnets ord subnets view = .ok view' ∧ Knows view' m' ∧
      peers view' = peers view := by
  have hm := minionSelf_mem (h.minionSelf ord)
  simp only [Network.commitSubnets, h.minionSelf ord, bind, Except.bind]
  split_ifs
  · exact ⟨view, m, rfl, h, rfl⟩
  · have hID : (Network.withSubnets subnets m).id = m.id := rfl
    obtain ⟨view', hCommit, hRows, -, hTouches⟩ :=
      view.commit_spec (r := Network.withSubnets subnets m) hm.1 rfl
    have hPeers := peers_of_replaceRow h.self hID hm.2 hRows
    have hSelf : (view'.rows .minion).filter Minion.self = [Network.withSubnets subnets m] := by
      rw [hRows]
      exact filter_self_replaceRow h.self hID hm.2
    exact ⟨view', _, hCommit, h.of_touches hTouches hSelf (hPeers ▸ h.keys), hPeers⟩

theorem Knows.writeSubnets (h : Knows view m) (ord : MapOrder)
    (routeList : Except String (List Route)) (linkByIndex : Int → Except String String) :
    ∃ view' m', (Write.writeSubnets ord routeList linkByIndex).exec view = .ok view' ∧
      Knows view' m' ∧ peers view' = peers view := by
  cases routeList with
  | error err => exact ⟨view, m, rfl, h, rfl⟩
  | ok routes =>
      cases hSubnets : Network.routeSubnets linkByIndex routes with
      | error err =>
          refine ⟨view, m, ?_, h, rfl⟩
          simp only [Write.exec, writeSubnetsOnce, hSubnets]
          rfl
      | ok subnets =>
          obtain ⟨view', m', hCommit, hKnows⟩ :=
            h.commitSubnets ord (Network.sortStrings subnets)
          refine ⟨view', m', ?_, hKnows⟩
          simp only [Write.exec, writeSubnetsOnce, hSubnets, hCommit]
          rfl

/-- Reading the store leaves the own row alone. -/
theorem Knows.readMinion (h : Knows view m) (ords : Nat → MapOrder) (tree : Option (List String)) :
    ∃ view', Etcd.readMinion ords tree view = .ok view' ∧ Knows view' m := by
  cases tree with
  | none => exact ⟨view, rfl, h⟩
  | some values =>
      obtain ⟨view', hRead, hTouches, hSelf, hPeers⟩ := readMinion_rows h.self ords values
      refine ⟨view', hRead, h.of_touches hTouches hSelf ?_⟩
      intro r hr
      rw [hPeers] at hr
      rcases List.mem_append.mp hr with hOld | hNew
      · exact h.keys r (List.mem_of_mem_filter hOld)
      · obtain ⟨k, hk, rfl⟩ := List.mem_mapIdx.mp hNew
        have hMem := (peerJoin_reconciles ords values view m).rights.mem_iff.mp
          (List.mem_append_right _ (List.getElem_mem hk))
        exact (foreign_of_mem_others hMem).2.2

/-- Rows that are copied from plain entries are plain. -/
theorem Knows.plain_readMinion (h : Knows view m) {ords : Nat → MapOrder} {values : List String}
    {view' : Database} (hRead : Etcd.readMinion ords (some values) view = .ok view')
    (hStore : Etcd.Plain (values.filterMap decodeMinion)) (hRows : Etcd.Plain (peers view)) :
    Etcd.Plain (peers view') := by
  have hPerm := readMinion_exact h.self h.keys hRows hStore hRead
  exact plain_map_id.mp ((hStore.filter _).perm hPerm.symm)

/-- Every write succeeds, and keeps what is known. -/
theorem Knows.exec (h : Knows view m) (w : Write) :
    ∃ view' m', w.exec view = .ok view' ∧ Knows view' m' ∧
      (w.Plain → Etcd.Plain (peers view) → Etcd.Plain (peers view')) := by
  cases w with
  | setMinionConfig ords msg =>
      obtain ⟨view', m', hExec, hKnows, hPeers⟩ := h.setMinionConfig ords msg
      exact ⟨view', m', hExec, hKnows, fun _ => hPeers ▸ id⟩
  | writeSubnets ord routeList linkByIndex =>
      obtain ⟨view', m', hExec, hKnows, hPeers⟩ := h.writeSubnets ord routeList linkByIndex
      exact ⟨view', m', hExec, hKnows, fun _ => hPeers ▸ id⟩
  | readMinion ords tree =>
      obtain ⟨view', hRead, hKnows⟩ := h.readMinion ords tree
      refine ⟨view', m, hRead, hKnows, fun hStore hRows => ?_⟩
      cases tree with
      | none => exact Except.ok.inj hRead ▸ hRows
      | some values => exact h.plain_readMinion hRead hStore hRows

end Steps

section Reachable

theorem start_knows (role : DB.Role) :
    ∃ view m, start role = .ok view ∧ Knows view m ∧ peers view = [] := by
  obtain ⟨view, hAdd, hRows, -, hTouches⟩ :=
    @Database.addRow_spec Database.empty .minion (ownRow role) rfl
  have hPeers : peers view = [] := by
    rw [peers, hRows]
    rfl
  have hSelf : (view.rows .minion).filter Minion.self = [ownRow role (blankRow .minion 1)] := by
    rw [hRows]
    rfl
  refine ⟨view, _, hAdd, ⟨⟨[], "", hSelf, ?_, ?_⟩, by simp [hPeers]⟩, hPeers⟩
  · exact .inl ⟨hTouches.rows _ (by decide), rfl⟩
  · exact .inl ⟨hTouches.rows _ (by decide), rfl⟩

/-- No write fails. What is known is kept from write to write. -/
theorem Knows.writes {view : Database} {m : Minion} (h : Knows view m) (writes : List Write) :
    ∃ view' m', writes.foldlM (fun view w => w.exec view) view = .ok view' ∧ Knows view' m' ∧
      ((∀ w ∈ writes, w.Plain) → Etcd.Plain (peers view) → Etcd.Plain (peers view')) := by
  induction writes generalizing view m with
  | nil => exact ⟨view, m, rfl, h, fun _ => id⟩
  | cons w writes ih =>
      obtain ⟨mid, mMid, hExec, hMid, hPlain⟩ := h.exec w
      obtain ⟨view', m', hRest, hKnows, hPlain'⟩ := ih hMid
      refine ⟨view', m', ?_, hKnows, fun hAll hRows => ?_⟩
      · rw [List.foldlM_cons, hExec]
        exact hRest
      · exact hPlain' (fun w hw => hAll w (List.mem_cons_of_mem _ hw))
          (hPlain (hAll w (List.mem_cons_self ..)) hRows)

theorem run_knows (role : DB.Role) (writes : List Write) :
    ∃ view m, run role writes = .ok view ∧ Knows view m ∧
      ((∀ w ∈ writes, w.Plain) → Etcd.Plain (peers view)) := by
  obtain ⟨first, m, hStart, hFirst, hNone⟩ := start_knows role
  obtain ⟨view', m', hWrites, hKnows, hPlain⟩ := hFirst.writes writes
  refine ⟨view', m', ?_, hKnows, fun hAll => hPlain hAll ?_⟩
  · rw [run, hStart]
    exact hWrites
  · rw [hNone]
    exact ⟨List.nodup_nil, by simp⟩

/-- The minion always knows itself and its peers: whatever has been written, it
has one row of its own, which no read of the store changes. If all entries that
have been read are plain, the other rows are those of the last read. -/
theorem run_knows_self_and_peers (role : DB.Role) (writes : List Write) :
    ∃ view m, run role writes = .ok view ∧
      (view.rows .minion).filter Minion.self = [m] ∧ (∀ ord, minionSelf ord view = .ok m) ∧
      ∀ ords tree, ∃ view', Etcd.readMinion ords tree view = .ok view' ∧
        (view'.rows .minion).filter Minion.self = [m] ∧
        ∀ values, tree = some values → (∀ w ∈ writes, w.Plain) →
          Etcd.Plain (values.filterMap decodeMinion) →
          ((peers view').map (fun r => { r with id := 0 })).Perm
            (others values m.privateIP) := by
  obtain ⟨view, m, hRun, hKnows, hPlain⟩ := run_knows role writes
  refine ⟨view, m, hRun, hKnows.self, hKnows.minionSelf, fun ords tree => ?_⟩
  obtain ⟨view', hRead, hKnows'⟩ := hKnows.readMinion ords tree
  refine ⟨view', hRead, hKnows'.self, ?_⟩
  rintro values rfl hAll hStore
  exact readMinion_exact hKnows.self hKnows.keys (hPlain hAll) hStore hRead

/-- The entries of two minions and one that is no entry. -/
def storedEntries : List String :=
  ["\x7b\"PrivateIP\":\"10.0.0.2\",\"HostSubnets\":[\"10.1.0.0/16\"]\x7d", "10.0.0.3",
    "\x7b\"Role\":\"Master\",\"PrivateIP\":\"10.0.0.4\"\x7d"]

theorem run_knows_self_and_peers_twice :
    ∃ view view', run .worker [.readMinion (fun _ => .reversed) (some storedEntries)] = .ok view ∧
      Etcd.readMinion (fun _ => .stored) (some storedEntries) view = .ok view' ∧
      ((peers view').map (fun r => { r with id := 0 })).Perm (others storedEntries "") := by
  have hIPs : ((storedEntries.filterMap decodeMinion).map Minion.privateIP).Nodup := by
    decide +kernel
  have hSubnets : ∀ m ∈ storedEntries.filterMap decodeMinion, ∀ s ∈ m.hostSubnets,
      ' ' ∉ s.toList ∧ s ≠ "" := by decide +kernel
  have hSelf : (run .worker [.readMinion (fun _ => .reversed) (some storedEntries)]).map
      (fun view => (view.rows .minion).filter Minion.self) =
        .ok [ownRow .worker (blankRow .minion 1)] := by decide +kernel
  obtain ⟨view, m, hRun, hOwn, -, hReads⟩ := run_knows_self_and_peers .worker
    [.readMinion (fun _ => .reversed) (some storedEntries)]
  obtain ⟨view', hRead, -, hPeers⟩ := hReads (fun _ => .stored) (some storedEntries)
  rw [hRun, Except.map, hOwn] at hSelf
  obtain rfl : m = ownRow .worker (blankRow .minion 1) :=
    List.singleton_inj.mp (Except.ok.inj hSelf)
  refine ⟨view, view', hRun, hRead, hPeers storedEntries rfl ?_ ⟨hIPs, hSubnets⟩⟩
  intro w hw
  rw [List.mem_singleton.mp hw]
  exact ⟨hIPs, hSubnets⟩

/-- An entry with one subnet, and the same without it. -/
def blankSubnet : String := "\x7b\"PrivateIP\":\"10.0.0.2\",\"HostSubnets\":[\"\"]\x7d"

def noSubnets : String := "\x7b\"PrivateIP\":\"10.0.0.2\",\"HostSubnets\":[]\x7d"

/-- Without a subnet the joined text is that of one empty subnet, and the row is
not replaced. -/
theorem blank_subnet_not_replaced :
    (∀ value ∈ [blankSubnet, noSubnets], ∀ e ∈ decodeMinion value, ∀ s ∈ e.hostSubnets,
      ' ' ∉ s.toList) ∧
    ∃ view view', run .worker [.readMinion (fun _ => .stored) (some [blankSubnet])] = .ok view ∧
      Etcd.readMinion (fun _ => .stored) (some [noSubnets]) view = .ok view' ∧
      (∀ ord, (minionSelf ord view').map Minion.privateIP = .ok "") ∧
      ¬((peers view').map (fun r => { r with id := 0 })).Perm (others [noSubnets] "") := by
  have hEntries : ∀ value ∈ [blankSubnet, noSubnets], ∀ e ∈ decodeMinion value,
      ∀ s ∈ e.hostSubnets, ' ' ∉ s.toList := by decide +kernel
  have hRows : ((run .worker [.readMinion (fun _ => .stored) (some [blankSubnet])]).bind
      (Etcd.readMinion (fun _ => .stored) (some [noSubnets]))).map
        (fun view => ((view.rows .minion).filter Minion.self, (peers view).map Minion.hostSubnets)) =
      .ok ([ownRow .worker (blankRow .minion 1)], [[""]]) := by decide +kernel
  have hEntry : (others [noSubnets] "").map Minion.hostSubnets = [[]] := by decide +kernel
  obtain ⟨view, m, hRun, hKnows, -⟩ :=
    run_knows .worker [.readMinion (fun _ => .stored) (some [blankSubnet])]
  obtain ⟨view', hRead, hKnows'⟩ := hKnows.readMinion (fun _ => .stored) (some [noSubnets])
  rw [hRun, Except.bind, hRead, Except.map] at hRows
  obtain ⟨hSelf, hPeers⟩ := Prod.mk.inj (Except.ok.inj hRows)
  refine ⟨hEntries, view, view', hRun, hRead, fun ord => ?_, fun hPerm => ?_⟩
  · rw [minionSelf_eq_ok_iff.mpr hSelf]
    rfl
  · have hNets := hPerm.map Minion.hostSubnets
    rw [List.map_map, hEntry] at hNets
    have hSame := List.perm_singleton.mp (hPeers ▸ hNets :)
    exact absurd hSame (by decide)

end Reachable

end Minion

end Kelda
