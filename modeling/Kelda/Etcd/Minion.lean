import Kelda.DB.Loops
import Kelda.Etcd.Codec
import Kelda.Join.HashJoin

/-! The minions of the cluster. Each of them keeps its own row in the store, and
copies the rows of the others from there into its table. -/
namespace Kelda.Etcd

open DB Join Json
open DB.Database (freshRows)

section Reading

/-- The fields that are encoded. The ID, the Self flag and the authorized keys
are not. -/
def minionFields : List (Decoder.StructField Minion) :=
  [.of "Role" (fun m => m.role.text) (fun x m => { m with role := Role.ofText x }) Decoder.string,
    .of "PrivateIP" Minion.privateIP (fun x m => { m with privateIP := x }) Decoder.string,
    .of "Provider" Minion.provider (fun x m => { m with provider := x }) Decoder.string,
    .of "Size" Minion.size (fun x m => { m with size := x }) Decoder.string,
    .of "Region" Minion.region (fun x m => { m with region := x }) Decoder.string,
    .of "FloatingIP" Minion.floatingIP (fun x m => { m with floatingIP := x }) Decoder.string,
    .of "HostSubnets" Minion.hostSubnets (fun x m => { m with hostSubnets := x })
      (Decoder.slice "" Decoder.string)]

/-- The minion of an entry. One that cannot be decoded is skipped. -/
def decodeMinion (value : String) : Option Minion :=
  match unmarshal (Decoder.struct minionFields) { id := 0 } value with
  | (m, none) => some m
  | (_, some _) => none

/-- The other rows of the table, and the entries of other addresses. Without a
row of its own the minion has the empty address. -/
def filterSelf (dbMinions storeMinions : List Minion) : List Minion × List Minion :=
  let self := (dbMinions.filter Minion.self).getLastD { id := 0 }
  (dbMinions.filter (fun m => !m.self),
    storeMinions.filter (fun m => self.privateIP ≠ m.privateIP))

/-- The fields that are compared, with the subnets in one text. -/
structure MinionKey where
  role : String
  privateIP : String
  hostSubnets : String
  provider : String
  size : String
  region : String
  floatingIP : String
deriving DecidableEq

def minionKey (m : Minion) : MinionKey where
  role := m.role.text
  privateIP := m.privateIP
  hostSubnets := " ".intercalate m.hostSubnets
  provider := m.provider
  size := m.size
  region := m.region
  floatingIP := m.floatingIP

def diffMinion (ord : MapOrder) (dbMinions storeMinions : List Minion) :
    List Minion × List Minion :=
  let res := hashJoin ord dbMinions storeMinions minionKey minionKey
  (res.lonelyLefts, res.lonelyRights)

/-- The minion of an entry, under the ID of the inserted row. -/
def insertedMinion (m inserted : Minion) : Minion := { m with id := inserted.id }

/-- The values are those below the directory, which is walked as a map. The store
may fail. -/
def readMinion (ords : Nat → MapOrder) (tree : Option (List String)) (view : Database) :
    Except String Database :=
  match tree with
  | none => .ok view
  | some values =>
    let storeMinions := ((ords 0).walk values).filterMap decodeMinion
    let (dbms, sms) := filterSelf (view.selectAll (ords 1) .minion) storeMinions
    let (del, add) := diffMinion (ords 2) dbms sms
    (view.removeAll .minion del).addAll .minion insertedMinion add

end Reading

section Decoded

/-- The zero values of the fields that are not encoded. -/
def Foreign (m : Minion) : Prop := m.id = 0 ∧ m.self = false ∧ m.authorizedKeys = ""

theorem foreign_of_decodeMinion {value : String} {m : Minion} (h : decodeMinion value = some m) :
    Foreign m := by
  have hFields : ∀ field ∈ minionFields, ∀ v s, Foreign s → Foreign (field.decode v s).1 := by
    intro field hField v s hs
    simp only [minionFields, List.mem_cons, List.not_mem_nil, or_false] at hField
    rcases hField with rfl | rfl | rfl | rfl | rfl | rfl | rfl <;> exact hs
  have hKept : Foreign (unmarshal (Decoder.struct minionFields) { id := 0 } value).1 :=
    unmarshal_keeps (fun v _ hs => struct_keeps hFields v hs) ⟨rfl, rfl, rfl⟩ value
  rw [decodeMinion] at h
  split at h
  · next m' hEq =>
      rw [hEq, Option.some.inj h] at hKept
      exact hKept
  · cases h

/-- Subnets that can be read back from the joined text. -/
def PlainSubnets (m : Minion) : Prop := ∀ s ∈ m.hostSubnets, ' ' ∉ s.toList ∧ s ≠ ""

/-- The key determines a row without its ID. -/
theorem eq_of_minionKey_eq {m e : Minion} (hm : m.self = false ∧ m.authorizedKeys = "")
    (he : Foreign e) (hmNets : PlainSubnets m) (heNets : PlainSubnets e)
    (h : minionKey m = minionKey e) : { m with id := 0 } = e := by
  have hNets : m.hostSubnets = e.hostSubnets :=
    Text.intercalate_inj hmNets heNets (congrArg MinionKey.hostSubnets h)
  have hRole : m.role = e.role := Role.text_inj (congrArg MinionKey.role h)
  obtain ⟨hID, hSelf, hKeys⟩ := he
  cases m
  cases e
  simp only [minionKey, MinionKey.mk.injEq] at h
  simp_all

/-- What the store may hold for the copy to be exact. -/
structure Plain (ms : List Minion) : Prop where
  ips : (ms.map Minion.privateIP).Nodup
  subnets : ∀ m ∈ ms, PlainSubnets m

theorem Plain.keys {ms : List Minion} (h : Plain ms) : (ms.map minionKey).Nodup := by
  have hIPs : ((ms.map minionKey).map MinionKey.privateIP).Nodup := by
    rw [List.map_map]
    exact h.ips
  exact hIPs.of_map

theorem Plain.perm {ms ms' : List Minion} (h : Plain ms) (hPerm : ms.Perm ms') : Plain ms' :=
  ⟨(hPerm.map _).nodup_iff.mp h.ips, fun m hm => h.subnets m (hPerm.mem_iff.mpr hm)⟩

theorem Plain.filter {ms : List Minion} (h : Plain ms) (p : Minion → Bool) : Plain (ms.filter p) :=
  ⟨h.ips.sublist (List.filter_sublist.map _), fun m hm => h.subnets m (List.mem_of_mem_filter hm)⟩

/-- The ID does not matter. -/
theorem plain_map_id {ms : List Minion} :
    Plain (ms.map (fun m => { m with id := 0 })) ↔ Plain ms := by
  have hIPs : (ms.map (fun m => { m with id := 0 })).map Minion.privateIP =
      ms.map Minion.privateIP := by
    rw [List.map_map]
    rfl
  constructor
  · intro h
    exact ⟨hIPs ▸ h.ips, fun m hm => h.subnets { m with id := 0 } (List.mem_map_of_mem hm)⟩
  · intro h
    refine ⟨hIPs.symm ▸ h.ips, fun m hm => ?_⟩
    obtain ⟨old, hOld, rfl⟩ := List.mem_map.mp hm
    exact h.subnets old hOld

end Decoded

section Peers

/-- The rows of the other minions. -/
def peers (view : Database) : List Minion := (view.rows .minion).filter (fun m => !m.self)

/-- The entries of the other minions, for the minion of an address. -/
def others (values : List String) (privateIP : String) : List Minion :=
  (values.filterMap decodeMinion).filter (fun e => privateIP ≠ e.privateIP)

variable {view : Database} {m : Minion}

theorem foreign_of_mem_others {values : List String} {ip : String} {e : Minion}
    (h : e ∈ others values ip) : Foreign e := by
  obtain ⟨value, -, hDecode⟩ := List.mem_filterMap.mp (List.mem_of_mem_filter h)
  exact foreign_of_decodeMinion hDecode

theorem others_perm {values values' : List String} (h : values.Perm values') (ip : String) :
    (others values ip).Perm (others values' ip) :=
  (h.filterMap _).filter _

/-- The join of a run on the rows and entries of the others. -/
def peerJoin (ords : Nat → MapOrder) (values : List String) (view : Database) (m : Minion) :
    Result Minion Minion :=
  hashJoin (ords 2) ((view.selectAll (ords 1) .minion).filter (fun m => !m.self))
    (others ((ords 0).walk values) m.privateIP) minionKey minionKey

theorem selectAll_peers_perm (ord : MapOrder) (view : Database) :
    ((view.selectAll ord .minion).filter (fun m => !m.self)).Perm (peers view) :=
  (view.selectAll_perm ord .minion).filter _

theorem peerJoin_reconciles (ords : Nat → MapOrder) (values : List String) (view : Database)
    (m : Minion) :
    Reconciles ((view.selectAll (ords 1) .minion).filter (fun m => !m.self))
      (others ((ords 0).walk values) m.privateIP) minionKey minionKey
      (peerJoin ords values view m) :=
  hashJoin_reconciles ..

theorem readMinion_eq (hSelf : (view.rows .minion).filter Minion.self = [m])
    (ords : Nat → MapOrder) (values : List String) :
    readMinion ords (some values) view =
      (view.removeAll .minion (peerJoin ords values view m).lonelyLefts).addAll .minion
        insertedMinion (peerJoin ords values view m).lonelyRights := by
  have hOwn : (view.selectAll (ords 1) .minion).filter Minion.self = [m] := by
    have hPerm := (view.selectAll_perm (ords 1) .minion).filter Minion.self
    rw [hSelf] at hPerm
    exact List.perm_singleton.mp hPerm
  simp only [readMinion, filterSelf, hOwn]
  rfl

/-- A run replaces rows of the others only. -/
theorem readMinion_rows (hSelf : (view.rows .minion).filter Minion.self = [m])
    (ords : Nat → MapOrder) (values : List String) :
    ∃ view', readMinion ords (some values) view = .ok view' ∧
      Database.Touches .minion view view' ∧
      (view'.rows .minion).filter Minion.self = [m] ∧
      peers view' = (peers view).filter
          (fun r => r.id ∉ (peerJoin ords values view m).lonelyLefts.map Minion.id) ++
        freshRows .minion insertedMinion view.curID (peerJoin ords values view m).lonelyRights := by
  have hJoin := peerJoin_reconciles ords values view m
  have hFill : ∀ (e : Minion) (id : Nat),
      getID .minion (insertedMinion e (blankRow .minion id)) = id := fun _ _ => rfl
  obtain ⟨hRemoved, hCur, hTouches⟩ :=
    @Database.removeAll_spec .minion view (peerJoin ords values view m).lonelyLefts
  obtain ⟨view', hAdd, hRows, -, hTouches'⟩ :=
    (view.removeAll .minion (peerJoin ords values view m).lonelyLefts).addAll_spec hFill
      (peerJoin ords values view m).lonelyRights
  rw [hRemoved, hCur] at hRows
  have hFresh : ∀ r ∈ freshRows .minion insertedMinion view.curID
      (peerJoin ords values view m).lonelyRights, r.self = false := by
    intro r hr
    obtain ⟨k, hk, rfl⟩ := List.mem_mapIdx.mp hr
    have hMem := hJoin.rights.mem_iff.mp (List.mem_append_right _ (List.getElem_mem hk))
    exact (foreign_of_mem_others hMem).2.1
  have hKept : m.id ∉ (peerJoin ords values view m).lonelyLefts.map Minion.id := by
    intro hMem
    obtain ⟨r, hr, hID⟩ := List.mem_map.mp hMem
    have hrRow := List.mem_filter.mp
      ((selectAll_peers_perm _ view).mem_iff.mp (hJoin.lefts (List.mem_append_right _ hr)))
    have hm : m ∈ (view.rows .minion).filter Minion.self := hSelf ▸ List.mem_singleton_self m
    rw [view.eq_of_getID_eq hrRow.1 (List.mem_of_mem_filter hm) hID] at hrRow
    simp [(List.mem_filter.mp hm).2] at hrRow
  refine ⟨view', (readMinion_eq hSelf ords values).trans hAdd, hTouches.trans hTouches', ?_, ?_⟩
  · have hNone := List.filter_eq_nil_iff.mpr (fun r hr => Bool.eq_false_iff.mp (hFresh r hr))
    rw [hRows, List.filter_append, hNone, List.append_nil, List.filter_comm, hSelf]
    exact List.filter_eq_self.mpr (fun r hr => by
      rw [List.mem_singleton.mp hr]
      exact decide_eq_true hKept)
  · have hAll := List.filter_eq_self.mpr (fun r hr => (Bool.not_eq_true' _).mpr (hFresh r hr))
    rw [peers, hRows, List.filter_append, hAll, List.filter_comm]
    rfl

theorem map_id_freshRows {es : List Minion} (h : ∀ e ∈ es, e.id = 0) (curID : Nat) :
    (freshRows .minion insertedMinion curID es).map (fun m => { m with id := 0 }) = es := by
  induction es generalizing curID with
  | nil => rfl
  | cons e es ih =>
      have hFirst : { insertedMinion e (blankRow .minion (curID + 1)) with id := 0 } = e := by
        rw [insertedMinion, ← h e (List.mem_cons_self ..)]
      rw [Database.freshRows_cons, List.map_cons, hFirst,
        ih (fun e he => h e (List.mem_cons_of_mem _ he))]

/-- After a run on plain rows and entries the other rows are the other entries. -/
theorem readMinion_exact (hSelf : (view.rows .minion).filter Minion.self = [m])
    (hKeys : ∀ r ∈ peers view, r.authorizedKeys = "") (hRows : Plain (peers view))
    {values : List String} (hStore : Plain (values.filterMap decodeMinion))
    {ords : Nat → MapOrder} {view' : Database}
    (h : readMinion ords (some values) view = .ok view') :
    ((peers view').map (fun m => { m with id := 0 })).Perm (others values m.privateIP) := by
  have hJoin := peerJoin_reconciles ords values view m
  have hWalk := (ords 0).perm values
  have hOthers : Plain (others ((ords 0).walk values) m.privateIP) :=
    (hStore.perm (hWalk.symm.filterMap _)).filter _
  have hPerm := selectAll_peers_perm (ords 1) view
  have hLefts := (hJoin.lefts_perm (hRows.perm hPerm.symm).keys).trans hPerm
  obtain ⟨after, hRun, -, -, hPeers⟩ := readMinion_rows hSelf ords values
  obtain rfl : view' = after := Except.ok.inj (h.symm.trans hRun)
  have hStay := List.filter_notMem_perm (f := Minion.id)
    ((view.nodup .minion).sublist (List.filter_sublist.map _)) hLefts
  have hPairs : ((peerJoin ords values view m).pairs.map Pair.L).map
      (fun m => { m with id := 0 }) = (peerJoin ords values view m).pairs.map Pair.R := by
    rw [List.map_map]
    apply List.map_congr_left
    intro p hp
    have hLeft : p.L ∈ peers view := hPerm.mem_iff.mp (hJoin.left_mem hp)
    have hNotSelf : p.L.self = false := by simpa using (List.mem_filter.mp hLeft).2
    have hRight := hJoin.right_mem hp
    exact eq_of_minionKey_eq ⟨hNotSelf, hKeys _ hLeft⟩ (foreign_of_mem_others hRight)
      (hRows.subnets _ hLeft) (hOthers.subnets _ hRight) (hJoin.sameKey p hp)
  have hNew := map_id_freshRows (fun e he => (foreign_of_mem_others
    (hJoin.rights.mem_iff.mp (List.mem_append_right _ he))).1) view.curID
  rw [hPeers, List.map_append, hNew]
  have hSplit := (hStay.map (fun m => { m with id := 0 })).append_right
    (peerJoin ords values view m).lonelyRights
  rw [hPairs] at hSplit
  exact hSplit.trans (hJoin.rights.trans (others_perm hWalk _))

end Peers

end Kelda.Etcd
