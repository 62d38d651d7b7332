import Kelda.DB.Loops
import Kelda.Join.HashJoin
import Kelda.Lib.Handover
import Kelda.Lib.Text

/-! The floating IPs of the droplets of DigitalOcean. The API is an argument: its
calls may fail, and have their documented effect if they do not. -/
namespace Kelda.DigitalOcean

open DB Join Handover Text

structure Provider where
  nameSpace : String
  region : String

def Provider.getTag (prvdr : Provider) : String := prvdr.nameSpace ++ "-" ++ prvdr.region

/-- The droplet that holds each floating IP. -/
abbrev Holders := String → Option Int

structure Api where
  unassignFloatingIP : Holders → String → Except String Holders
  assignFloatingIP : Holders → String → Int → Except String Holders
  unassign_ok : ∀ {holders ip holders'}, unassignFloatingIP holders ip = .ok holders' →
    holders' = Function.update holders ip none
  assign_ok : ∀ {holders ip id holders'}, assignFloatingIP holders ip id = .ok holders' →
    holders' = Function.update holders ip (some id)

/-- An API whose calls do not fail. -/
def Api.reliable : Api where
  unassignFloatingIP := fun holders ip => .ok (Function.update holders ip none)
  assignFloatingIP := fun holders ip id => .ok (Function.update holders ip (some id))
  unassign_ok := fun h => (Except.ok.inj h).symm
  assign_ok := fun h => (Except.ok.inj h).symm

section Listing

structure Droplet where
  id : Int
  region : String
  size : String
  publicIP : String
  privateIP : String
  tags : List String

/-- Of several IPs of a droplet, the one that is listed last is kept. -/
def getFloatingIPs (ips : List (String × Option Int)) : AList (fun _ : Int => String) :=
  ips.foldl (fun floatingIPs ip =>
    match ip.2 with
    | none => floatingIPs
    | some id => floatingIPs.insert id ip.1) ∅

def listedMachine (floatingIPs : AList (fun _ : Int => String)) (d : Droplet) : Machine where
  id := 0
  provider := "DigitalOcean"
  region := d.region
  cloudID := d.id.repr
  publicIP := d.publicIP
  privateIP := d.privateIP
  floatingIP := (floatingIPs.lookup d.id).getD ""
  size := d.size

/-- The droplets with the tag of the provider. -/
def list (tag : String) (droplets : List Droplet) (ips : List (String × Option Int)) :
    List Machine :=
  (droplets.filter (fun d => tag ∈ d.tags)).map (listedMachine (getFloatingIPs ips))

end Listing

inductive SyncError where
  | noMatchingIDs (unmatchedIDs : List String)
  | unassignIP (ip err : String)
  | malformedID (cloudID : String)
  | assignIP (ip : String) (id : Int) (err : String)
deriving DecidableEq

def unassign (api : Api) (holders : Holders) (ip : String) : Except SyncError Holders :=
  if ip ≠ "" then (api.unassignFloatingIP holders ip).mapError (.unassignIP ip)
  else .ok holders

def assign (api : Api) (holders : Holders) (cloudID ip : String) : Except SyncError Holders :=
  if ip ≠ "" then
    match atoi cloudID with
    | none => .error (.malformedID cloudID)
    | some id => (api.assignFloatingIP holders ip id).mapError (.assignIP ip id)
  else .ok holders

/-- The IP of the listing is given up before the desired one is taken. -/
def syncPair (api : Api) (holders : Holders) (pair : Pair Machine Machine) :
    Except SyncError Holders :=
  let curr := pair.L
  let desired := pair.R
  if curr.floatingIP = desired.floatingIP then .ok holders
  else do
    let holders ← unassign api holders curr.floatingIP
    assign api holders curr.cloudID desired.floatingIP

def syncFloatingIPs (ord : MapOrder) (api : Api) (curr targets : List Machine)
    (holders : Holders) : Except SyncError Holders :=
  let res := hashJoin ord curr targets Machine.cloudID Machine.cloudID
  if res.lonelyRights ≠ [] then .error (.noMatchingIDs (res.lonelyRights.map Machine.cloudID))
  else res.pairs.foldlM (syncPair api) holders

section Moves

/-- An empty text stands for no IP. -/
def floating (ip : String) : Option String := if ip = "" then none else some ip

theorem floating_eq_some {ip ip' : String} : floating ip = some ip' ↔ ip = ip' ∧ ip' ≠ "" := by
  by_cases h : ip = ""
  · simp only [floating, h, if_true, reduceCtorEq, false_iff, not_and, not_not]
    exact Eq.symm
  · simp only [floating, h, if_false, Option.some.injEq]
    exact ⟨fun hEq => ⟨hEq, hEq ▸ h⟩, And.left⟩

theorem floating_inj {ip ip' : String} : floating ip = floating ip' ↔ ip = ip' := by
  by_cases h : ip = "" <;> by_cases h' : ip' = "" <;> simp [floating, h, h', eq_comm]

/-- What a pair is meant to do. -/
def move (pair : Pair Machine Machine) : Move String Int where
  owner := (atoi pair.L.cloudID).getD 0
  old := floating pair.L.floatingIP
  new := floating pair.R.floatingIP

variable {api : Api} {holders holders' : Holders} {pair : Pair Machine Machine} {id : Int}

theorem mapError_eq_ok {ε ε' α : Type} {f : ε → ε'} {x : Except ε α} {a : α} :
    x.mapError f = .ok a ↔ x = .ok a := by
  cases x <;> simp [Except.mapError]

theorem unassign_eq {ip : String} (h : unassign api holders ip = .ok holders') :
    holders' = release holders (floating ip) := by
  rw [unassign] at h
  by_cases hIP : ip = ""
  · rw [if_neg (not_not.mpr hIP)] at h
    rw [floating, if_pos hIP]
    exact (Except.ok.inj h).symm
  · rw [if_pos hIP, mapError_eq_ok] at h
    rw [floating, if_neg hIP]
    exact api.unassign_ok h

theorem assign_eq {cloudID ip : String} (hID : atoi cloudID = some id)
    (h : assign api holders cloudID ip = .ok holders') :
    holders' = take holders id (floating ip) := by
  rw [assign, hID] at h
  by_cases hIP : ip = ""
  · rw [if_neg (not_not.mpr hIP)] at h
    rw [floating, if_pos hIP]
    exact (Except.ok.inj h).symm
  · rw [if_pos hIP, mapError_eq_ok] at h
    rw [floating, if_neg hIP]
    exact api.assign_ok h

theorem syncPair_eq (hID : atoi pair.L.cloudID = some id)
    (h : syncPair api holders pair = .ok holders') : holders' = (move pair).apply holders := by
  have hIdle : (move pair).old = (move pair).new ↔ pair.L.floatingIP = pair.R.floatingIP :=
    floating_inj
  rw [syncPair] at h
  rw [Move.apply]
  by_cases hSame : pair.L.floatingIP = pair.R.floatingIP
  · rw [if_pos hSame] at h
    rw [if_pos (hIdle.mpr hSame)]
    exact (Except.ok.inj h).symm
  · rw [if_neg hSame] at h
    rw [if_neg (fun hEq => hSame (hIdle.mp hEq))]
    obtain ⟨mid, hUnassign, hAssign⟩ := Except.exists_of_bind_eq_ok h
    rw [assign_eq hID hAssign, unassign_eq hUnassign, move, hID]
    rfl

/-- The calls of an API that does not fail go through. -/
theorem exists_syncPair (hID : atoi pair.L.cloudID = some id) :
    ∃ holders', syncPair .reliable holders pair = .ok holders' := by
  have hUnassign : ∀ ip, ∃ mid, unassign .reliable holders ip = .ok mid := by
    intro ip
    rw [unassign]
    split_ifs
    · exact ⟨_, rfl⟩
    · exact ⟨_, rfl⟩
  have hAssign : ∀ mid ip, ∃ holders', assign .reliable mid pair.L.cloudID ip = .ok holders' := by
    intro mid ip
    rw [assign, hID]
    split_ifs
    · exact ⟨_, rfl⟩
    · exact ⟨_, rfl⟩
  rw [syncPair]
  split_ifs
  · exact ⟨_, rfl⟩
  · obtain ⟨mid, hMid⟩ := hUnassign pair.L.floatingIP
    rw [hMid]
    exact hAssign mid pair.R.floatingIP

theorem syncPairs_eq {pairs : List (Pair Machine Machine)}
    (hIDs : ∀ p ∈ pairs, ∃ id, atoi p.L.cloudID = some id)
    (h : pairs.foldlM (syncPair api) holders = .ok holders') :
    holders' = run holders (pairs.map move) := by
  induction pairs generalizing holders with
  | nil => exact (Except.ok.inj h).symm
  | cons p pairs ih =>
      rw [List.foldlM_cons] at h
      obtain ⟨mid, hPair, hRest⟩ := Except.exists_of_bind_eq_ok h
      obtain ⟨id, hID⟩ := hIDs p (List.mem_cons_self ..)
      rw [ih (fun p hp => hIDs p (List.mem_cons_of_mem _ hp)) hRest, syncPair_eq hID hPair,
        List.map_cons, run_cons]

theorem exists_syncPairs {pairs : List (Pair Machine Machine)}
    (hIDs : ∀ p ∈ pairs, ∃ id, atoi p.L.cloudID = some id) :
    ∃ holders', pairs.foldlM (syncPair .reliable) holders = .ok holders' := by
  induction pairs generalizing holders with
  | nil => exact ⟨holders, rfl⟩
  | cons p pairs ih =>
      obtain ⟨id, hID⟩ := hIDs p (List.mem_cons_self ..)
      obtain ⟨mid, hMid⟩ : ∃ mid, syncPair .reliable holders p = .ok mid := exists_syncPair hID
      rw [List.foldlM_cons, hMid]
      exact ih (fun p hp => hIDs p (List.mem_cons_of_mem _ hp))

end Moves

section Exact

/-- A listing of droplets, each with one of its IPs if it has any. -/
structure Lists (holders : Holders) (curr : List Machine) : Prop where
  nodup : (curr.map Machine.cloudID).Nodup
  droplet : ∀ m ∈ curr, ∃ id, atoi m.cloudID = some id ∧ m.cloudID = id.repr ∧
    (∀ ip, m.floatingIP = ip → ip ≠ "" → holders ip = some id) ∧
    (m.floatingIP = "" → ∀ ip, holders ip ≠ some id)
  named : holders "" = none

variable {holders : Holders} {curr targets : List Machine}

/-- The droplet of the machine holds the IP of the machine, and no other. -/
def HoldsExactly (holders : Holders) (t : Machine) : Prop :=
  ∀ id, atoi t.cloudID = some id → ∀ ip, holders ip = some id ↔ t.floatingIP = ip ∧ ip ≠ ""

/-- The targets in their order, each with its machine of the listing. -/
structure Paired (curr targets : List Machine) (pairs : List (Pair Machine Machine)) : Prop where
  rights : pairs.map Pair.R = targets
  left : ∀ p ∈ pairs, p.L ∈ curr
  sameID : ∀ p ∈ pairs, p.L.cloudID = p.R.cloudID

theorem hashJoin_paired {ord : MapOrder}
    (h : (hashJoin ord curr targets Machine.cloudID Machine.cloudID).lonelyRights = []) :
    Paired curr targets (hashJoin ord curr targets Machine.cloudID Machine.cloudID).pairs := by
  have hJoin := hashJoin_reconciles ord curr targets Machine.cloudID Machine.cloudID
  exact ⟨hashJoin_pairs_rights h, fun p hp => hJoin.left_mem hp, hJoin.sameKey⟩

namespace Paired

variable {pairs : List (Pair Machine Machine)} (h : Paired curr targets pairs)

include h

theorem mem {p : Pair Machine Machine} (hp : p ∈ pairs) : p.R ∈ targets :=
  h.rights ▸ List.mem_map_of_mem hp

theorem exists_pair {t : Machine} (ht : t ∈ targets) : ∃ p ∈ pairs, p.R = t :=
  List.mem_map.mp (h.rights ▸ ht)

variable (hList : Lists holders curr)

include hList

/-- The machine of a target is the only one with its cloud ID. -/
theorem left_eq {p : Pair Machine Machine} (hp : p ∈ pairs) {m : Machine} (hm : m ∈ curr)
    (hID : m.cloudID = p.R.cloudID) : m = p.L :=
  List.inj_on_of_nodup_map hList.nodup hm (h.left p hp) (hID.trans (h.sameID p hp).symm)

theorem exists_id {p : Pair Machine Machine} (hp : p ∈ pairs) :
    ∃ id, atoi p.L.cloudID = some id ∧ p.L.cloudID = id.repr ∧ (move p).owner = id ∧
      (∀ ip, p.L.floatingIP = ip → ip ≠ "" → holders ip = some id) := by
  obtain ⟨id, hAtoi, hRepr, hHeld, -⟩ := hList.droplet p.L (h.left p hp)
  exact ⟨id, hAtoi, hRepr, by rw [move, hAtoi, Option.getD_some], hHeld⟩

theorem eq_of_owner (hIDs : (targets.map Machine.cloudID).Nodup) {p p' : Pair Machine Machine}
    (hp : p ∈ pairs) (hp' : p' ∈ pairs) (hOwner : (move p).owner = (move p').owner) : p = p' := by
  obtain ⟨id, -, hRepr, hID, -⟩ := h.exists_id hList hp
  obtain ⟨id', -, hRepr', hID', -⟩ := h.exists_id hList hp'
  have hSame : p.R.cloudID = p'.R.cloudID := by
    rw [← h.sameID p hp, ← h.sameID p' hp', hRepr, hRepr', ← hID, ← hID', hOwner]
  rw [← h.rights, List.map_map] at hIDs
  exact List.inj_on_of_nodup_map hIDs hp hp' hSame

theorem valid (hIDs : (targets.map Machine.cloudID).Nodup)
    (hIPs : ((targets.filter (fun t => t.floatingIP ≠ "")).map Machine.floatingIP).Nodup) :
    Valid holders (pairs.map move) where
  owners := by
    have hNodup : pairs.Nodup := by
      rw [← h.rights, List.map_map] at hIDs
      exact hIDs.of_map
    rw [List.map_map]
    exact hNodup.map_on (fun p hp p' hp' hOwner => h.eq_of_owner hList hIDs hp hp' hOwner)
  held := by
    intro m hm ip hOld
    obtain ⟨p, hp, rfl⟩ := List.mem_map.mp hm
    obtain ⟨id, -, -, hOwner, hHeld⟩ := h.exists_id hList hp
    obtain ⟨hIP, hSome⟩ := floating_eq_some.mp hOld
    rw [hOwner]
    exact hHeld ip hIP hSome
  news := by
    intro m hm m' hm' ip hNew hNew'
    obtain ⟨p, hp, rfl⟩ := List.mem_map.mp hm
    obtain ⟨p', hp', rfl⟩ := List.mem_map.mp hm'
    obtain ⟨hIP, hSome⟩ := floating_eq_some.mp hNew
    obtain ⟨hIP', -⟩ := floating_eq_some.mp hNew'
    have hTarget : p.R ∈ targets.filter (fun t => t.floatingIP ≠ "") :=
      List.mem_filter.mpr ⟨h.mem hp, decide_eq_true (hIP ▸ hSome)⟩
    have hTarget' : p'.R ∈ targets.filter (fun t => t.floatingIP ≠ "") :=
      List.mem_filter.mpr ⟨h.mem hp', decide_eq_true (hIP' ▸ hSome)⟩
    have hSame := List.inj_on_of_nodup_map hIPs hTarget hTarget' (hIP.trans hIP'.symm)
    rw [move, move, h.sameID p hp, h.sameID p' hp', hSame]

theorem exact_iff {holders' : Holders} :
    Exact holders' (pairs.map move) ↔ ∀ t ∈ targets, HoldsExactly holders' t := by
  constructor
  · intro hExact t ht id hAtoi ip
    obtain ⟨p, hp, rfl⟩ := h.exists_pair ht
    obtain ⟨id', hAtoi', -, hOwner, -⟩ := h.exists_id hList hp
    rw [← h.sameID p hp, hAtoi', Option.some.injEq] at hAtoi
    rw [← floating_eq_some, ← hAtoi, ← hOwner]
    exact hExact (move p) (List.mem_map_of_mem hp) ip
  · intro hHolds m hm ip
    obtain ⟨p, hp, rfl⟩ := List.mem_map.mp hm
    obtain ⟨id, hAtoi, -, hOwner, -⟩ := h.exists_id hList hp
    rw [hOwner, hHolds p.R (h.mem hp) id (h.sameID p hp ▸ hAtoi) ip, ← floating_eq_some]
    rfl

end Paired

/-- The conditions under which the calls reach the targets. -/
structure Reachable (holders : Holders) (curr targets : List Machine) : Prop where
  /-- No target comes before the target that still holds its IP. -/
  order : targets.Pairwise (fun t t' => t.floatingIP ≠ "" →
    ∀ m ∈ curr, m.cloudID = t'.cloudID → m.floatingIP ≠ t.floatingIP)
  /-- Further IPs of the droplet of a target are taken by some target. -/
  others : ∀ t ∈ targets, ∀ m ∈ curr, m.cloudID = t.cloudID → ∀ ip,
    holders ip = atoi m.cloudID → m.floatingIP ≠ ip → ∃ t' ∈ targets, t'.floatingIP = ip

theorem Paired.reachable_iff {pairs : List (Pair Machine Machine)}
    (h : Paired curr targets pairs) (hList : Lists holders curr) :
    ((pairs.map move).Pairwise (fun m m' => ∀ ip, m.new = some ip → m'.old ≠ some ip) ∧
      ∀ m ∈ pairs.map move, ∀ ip, holders ip = some m.owner → m.old ≠ some ip →
        ∃ m' ∈ pairs.map move, m'.new = some ip) ↔ Reachable holders curr targets := by
  have hOrder : (pairs.map move).Pairwise (fun m m' => ∀ ip, m.new = some ip → m'.old ≠ some ip) ↔
      targets.Pairwise (fun t t' => t.floatingIP ≠ "" →
        ∀ m ∈ curr, m.cloudID = t'.cloudID → m.floatingIP ≠ t.floatingIP) := by
    rw [← h.rights, List.pairwise_map, List.pairwise_map]
    apply List.Pairwise.iff_of_mem
    intro p p' hp hp'
    constructor
    · intro hMoves hSome m hm hID hEq
      rw [h.left_eq hList hp' hm hID] at hEq
      exact hMoves p.R.floatingIP (floating_eq_some.mpr ⟨rfl, hSome⟩)
        (floating_eq_some.mpr ⟨hEq, hSome⟩)
    · intro hTargets ip hNew hOld
      obtain ⟨rfl, hSome⟩ := floating_eq_some.mp hNew
      obtain ⟨hEq, -⟩ := floating_eq_some.mp hOld
      exact hTargets hSome p'.L (h.left p' hp') (h.sameID p' hp') hEq
  constructor
  · rintro ⟨hMoves, hOthers⟩
    refine ⟨hOrder.mp hMoves, ?_⟩
    intro t ht m hm hID ip hHeld hNe
    obtain ⟨p, hp, rfl⟩ := h.exists_pair ht
    obtain ⟨id, hAtoi, -, hOwner, -⟩ := h.exists_id hList hp
    rw [h.left_eq hList hp hm hID] at hHeld hNe
    obtain ⟨m', hm', hNew⟩ := hOthers (move p) (List.mem_map_of_mem hp) ip
      (by rw [hHeld, hAtoi, hOwner]) (fun hOld => hNe (floating_eq_some.mp hOld).1)
    obtain ⟨p', hp', rfl⟩ := List.mem_map.mp hm'
    exact ⟨p'.R, h.mem hp', (floating_eq_some.mp hNew).1⟩
  · intro hReach
    refine ⟨hOrder.mpr hReach.order, ?_⟩
    intro m hm ip hHeld hNe
    obtain ⟨p, hp, rfl⟩ := List.mem_map.mp hm
    obtain ⟨id, hAtoi, -, hOwner, -⟩ := h.exists_id hList hp
    have hSome : ip ≠ "" := by
      rintro rfl
      rw [hList.named] at hHeld
      cases hHeld
    obtain ⟨t, ht, hIP⟩ := hReach.others p.R (h.mem hp) p.L (h.left p hp) (h.sameID p hp) ip
      (by rw [hHeld, hAtoi, hOwner]) (fun hEq => hNe (floating_eq_some.mpr ⟨hEq, hSome⟩))
    obtain ⟨p', hp', rfl⟩ := h.exists_pair ht
    exact ⟨move p', List.mem_map_of_mem hp', floating_eq_some.mpr ⟨hIP, hSome⟩⟩

/-- The targets are reached exactly if no IP is assigned before it is unassigned by
way of the listing, unless some target is not listed and there is an error. -/
theorem syncFloatingIPs_exact_iff (hList : Lists holders curr)
    (hIDs : (targets.map Machine.cloudID).Nodup)
    (hIPs : ((targets.filter (fun t => t.floatingIP ≠ "")).map Machine.floatingIP).Nodup) :
    (∀ ord api holders', syncFloatingIPs ord api curr targets holders = .ok holders' →
      ∀ t ∈ targets, HoldsExactly holders' t) ↔
      ((∀ t ∈ targets, ∃ m ∈ curr, m.cloudID = t.cloudID) → Reachable holders curr targets) := by
  have hEnd : ∀ {ord : MapOrder},
      (hashJoin ord curr targets Machine.cloudID Machine.cloudID).lonelyRights = [] →
      ((∀ t ∈ targets, HoldsExactly (run holders
        ((hashJoin ord curr targets Machine.cloudID Machine.cloudID).pairs.map move)) t) ↔
        Reachable holders curr targets) := by
    intro ord hNone
    have hPaired := hashJoin_paired hNone
    rw [← hPaired.exact_iff hList, (hPaired.valid hList hIDs hIPs).exact_run_iff,
      hPaired.reachable_iff hList]
  have hAtoi : ∀ {ord : MapOrder},
      (hashJoin ord curr targets Machine.cloudID Machine.cloudID).lonelyRights = [] →
      ∀ p ∈ (hashJoin ord curr targets Machine.cloudID Machine.cloudID).pairs,
        ∃ id, atoi p.L.cloudID = some id := by
    intro ord hNone p hp
    obtain ⟨id, hID, -⟩ := (hashJoin_paired hNone).exists_id hList hp
    exact ⟨id, hID⟩
  constructor
  · intro hSync hAll
    have hNone : (hashJoin .stored curr targets Machine.cloudID Machine.cloudID).lonelyRights =
        [] := (hashJoin_reconciles ..).lonelyRights_eq_nil_iff.mpr ⟨hIDs, hAll⟩
    obtain ⟨holders', hRun⟩ := exists_syncPairs (hAtoi hNone)
    rw [← hEnd hNone, ← syncPairs_eq (hAtoi hNone) hRun]
    apply hSync .stored .reliable
    rw [syncFloatingIPs]
    simp only [hNone, ne_eq, not_true, if_false]
    exact hRun
  · intro hReach ord api holders' hSync
    rw [syncFloatingIPs] at hSync
    split_ifs at hSync with hLonely
    have hNone := not_not.mp hLonely
    have hAll := ((hashJoin_reconciles ..).lonelyRights_eq_nil_iff.mp hNone).2
    rw [syncPairs_eq (hAtoi hNone) hSync]
    exact (hEnd hNone).mpr (hReach hAll)

theorem getFloatingIPs_append (ips : List (String × Option Int)) (ip : String)
    (holder : Option Int) : getFloatingIPs (ips ++ [(ip, holder)]) =
      match holder with
      | none => getFloatingIPs ips
      | some id => (getFloatingIPs ips).insert id ip := by
  rw [getFloatingIPs, List.foldl_append]
  rfl

/-- The IP of a droplet is one of those that it holds. -/
theorem mem_of_lookup {ips : List (String × Option Int)} {id : Int} {ip : String}
    (h : (getFloatingIPs ips).lookup id = some ip) : (ip, some id) ∈ ips := by
  induction ips using List.reverseRecOn with
  | nil => cases h
  | append_singleton ips entry ih =>
      obtain ⟨ip', holder⟩ := entry
      rw [getFloatingIPs_append] at h
      cases holder with
      | none => exact List.mem_append_left _ (ih h)
      | some id' =>
          by_cases hID : id = id'
          · subst hID
            rw [AList.lookup_insert, Option.some.injEq] at h
            exact List.mem_append_right _ (h ▸ List.mem_singleton_self _)
          · rw [AList.lookup_insert_ne hID] at h
            exact List.mem_append_left _ (ih h)

theorem notMem_of_lookup {ips : List (String × Option Int)} {id : Int}
    (h : (getFloatingIPs ips).lookup id = none) (ip : String) : (ip, some id) ∉ ips := by
  induction ips using List.reverseRecOn with
  | nil => exact List.not_mem_nil
  | append_singleton ips entry ih =>
      obtain ⟨ip', holder⟩ := entry
      rw [getFloatingIPs_append] at h
      rw [List.mem_append, List.mem_singleton, not_or]
      cases holder with
      | none => exact ⟨ih h, by simp⟩
      | some id' =>
          by_cases hID : id = id'
          · rw [hID, AList.lookup_insert] at h
            cases h
          · rw [AList.lookup_insert_ne hID] at h
            exact ⟨ih h, by simp [hID]⟩

/-- What is listed of the droplets is a listing. -/
theorem list_lists {tag : String} {droplets : List Droplet} {ips : List (String × Option Int)}
    (hIDs : (droplets.map Droplet.id).Nodup)
    (hRange : ∀ d ∈ droplets, -2 ^ 63 ≤ d.id ∧ d.id < 2 ^ 63)
    (hShown : ∀ ip id, (ip, some id) ∈ ips ↔ holders ip = some id) (hNamed : holders "" = none) :
    Lists holders (list tag droplets ips) where
  nodup := by
    have hFiltered : ((droplets.filter (fun d => tag ∈ d.tags)).map Droplet.id).Nodup :=
      hIDs.sublist (List.filter_sublist.map _)
    have hText : (list tag droplets ips).map Machine.cloudID =
        ((droplets.filter (fun d => tag ∈ d.tags)).map Droplet.id).map Int.repr := by
      rw [list, List.map_map, List.map_map]
      rfl
    rw [hText]
    apply hFiltered.map
    intro id id' hEq
    have hRead := congrArg (fun s : String => Text.readInt s.toList) hEq
    simpa using hRead
  droplet := by
    intro m hm
    obtain ⟨d, hd, rfl⟩ := List.mem_map.mp hm
    obtain ⟨hMin, hMax⟩ := hRange d (List.mem_of_mem_filter hd)
    refine ⟨d.id, atoi_repr hMin hMax, rfl, ?_, ?_⟩
    · rintro ip rfl hSome
      cases hLookup : (getFloatingIPs ips).lookup d.id with
      | none => simp [listedMachine, hLookup] at hSome
      | some ip =>
          rw [listedMachine, hLookup, Option.getD_some]
          exact (hShown ip d.id).mp (mem_of_lookup hLookup)
    · intro hNone ip hHeld
      cases hLookup : (getFloatingIPs ips).lookup d.id with
      | none => exact notMem_of_lookup hLookup ip ((hShown ip d.id).mpr hHeld)
      | some ip' =>
          rw [listedMachine, hLookup, Option.getD_some] at hNone
          have hEmpty := (hShown ip' d.id).mp (mem_of_lookup hLookup)
          replace hNone : ip' = "" := hNone
          rw [hNone, hNamed] at hEmpty
          cases hEmpty
  named := hNamed

/-- Two droplets, whose IPs are `a` and `b`. -/
def twoHolders : Holders := fun ip => if ip = "a" then some 1 else if ip = "b" then some 2 else none

def twoDroplets : List Machine :=
  list "tag" [⟨1, "", "", "", "", ["tag"]⟩, ⟨2, "", "", "", "", ["tag"]⟩]
    [("a", some 1), ("b", some 2)]

theorem twoDroplets_lists : Lists twoHolders twoDroplets := by
  apply list_lists
  · decide
  · decide
  · intro ip id
    simp only [twoHolders, List.mem_cons, Prod.mk.injEq, Option.some.injEq, List.not_mem_nil,
      or_false]
    split_ifs with hA hB <;> simp_all [eq_comm]
  · rfl

/-- Machines that want the IPs. -/
def wanting (first second : String) : List Machine :=
  [{ id := 0, cloudID := "1", floatingIP := first },
    { id := 0, cloudID := "2", floatingIP := second }]

/-- The IP that the first droplet has just got is taken away for the second one. -/
theorem swap_loses_ip :
    Lists twoHolders twoDroplets ∧
      ∃ holders', syncFloatingIPs .stored .reliable twoDroplets (wanting "b" "a") twoHolders =
        .ok holders' ∧ holders' "a" = some 2 ∧ holders' "b" = none :=
  ⟨twoDroplets_lists, _, rfl, by decide, by decide⟩

/-- An IP is moved if its holder comes first. -/
theorem syncFloatingIPs_exact_moved :
    ∃ holders', syncFloatingIPs .stored .reliable twoDroplets (wanting "c" "a") twoHolders =
        .ok holders' ∧ ∀ t ∈ wanting "c" "a", HoldsExactly holders' t := by
  refine ⟨_, rfl, (syncFloatingIPs_exact_iff twoDroplets_lists (by decide) (by decide)).mpr
    (fun _ => ⟨by decide +kernel, ?_⟩) .stored .reliable _ rfl⟩
  intro t _ m hm _ ip hHeld hNe
  have hListed : ∀ m ∈ twoDroplets, (atoi m.cloudID = some 1 ∧ m.floatingIP = "a") ∨
      (atoi m.cloudID = some 2 ∧ m.floatingIP = "b") := by decide +kernel
  refine absurd ?_ hNe
  rw [twoHolders] at hHeld
  rcases hListed m hm with ⟨hID, hIP⟩ | ⟨hID, hIP⟩ <;>
    rw [hID] at hHeld <;> split_ifs at hHeld with hA hB
  · rw [hIP, hA]
  · cases hHeld
  · cases hHeld
  · rw [hIP, hB]

end Exact

end Kelda.DigitalOcean
