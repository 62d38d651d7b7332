import Mathlib.Logic.Function.Basic
import Mathlib.Tactic.Simps.Basic
import Kelda.DB.Database
import Kelda.Etcd.Store
import Kelda.Lib.Lease

/-! Leader election. Every minion campaigns for the leader key of the store and
notes in its database whether it leads. A campaign reads the database, asks the
store and writes the answer back in steps of their own, so that those of
different minions interleave; requests may get lost on the way and minions may
restart. The leader key is a lease, and no minion leads without it. -/
namespace Kelda.Etcd

open DB

section Campaign

def electionTTL : Nat := 30

def leaderKey : String := "/leader"

/-- The transaction of a campaign that has been decided. More than one address
is a panic. -/
def commitLeader (ord : MapOrder) (view : Database) (leader : Bool) (ip : List String) :
    Except String Database :=
  if 1 < ip.length then .error "Not Reached"
  else
    match view.selectAll ord .etcd with
    | [etcd] =>
      let etcd : DB.Etcd := { etcd with leader }
      let etcd : DB.Etcd := match ip with
        | [leaderIP] => { etcd with leaderIP }
        | _ => etcd
      view.commit .etcd etcd
    | _ => .ok view

/-- The transaction of watchLeader. -/
def commitLeaderIP (ord : MapOrder) (view : Database) (leader : String) :
    Except String Database :=
  match view.selectAll ord .etcd with
  | [etcd] => view.commit .etcd ({ etcd with leaderIP := leader } : DB.Etcd)
  | _ => .ok view

/-- What a campaign asks of the store. -/
inductive Request where
  | create (ip : String)
  | refresh (ip : String)
deriving DecidableEq

namespace Request

def ip : Request → String
  | .create ip => ip
  | .refresh ip => ip

def run : Request → Store → Except Error Store
  | .create ip, store => store.create leaderKey ip electionTTL
  | .refresh ip, store => store.refresh leaderKey ip electionTTL

end Request

/-- Only a master with a single Etcd row and an address campaigns. -/
def campaignRequest (etcdRows : List DB.Etcd) (minion : Minion) : Option Request :=
  match etcdRows with
  | [etcd] =>
    if minion.role ≠ .master then none
    else if minion.privateIP = "" then none
    else if etcd.leader then some (.refresh minion.privateIP)
    else some (.create minion.privateIP)
  | _ => none

/-- What becomes of the answer to a request. That the key exists means that
there is another leader; after any other error it is unknown who leads. -/
def commitCampaign (ord : MapOrder) (view : Database) (ip : String) :
    Option Error → Except String Database
  | none => commitLeader ord view true [ip]
  | some err =>
    if err ≠ .client errorCodeNodeExist then commitLeader ord view false [""]
    else commitLeader ord view false []

end Campaign

section Cluster

/-- Where the campaign of a minion stands. -/
inductive Campaign where
  | waiting
  /-- It has read the Etcd rows. -/
  | selected (etcdRows : List DB.Etcd)
  | requesting (req : Request)
  /-- The store has answered the request for the address. -/
  | replied (ip : String) (err : Option Error)

/-- Where watchLeader of a minion stands. -/
inductive Watch where
  | waiting
  | got (leader : String)

structure Process where
  db : Database
  campaign : Campaign := .waiting
  watch : Watch := .waiting

/-- Minions with a common store. A request of which the sender does not wait for
the answer any more may still be on its way. -/
structure Cluster (ι : Type) where
  store : Store
  minions : ι → Process
  late : List Request

/-- The database knows no other address for the running minion. It knows none
before the minion is configured. -/
def Addressed (ip : String) (view : Database) : Prop :=
  ∀ m ∈ view.rows .minion, m.self = true → m.privateIP = ip ∨ m.privateIP = ""

/-- A row says that the minion leads. -/
def Leads (view : Database) : Prop := ∃ etcd ∈ view.rows .etcd, etcd.leader = true

/-- The store has granted a request, and the campaign has not noted it yet. -/
def Campaign.Won (campaign : Campaign) : Prop := ∃ ip, campaign = .replied ip none

/-- The requests of a campaign that its end would leave on their way. -/
def Campaign.pending : Campaign → List Request
  | .requesting req => [req]
  | _ => []

namespace Cluster

variable {ι : Type} [DecidableEq ι]

@[simps -fullyApplied] def setMinion (s : Cluster ι) (i : ι) (p : Process) : Cluster ι :=
  { s with minions := Function.update s.minions i p }

@[simps -fullyApplied] def setStore (s : Cluster ι) (store : Store) : Cluster ι := { s with store }

@[simps -fullyApplied] def setLate (s : Cluster ι) (late : List Request) : Cluster ι :=
  { s with late }

/-- One step of the cluster, of minions with the given addresses. -/
inductive Step (ip : ι → String) (s : Cluster ι) : Cluster ι → Prop where
  | select (i : ι) (ord : MapOrder) (h : (s.minions i).campaign = .waiting) :
      Step ip s (s.setMinion i
        { s.minions i with campaign := .selected ((s.minions i).db.selectAll ord .etcd) })
  | skip (i : ι) {etcdRows : List DB.Etcd} {ord : MapOrder} {m : Minion}
      (h : (s.minions i).campaign = .selected etcdRows)
      (hSelf : minionSelf ord (s.minions i).db = .ok m)
      (hRequest : campaignRequest etcdRows m = none) :
      Step ip s (s.setMinion i { s.minions i with campaign := .waiting })
  | request (i : ι) {etcdRows : List DB.Etcd} {ord : MapOrder} {m : Minion} {req : Request}
      (h : (s.minions i).campaign = .selected etcdRows)
      (hSelf : minionSelf ord (s.minions i).db = .ok m)
      (hRequest : campaignRequest etcdRows m = some req) :
      Step ip s (s.setMinion i { s.minions i with campaign := .requesting req })
  | succeed (i : ι) {req : Request} {store : Store}
      (h : (s.minions i).campaign = .requesting req) (hRun : req.run s.store = .ok store) :
      Step ip s ((s.setStore store).setMinion i
        { s.minions i with campaign := .replied req.ip none })
  /-- A request that fails may have taken effect all the same. -/
  | fail (i : ι) {req : Request} {store : Store} (err : Error)
      (h : (s.minions i).campaign = .requesting req)
      (hStore : store = s.store ∨ req.run s.store = .ok store) :
      Step ip s ((s.setStore store).setMinion i
        { s.minions i with campaign := .replied req.ip (some err) })
  /-- It may also take effect after the error. -/
  | giveUp (i : ι) {req : Request} (err : Error)
      (h : (s.minions i).campaign = .requesting req) :
      Step ip s ((s.setLate (req :: s.late)).setMinion i
        { s.minions i with campaign := .replied req.ip (some err) })
  | arrive {req : Request} {store : Store} (hLate : req ∈ s.late)
      (hRun : req.run s.store = .ok store) :
      Step ip s ((s.setStore store).setLate (s.late.erase req))
  | commit (i : ι) {addr : String} {err : Option Error} {ord : MapOrder} {view : Database}
      (h : (s.minions i).campaign = .replied addr err)
      (hCommit : commitCampaign ord (s.minions i).db addr err = .ok view) :
      Step ip s (s.setMinion i { s.minions i with db := view, campaign := .waiting })
  /-- The error of a read is dropped. -/
  | get (i : ι) {leader : String} (h : (s.minions i).watch = .waiting)
      (hGet : s.store.get leaderKey = .ok leader ∨ leader = "") :
      Step ip s (s.setMinion i { s.minions i with watch := .got leader })
  | watched (i : ι) {leader : String} {ord : MapOrder} {view : Database}
      (h : (s.minions i).watch = .got leader)
      (hCommit : commitLeaderIP ord (s.minions i).db leader = .ok view) :
      Step ip s (s.setMinion i { s.minions i with db := view, watch := .waiting })
  /-- A minion that restarts has lost its Etcd row, and its request may be on
  its way still. -/
  | restart (i : ι) {view : Database} {late : List Request} (hRows : view.rows .etcd = [])
      (hAddress : Addressed (ip i) view)
      (hLate : late = s.late ∨ late = (s.minions i).campaign.pending ++ s.late) :
      Step ip s ((s.setLate late).setMinion i { db := view })
  /-- Other components write the database of a minion, such as the server that
  sets its configuration. None of them makes a minion the leader. -/
  | other (i : ι) {view : Database}
      (hRows : ∀ etcd ∈ view.rows .etcd, etcd.leader = true → Leads (s.minions i).db)
      (hAddress : Addressed (ip i) view) :
      Step ip s (s.setMinion i { s.minions i with db := view })
  /-- Other keys of the store are written. -/
  | traffic {store : Store} (h : store.lookup leaderKey = s.store.lookup leaderKey) :
      Step ip s (s.setStore store)
  /-- The leader key expires, but not before its holder has stopped to lead. -/
  | expire {node : Node} (h : s.store.lookup leaderKey = some node) (hTTL : node.ttl ≠ 0)
      (hHolder : ∀ i, ip i = node.value →
        ¬ Leads (s.minions i).db ∧ ¬ (s.minions i).campaign.Won) :
      Step ip s (s.setStore (s.store.erase leaderKey))

/-- No minion has started to campaign. The store may hold anything. -/
structure Initial (ip : ι → String) (s : Cluster ι) : Prop where
  rows : ∀ i, ¬ Leads (s.minions i).db
  address : ∀ i, Addressed (ip i) (s.minions i).db
  campaign : ∀ i, (s.minions i).campaign = .waiting
  watch : ∀ i, (s.minions i).watch = .waiting
  late : s.late = []

def Run (ip : ι → String) : Cluster ι → Cluster ι → Prop := Relation.ReflTransGen (Step ip)

end Cluster

end Cluster

section Transactions

variable {ord : MapOrder} {view view' : Database}

/-- A transaction on the single Etcd row replaces this row. -/
theorem commit_single {etcd etcd' : DB.Etcd} (hRows : view.selectAll ord .etcd = [etcd])
    (hID : etcd'.id = etcd.id) :
    ∃ view', view.commit .etcd etcd' = .ok view' ∧ view'.rows .etcd = [etcd'] ∧
      Database.Touches .etcd view view' := by
  have hOnly : view.rows .etcd = [etcd] :=
    List.perm_singleton.mp (hRows ▸ (view.selectAll_perm ord .etcd).symm)
  have hMem : etcd ∈ view.rows .etcd := hOnly ▸ List.mem_singleton_self etcd
  have hSame : getID .etcd etcd = getID .etcd etcd' := hID.symm
  obtain ⟨view', hCommit, hReplaced, -, hTouches⟩ := view.commit_spec hMem hSame
  refine ⟨view', hCommit, ?_, hTouches⟩
  rw [hReplaced, hOnly, Database.replaceRow, List.map_singleton]
  exact congrArg (fun r => [r]) (if_pos hSame)

/-- The single row gets the flag; otherwise nothing is written. -/
theorem commitLeader_spec (ord : MapOrder) (view : Database) (leader : Bool) {ip : List String}
    (hOne : ip.length ≤ 1) :
    ∃ view', commitLeader ord view leader ip = .ok view' ∧
      (Leads view' → leader = true ∨ Leads view) ∧
      (leader = true → (view.rows .etcd).length = 1 → Leads view') ∧
      Database.Touches .etcd view view' := by
  unfold commitLeader
  rw [if_neg (by omega)]
  split
  · next etcd hRows =>
      have hFlag : ∀ etcd' : DB.Etcd, etcd'.id = etcd.id → etcd'.leader = leader →
          ∃ view', view.commit .etcd etcd' = .ok view' ∧
            (Leads view' → leader = true ∨ Leads view) ∧
            (leader = true → (view.rows .etcd).length = 1 → Leads view') ∧
            Database.Touches .etcd view view' := by
        intro etcd' hID hLeader
        obtain ⟨view', hCommit, hRows', hTouches⟩ := commit_single hRows hID
        refine ⟨view', hCommit, ?_, fun hTrue _ => ?_, hTouches⟩
        · rintro ⟨r, hr, hLeads⟩
          rw [hRows', List.mem_singleton] at hr
          rw [hr] at hLeads
          exact Or.inl (hLeader.symm.trans hLeads)
        · exact ⟨etcd', hRows' ▸ List.mem_singleton_self etcd', hLeader.trans hTrue⟩
      split
      · next leaderIP => exact hFlag { etcd with leader, leaderIP } rfl rfl
      · exact hFlag { etcd with leader } rfl rfl
  · next hRows =>
      refine ⟨view, rfl, Or.inr, fun _ hLength => ?_, Database.Touches.refl _ _⟩
      rw [← (view.selectAll_perm ord .etcd).length_eq] at hLength
      obtain ⟨etcd, hEtcd⟩ := List.length_eq_one_iff.mp hLength
      exact absurd hEtcd (hRows etcd)

theorem commitCampaign_spec (ord : MapOrder) (view : Database) (ip : String)
    (err : Option Error) :
    ∃ view', commitCampaign ord view ip err = .ok view' ∧
      (Leads view' → err = none ∨ Leads view) ∧
      (err = none → (view.rows .etcd).length = 1 → Leads view') ∧
      Database.Touches .etcd view view' := by
  cases err with
  | none =>
      obtain ⟨view', hCommit, -, hLeads, hTouches⟩ :=
        commitLeader_spec ord view true (Nat.le_refl [ip].length)
      exact ⟨view', hCommit, fun _ => Or.inl rfl, fun _ => hLeads rfl, hTouches⟩
  | some err =>
      have hLost : ∀ addr : List String, addr.length ≤ 1 →
          ∃ view', commitLeader ord view false addr = .ok view' ∧
            (Leads view' → some err = none ∨ Leads view) ∧
            (some err = none → (view.rows .etcd).length = 1 → Leads view') ∧
            Database.Touches .etcd view view' := by
        intro addr hOne
        obtain ⟨view', hCommit, hLeads, -, hTouches⟩ := commitLeader_spec ord view false hOne
        refine ⟨view', hCommit, fun hNew => ?_, fun hErr => (by cases hErr), hTouches⟩
        exact Or.inr ((hLeads hNew).resolve_left Bool.false_ne_true)
      rw [commitCampaign]
      split
      · exact hLost [""] (Nat.le_refl 1)
      · exact hLost [] (Nat.zero_le 1)

theorem commitLeaderIP_spec (ord : MapOrder) (view : Database) (leader : String) :
    ∃ view', commitLeaderIP ord view leader = .ok view' ∧ (Leads view' → Leads view) ∧
      Database.Touches .etcd view view' := by
  unfold commitLeaderIP
  split
  · next etcd hRows =>
      obtain ⟨view', hCommit, hRows', hTouches⟩ :=
        commit_single hRows (show ({ etcd with leaderIP := leader } : DB.Etcd).id = etcd.id from rfl)
      refine ⟨view', hCommit, ?_, hTouches⟩
      rintro ⟨r, hr, hLeads⟩
      rw [hRows', List.mem_singleton] at hr
      rw [hr] at hLeads
      have hOld : etcd ∈ view.selectAll ord .etcd := hRows ▸ List.mem_singleton_self etcd
      exact ⟨etcd, view.mem_selectAll.mp hOld, hLeads⟩
  · exact ⟨view, rfl, id, Database.Touches.refl _ _⟩

theorem Addressed.touches {ip : String} (h : Addressed ip view)
    (hTouches : Database.Touches .etcd view view') : Addressed ip view' := by
  intro m hm
  rw [hTouches.rows .minion (by decide)] at hm
  exact h m hm

/-- A campaign asks for the address of its minion. -/
theorem campaignRequest_ip {etcdRows : List DB.Etcd} {m : Minion} {req : Request}
    (h : campaignRequest etcdRows m = some req) : req.ip = m.privateIP ∧ req.ip ≠ "" := by
  unfold campaignRequest at h
  split at h
  · split_ifs at h with hRole hEmpty hLeader
    · cases h
      exact ⟨rfl, hEmpty⟩
    · cases h
      exact ⟨rfl, hEmpty⟩
  · cases h

/-- A request that takes effect finds the key absent or in the caller's hands,
and leaves it there. -/
theorem Request.run_eq_ok {req : Request} {store store' : Store} (hSome : req.ip ≠ "")
    (h : req.run store = .ok store') :
    (store.lookup leaderKey = none ∨ (store.lookup leaderKey).map Node.value = some req.ip) ∧
      (store'.lookup leaderKey).map Node.value = some req.ip := by
  cases req with
  | create ip =>
      obtain ⟨hAbsent, rfl⟩ := Store.create_eq_ok h
      exact ⟨Or.inl hAbsent, by rw [Finmap.lookup_insert, Option.map_some, Request.ip]⟩
  | refresh ip =>
      obtain ⟨hValue, rfl⟩ := Store.refresh_eq_ok hSome h
      exact ⟨Or.inr hValue, by rw [Finmap.lookup_insert, Option.map_some, Request.ip]⟩

end Transactions

section Safety

/-- A minion that leads, or is about to note that it does. -/
def Process.Believes (p : Process) : Prop := Leads p.db ∨ p.campaign.Won

/-- A process asks for its own address only. -/
structure Process.Asks (p : Process) (ip : String) : Prop where
  address : Addressed ip p.db
  request : ∀ req ∈ p.campaign.pending, req.ip = ip ∧ req.ip ≠ ""

namespace Cluster

variable {ι : Type} {ip : ι → String} {s s' : Cluster ι}

/-- The leader key as a lease between the addresses of the minions. -/
def lease (ip : ι → String) (s : Cluster ι) : Lease String where
  holder := (s.store.lookup leaderKey).map Node.value
  believes := fun addr => ∃ i, ip i = addr ∧ (s.minions i).Believes

structure Asking (ip : ι → String) (s : Cluster ι) : Prop where
  process : ∀ i, (s.minions i).Asks (ip i)
  late : ∀ req ∈ s.late, req.ip ≠ ""

theorem Initial.asking (h : Initial ip s) : Asking ip s where
  process := fun i =>
    { address := h.address i
      request := by simp [h.campaign i, Campaign.pending] }
  late := by simp [h.late]

theorem Initial.sound (h : Initial ip s) : (s.lease ip).Sound := by
  rintro addr ⟨i, rfl, hLeads | ⟨_, hWon⟩⟩
  · exact absurd hLeads (h.rows i)
  · rw [h.campaign i] at hWon
    cases hWon

/-- Steps at which the leader key stays in the same hands. -/
theorem lease_step_of_lookup_eq
    (hKey : s'.store.lookup leaderKey = s.store.lookup leaderKey)
    (hGain : ∀ i, (s'.minions i).Believes → (s.minions i).Believes) :
    Lease.Step (s.lease ip) (s'.lease ip) := by
  apply Lease.Step.of_holder_eq
  · exact congrArg (Option.map Node.value) hKey
  · rintro addr ⟨i, hAddr, hBelieves⟩
    exact Or.inl ⟨i, hAddr, hGain i hBelieves⟩

/-- A request takes effect; at most its sender learns about it. -/
theorem lease_step_of_run {req : Request} (hSome : req.ip ≠ "")
    (hRun : req.run s.store = .ok s'.store)
    (hGain : ∀ i, (s'.minions i).Believes → (s.minions i).Believes ∨ ip i = req.ip) :
    Lease.Step (s.lease ip) (s'.lease ip) := by
  obtain ⟨hBefore, hAfter⟩ := req.run_eq_ok hSome hRun
  constructor
  · rintro addr ⟨i, rfl, hBelieves⟩
    rcases hGain i hBelieves with hOld | hSender
    · exact Or.inl ⟨i, rfl, hOld⟩
    · exact Or.inr (hSender ▸ hAfter)
  · intro addr hHolder _
    rcases hBefore with hAbsent | hOwn
    · rw [lease, hAbsent] at hHolder
      cases hHolder
    · rw [← hHolder]
      exact hAfter.trans hOwn.symm

theorem Asking.setLate {late : List Request} (h : Asking ip s) (hLate : ∀ req ∈ late, req.ip ≠ "") :
    Asking ip (s.setLate late) :=
  ⟨h.process, hLate⟩

theorem Asking.setStore {store : Store} (h : Asking ip s) : Asking ip (s.setStore store) :=
  ⟨h.process, h.late⟩

variable [DecidableEq ι]

theorem believes_setMinion {i : ι} {p : Process} (hGain : p.Believes → (s.minions i).Believes)
    (j : ι) (h : ((s.setMinion i p).minions j).Believes) : (s.minions j).Believes := by
  rw [setMinion_minions] at h
  by_cases hj : j = i
  · subst hj
    rw [Function.update_self] at h
    exact hGain h
  · rwa [Function.update_of_ne hj] at h

theorem Asking.setMinion {i : ι} {p : Process} (h : Asking ip s) (hp : p.Asks (ip i)) :
    Asking ip (s.setMinion i p) where
  process := by
    intro j
    rw [setMinion_minions]
    by_cases hj : j = i
    · subst hj
      rwa [Function.update_self]
    · rw [Function.update_of_ne hj]
      exact h.process j
  late := h.late

theorem Asking.step (h : Asking ip s) (hStep : Step ip s s') : Asking ip s' := by
  have idle : ∀ {i : ι} {view : Database} {campaign : Campaign} {watch : Watch},
      Addressed (ip i) view → campaign.pending = [] →
      (Process.mk view campaign watch).Asks (ip i) := by
    intro i view campaign watch hView hIdle
    exact ⟨hView, by simp [hIdle]⟩
  have address := fun i => (h.process i).address
  cases hStep with
  | select i => exact h.setMinion (idle (address i) rfl)
  | skip i => exact h.setMinion (idle (address i) rfl)
  | request i hCampaign hSelf hRequest =>
      apply h.setMinion
      obtain ⟨hOwn, hSome⟩ := campaignRequest_ip hRequest
      obtain ⟨hMem, hm⟩ := minionSelf_mem hSelf
      refine ⟨address i, ?_⟩
      intro req hreq
      rw [List.mem_singleton.mp hreq]
      rcases address i _ hMem hm with hAddr | hEmpty
      · exact ⟨hOwn.trans hAddr, hSome⟩
      · exact absurd (hOwn.trans hEmpty) hSome
  | succeed i => exact h.setStore.setMinion (idle (address i) rfl)
  | fail i => exact h.setStore.setMinion (idle (address i) rfl)
  | giveUp i _ hCampaign =>
      refine (h.setLate ?_).setMinion (idle (address i) rfl)
      intro req hreq
      rcases List.mem_cons.mp hreq with rfl | hOld
      · exact ((h.process i).request req (by simp [hCampaign, Campaign.pending])).2
      · exact h.late req hOld
  | arrive =>
      exact h.setStore.setLate (fun req hreq => h.late req (List.mem_of_mem_erase hreq))
  | @commit i addr err ord view _ hCommit =>
      obtain ⟨_, hCommit', -, -, hTouches⟩ := commitCampaign_spec ord (s.minions i).db addr err
      cases hCommit.symm.trans hCommit'
      exact h.setMinion (idle ((address i).touches hTouches) rfl)
  | get i => exact h.setMinion ⟨address i, (h.process i).request⟩
  | @watched i leader ord view _ hCommit =>
      obtain ⟨_, hCommit', -, hTouches⟩ := commitLeaderIP_spec ord (s.minions i).db leader
      cases hCommit.symm.trans hCommit'
      exact h.setMinion ⟨(address i).touches hTouches, (h.process i).request⟩
  | restart i _ hAddress hLate =>
      refine (h.setLate ?_).setMinion (idle hAddress rfl)
      intro req hreq
      rcases hLate with rfl | rfl
      · exact h.late req hreq
      · rcases List.mem_append.mp hreq with hPending | hOld
        · exact ((h.process i).request req hPending).2
        · exact h.late req hOld
  | other i _ hAddress => exact h.setMinion ⟨hAddress, (h.process i).request⟩
  | traffic => exact h.setStore
  | expire => exact h.setStore

/-- The cluster is a lease: each of its steps is one of the leader key. -/
theorem Step.simulates (h : Asking ip s) (hStep : Step ip s s') :
    Lease.Step (s.lease ip) (s'.lease ip) := by
  -- without a granted request a minion believes only what its database says
  have noted : ∀ {i : ι} {view : Database} {campaign : Campaign} {watch : Watch},
      ¬ campaign.Won → (Leads view → (s.minions i).Believes) →
      (Process.mk view campaign watch).Believes → (s.minions i).Believes := by
    intro i view campaign watch hLost hLeads hBelieves
    exact hBelieves.elim hLeads (fun hWon => absurd hWon hLost)
  cases hStep with
  | select i =>
      exact lease_step_of_lookup_eq rfl (believes_setMinion (noted (by rintro ⟨_, ⟨⟩⟩) Or.inl))
  | skip i =>
      exact lease_step_of_lookup_eq rfl (believes_setMinion (noted (by rintro ⟨_, ⟨⟩⟩) Or.inl))
  | request i =>
      exact lease_step_of_lookup_eq rfl (believes_setMinion (noted (by rintro ⟨_, ⟨⟩⟩) Or.inl))
  | @succeed i req store hCampaign hRun =>
      obtain ⟨hOwn, hSome⟩ :=
        (h.process i).request req (by simp [hCampaign, Campaign.pending])
      apply lease_step_of_run hSome hRun
      intro j hBelieves
      by_cases hj : j = i
      · exact Or.inr (hj ▸ hOwn.symm)
      · rw [setMinion_minions, Function.update_of_ne hj] at hBelieves
        exact Or.inl hBelieves
  | @fail i req store err hCampaign hStore =>
      have hLost : ∀ j, (((s.setStore store).setMinion i
          { s.minions i with campaign := .replied req.ip (some err) }).minions j).Believes →
          (s.minions j).Believes :=
        believes_setMinion (noted (by rintro ⟨_, ⟨⟩⟩) Or.inl)
      rcases hStore with rfl | hRun
      · exact lease_step_of_lookup_eq rfl hLost
      · obtain ⟨-, hSome⟩ :=
          (h.process i).request req (by simp [hCampaign, Campaign.pending])
        exact lease_step_of_run hSome hRun (fun j hBelieves => Or.inl (hLost j hBelieves))
  | giveUp i =>
      exact lease_step_of_lookup_eq rfl (believes_setMinion (noted (by rintro ⟨_, ⟨⟩⟩) Or.inl))
  | arrive hLate hRun =>
      exact lease_step_of_run (h.late _ hLate) hRun (fun _ => Or.inl)
  | @commit i addr err ord view hCampaign hCommit =>
      refine lease_step_of_lookup_eq rfl (believes_setMinion (noted (by rintro ⟨_, ⟨⟩⟩) ?_))
      intro hLeads
      obtain ⟨_, hCommit', hNoted, -⟩ := commitCampaign_spec ord (s.minions i).db addr err
      cases hCommit.symm.trans hCommit'
      rcases hNoted hLeads with rfl | hOld
      · exact Or.inr ⟨addr, hCampaign⟩
      · exact Or.inl hOld
  | get i => exact lease_step_of_lookup_eq rfl (believes_setMinion id)
  | @watched i leader ord view _ hCommit =>
      obtain ⟨_, hCommit', hNoted, -⟩ := commitLeaderIP_spec ord (s.minions i).db leader
      cases hCommit.symm.trans hCommit'
      exact lease_step_of_lookup_eq rfl (believes_setMinion (Or.imp_left hNoted))
  | restart i hRows =>
      refine lease_step_of_lookup_eq rfl (believes_setMinion (noted (by rintro ⟨_, ⟨⟩⟩) ?_))
      rintro ⟨etcd, hMem, -⟩
      rw [hRows] at hMem
      cases hMem
  | other i hRows =>
      refine lease_step_of_lookup_eq rfl (believes_setMinion (Or.imp_left ?_))
      rintro ⟨etcd, hMem, hLeads⟩
      exact hRows etcd hMem hLeads
  | traffic hKey => exact lease_step_of_lookup_eq hKey (fun _ => id)
  | @expire node hNode _ hHolder =>
      constructor
      · exact fun _ => Or.inl
      · rintro addr hAddr ⟨i, rfl, hBelieves⟩
        rw [lease, hNode, Option.map_some, Option.some_inj] at hAddr
        obtain ⟨hLeads, hWon⟩ := hHolder i hAddr.symm
        exact absurd hBelieves (not_or.mpr ⟨hLeads, hWon⟩)

/-- Every run of the cluster is a run of the lease. -/
theorem Run.simulates (hStart : Initial ip s) (hRun : Run ip s s') :
    Asking ip s' ∧ Relation.ReflTransGen Lease.Step (s.lease ip) (s'.lease ip) := by
  induction hRun with
  | refl => exact ⟨hStart.asking, .refl⟩
  | tail _ hStep ih => exact ⟨ih.1.step hStep, ih.2.tail (hStep.simulates ih.1)⟩

/-- At most one minion leads, and the leader key holds its address. An address
may be empty: such a minion does not campaign. -/
theorem election_safe (hDistinct : Function.Injective ip) (hStart : Initial ip s)
    (hRun : Run ip s s') :
    (∀ i j, Leads (s'.minions i).db → Leads (s'.minions j).db → i = j) ∧
      ∀ i, Leads (s'.minions i).db → s'.store.get leaderKey = .ok (ip i) := by
  have hSound : (s'.lease ip).Sound := hStart.sound.run (hRun.simulates hStart).2
  have believes : ∀ i, Leads (s'.minions i).db → (s'.lease ip).believes (ip i) :=
    fun i hLeads => ⟨i, rfl, Or.inl hLeads⟩
  constructor
  · intro i j hi hj
    exact hDistinct (hSound.unique (believes i hi) (believes j hj))
  · intro i hi
    obtain ⟨node, hNode, hValue⟩ := Option.map_eq_some_iff.mp (hSound _ (believes i hi))
    rw [Store.get, hNode]
    exact congrArg Except.ok hValue

/-- Two masters that campaign at the same time. -/
def raceIP : Bool → String
  | false => "172.31.0.1"
  | true => "172.31.0.2"

def raceView (ip : String) : Database where
  rows
    | .etcd => [{ id := 1 }]
    | .minion => [{ id := 2, self := true, role := .master, privateIP := ip }]
    | _ => []
  shouldAlert := fun _ => false
  curID := 2
  nodup := fun tt => by cases tt <;> simp
  bounded := fun tt => by cases tt <;> simp [getID]

def raceStart : Cluster Bool where
  store := ∅
  minions := fun i => { db := raceView (raceIP i) }
  late := []

theorem raceStart_initial : Initial raceIP raceStart where
  rows := by simp [raceStart, raceView, Leads]
  address := by
    intro i m hm _
    rw [List.mem_singleton.mp hm]
    exact Or.inl rfl
  campaign := fun _ => rfl
  watch := fun _ => rfl
  late := rfl

/-- Both ask for the key before either knows the answer. -/
theorem election_safe_race :
    ∃ s', Run raceIP raceStart s' ∧ Leads (s'.minions false).db ∧
      (∀ i j, Leads (s'.minions i).db → Leads (s'.minions j).db → i = j) ∧
      ∀ i, Leads (s'.minions i).db → s'.store.get leaderKey = .ok (raceIP i) := by
  obtain ⟨view, hCommit, -, hLeads, -⟩ :=
    commitCampaign_spec .stored (raceView (raceIP false)) (raceIP false) none
  have hSelf : ∀ i, minionSelf .stored (raceView (raceIP i)) =
      .ok { id := 2, self := true, role := .master, privateIP := raceIP i } := fun _ => rfl
  have hRun : Run raceIP raceStart _ := Relation.ReflTransGen.refl
    |>.tail (.select false .stored rfl)
    |>.tail (.select true .stored rfl)
    |>.tail (.request false rfl (hSelf false) rfl)
    |>.tail (.request true rfl (hSelf true) rfl)
    |>.tail (.succeed false rfl rfl)
    |>.tail (.fail true (.client errorCodeNodeExist) rfl (Or.inl rfl))
    |>.tail (.commit false rfl hCommit)
  refine ⟨_, hRun, hLeads rfl rfl, election_safe ?_ raceStart_initial hRun⟩
  intro i j h
  revert i j
  decide

end Cluster

end Safety

end Kelda.Etcd
