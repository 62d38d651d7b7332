import Kelda.Network.Hostnames

/-! The DNS server of a worker. It answers questions about names without a dot from
the table of names, and hands all others to the resolver of the machine. The table
is that of the leader by way of the store, so that a container is found under its
name on every worker. -/
namespace Kelda.Network

open DB Net Minion Database
open Etcd (hostnameKey Publishes Follows)

section Messages

structure Question where
  name : String
  qtype : UInt16
  qclass : UInt16
deriving DecidableEq

/-- A resource record of type A with its header. -/
structure ARecord where
  name : String
  rrtype : UInt16
  rrclass : UInt16
  ttl : UInt32
  a : IP
deriving DecidableEq

/-- The fields of a message that the server reads or writes. -/
structure Msg where
  id : UInt16 := 0
  response : Bool := false
  opcode : Nat := 0
  recursionDesired : Bool := false
  checkingDisabled : Bool := false
  rcode : Nat := 0
  question : List Question := []
  answer : List ARecord := []
deriving DecidableEq

def typeA : UInt16 := 1

def typeAAAA : UInt16 := 28

def classINET : UInt16 := 1

def opcodeQuery : Nat := 0

def rcodeSuccess : Nat := 0

def rcodeNotImplemented : Nat := 4

/-- Seconds. -/
def dnsTTL : UInt32 := 60

/-- The reply to a request, before any answer is added. -/
def setReply (request : Msg) : Msg where
  id := request.id
  response := true
  opcode := request.opcode
  recursionDesired := request.opcode = opcodeQuery ∧ request.recursionDesired
  checkingDisabled := request.opcode = opcodeQuery ∧ request.checkingDisabled
  rcode := rcodeSuccess
  question := request.question.take 1

def setRcode (request : Msg) (rcode : Nat) : Msg := { setReply request with rcode := rcode }

end Messages

section Server

/-- The mapping of characters to lower case. Only what it does to ASCII matters to
the names of containers. -/
structure CaseMapping where
  lower : Char → Char
  ascii : ∀ c, c.toNat < 128 → lower c = c.toLower

def CaseMapping.toLower (mapping : CaseMapping) (s : String) : String :=
  String.ofList (s.toList.map mapping.lower)

/-- The records of a server that is running. -/
structure DnsTable where
  records : StringMap IP

variable (mapping : CaseMapping) (lookupHost : String → Except String (List String))

/-- Rows whose address cannot be parsed are left out. A later row replaces an
earlier one with the same name. -/
def hostnamesToDNS (hostnames : List Hostname) : StringMap IP :=
  hostnames.foldl (fun records hn =>
    if parseIP hn.ip = [] then records
    else records.insert (mapping.toLower hn.hostname) (parseIP hn.ip)) ∅

/-- A server that runs gets other records. Otherwise one is made and started, which
may fail. -/
def updateTable (starts : Bool) (table : Option DnsTable) (hostnames : List Hostname) :
    Option DnsTable :=
  let records := hostnamesToDNS mapping hostnames
  match table with
  | some table => some { table with records := records }
  | none => if starts then some ⟨records⟩ else none

/-- Only workers serve. The role is read when the database is `seen`, and the rows
by a transaction of its own. -/
def serveDNSOnce (ords : Nat → MapOrder) (starts : Bool) (seen view : Database)
    (table : Option DnsTable) : Except String (Option DnsTable) := do
  let self ← minionSelf (ords 0) seen
  if self.role ≠ .worker then pure none
  else pure (updateTable mapping starts table (view.selectAll (ords 1) .hostname))

/-- A name as it is looked up: in lower case, and without dots at its end. -/
def queriedName (name : String) : String :=
  String.ofList ((mapping.toLower name).toList.rdropWhile (· = '.'))

def lookupA (table : DnsTable) (name : String) : List IP :=
  let name := queriedName mapping name
  if name.toList.count '.' = 0 then
    match table.records.lookup name with
    | none => []
    | some ip => [ip]
  else
    match lookupHost name with
    | .error _ => []
    | .ok ipStrs => (ipStrs.map parseIP).filter (fun ip => ip ≠ [] ∧ ip.to4 ≠ [])

def aRecord (name : String) (ip : IP) : ARecord where
  name := name
  rrtype := typeA
  rrclass := classINET
  ttl := dnsTTL
  a := ip

/-- Nothing is sent if no address is known: the client will ask again. -/
def genResponse (table : DnsTable) (req : Msg) : Option Msg :=
  match req.question with
  | [q] =>
    if q.qtype = typeAAAA then some (setReply req)
    else if q.qclass ≠ classINET ∨ q.qtype ≠ typeA then some (setRcode req rcodeNotImplemented)
    else
      match lookupA mapping lookupHost table q.name with
      | [] => none
      | ips => some { setReply req with answer := ips.map (aRecord q.name) }
  | _ => some (setRcode req rcodeNotImplemented)

end Server

section Names

variable {mapping : CaseMapping}

theorem lower_of_validHost {host : String} (h : ValidHost host) : mapping.toLower host = host := by
  have hSame : ∀ c ∈ host.toList, mapping.lower c = c := by
    intro c hc
    have hRange : c.toNat < 128 ∧ ¬(65 ≤ c.toNat ∧ c.toNat ≤ 90) := by
      rcases h.2 c hc with ⟨hLow, hHigh⟩ | hDigit | rfl
      · have hLow : 97 ≤ c.toNat := hLow
        have hHigh : c.toNat ≤ 122 := hHigh
        omega
      · have hDigits : 48 ≤ c.val ∧ c.val ≤ 57 := by simpa [Char.isDigit] using hDigit
        have hHigh : c.toNat ≤ 57 := hDigits.2
        omega
      · decide
    rw [mapping.ascii c hRange.1]
    exact dif_neg hRange.2
  rw [CaseMapping.toLower, List.map_congr_left hSame, List.map_id', String.ofList_toList]

theorem lookup_hostnamesToDNS {rows : List Hostname}
    (hNames : (rows.map (fun r => mapping.toLower r.hostname)).Nodup) {name : String} {ip : IP} :
    (hostnamesToDNS mapping rows).lookup name = some ip ↔
      ∃ r ∈ rows, mapping.toLower r.hostname = name ∧ parseIP r.ip = ip ∧ ip ≠ [] := by
  have hFilter : hostnamesToDNS mapping rows = (rows.filter (fun r => parseIP r.ip ≠ [])).foldl
      (fun records r => records.insert (mapping.toLower r.hostname) (parseIP r.ip)) ∅ := by
    rw [hostnamesToDNS, List.foldl_filter]
    congr 1
    funext records r
    by_cases hIP : parseIP r.ip = [] <;> simp [hIP]
  rw [hFilter, StringKeyed.lookup_foldl_insert (hNames.sublist (List.filter_sublist.map _))]
  constructor
  · rintro ⟨r, hr, hName, rfl⟩
    obtain ⟨hRow, hIP⟩ := List.mem_filter.mp hr
    exact ⟨r, hRow, hName, rfl, of_decide_eq_true hIP⟩
  · rintro ⟨r, hr, hName, rfl, hIP⟩
    exact ⟨r, List.mem_filter.mpr ⟨hr, decide_eq_true hIP⟩, hName, rfl⟩

end Names

section Answers

variable (mapping : CaseMapping) (lookupHost : String → Except String (List String))

/-- The request asks for the address of one name, and the name has no dot but at
its end. -/
structure AsksFor (req : Msg) (q : Question) : Prop where
  question : req.question = [q]
  qtype : q.qtype = typeA
  qclass : q.qclass = classINET
  dotless : '.' ∉ (queriedName mapping q.name).toList

/-- The server answers for the names of a view: a name that has an address gets a
reply with this address alone, any other name gets none. -/
structure Answers (view : Database) (table : DnsTable) : Prop where
  known : ∀ req q, AsksFor mapping req q → ∀ address : IPv4,
    Named view (queriedName mapping q.name) address.text →
      genResponse mapping lookupHost table req =
        some { setReply req with answer := [aRecord q.name (ofIPv4 address)] }
  unknown : ∀ req q, AsksFor mapping req q → (∀ ip, ¬Named view (queriedName mapping q.name) ip) →
    genResponse mapping lookupHost table req = none

variable {mapping lookupHost}

theorem genResponse_internal {table : DnsTable} {req : Msg} {q : Question}
    (h : AsksFor mapping req q) :
    genResponse mapping lookupHost table req =
      (table.records.lookup (queriedName mapping q.name)).map
        (fun ip => { setReply req with answer := [aRecord q.name ip] }) := by
  have hCount : (queriedName mapping q.name).toList.count '.' = 0 := List.count_eq_zero.mpr h.dotless
  rw [genResponse, h.question]
  simp only [h.qtype, h.qclass, ne_eq, not_true_eq_false, or_self, if_false, lookupA,
    hCount, if_true]
  cases table.records.lookup (queriedName mapping q.name) with
  | none => rfl
  | some ip => rfl

/-- What a leader asks of its names: the bindings accept them, and no name has two
addresses. -/
structure ServableNames (view : Database) : Prop where
  valid : ∀ name ip, Named view name ip → ValidHost name
  unique : ∀ name ip ip', Named view name ip → Named view name ip' → ip = ip'

theorem answers_of_holdsNames {view : Database} {rows : List Hostname}
    (hNames : ServableNames view) (h : HoldsNames view rows) :
    Answers mapping lookupHost view ⟨hostnamesToDNS mapping rows⟩ := by
  have hLower : ∀ r ∈ rows, mapping.toLower r.hostname = r.hostname :=
    fun r hr => lower_of_validHost (hNames.valid _ _ (h.named hr))
  have hNodup : (rows.map (fun r => mapping.toLower r.hostname)).Nodup := by
    rw [List.map_congr_left hLower]
    exact h.nodup_names hNames.unique
  constructor
  · intro req q hAsks address hName
    have hRecord : (hostnamesToDNS mapping rows).lookup (queriedName mapping q.name) =
        some (ofIPv4 address) := by
      obtain ⟨r, hr, hHost, hIP⟩ := (h.names _ _).mpr hName
      refine (lookup_hostnamesToDNS hNodup).mpr ⟨r, hr, (hLower r hr).trans hHost, ?_, ?_⟩
      · rw [hIP, parseIP_text]
      · simp [ofIPv4, v4InV6Prefix]
    rw [genResponse_internal hAsks, hRecord]
    rfl
  · intro req q hAsks hNone
    have hRecord : (hostnamesToDNS mapping rows).lookup (queriedName mapping q.name) = none := by
      rw [Option.eq_none_iff_forall_ne_some]
      intro ip hLookup
      obtain ⟨r, hr, hHost, -⟩ := (lookup_hostnamesToDNS hNodup).mp hLookup
      exact hNone r.ip ((hLower r hr).symm.trans hHost ▸ h.named hr)
    rw [genResponse_internal hAsks, hRecord]
    rfl

/-- Only the names and addresses of the rows matter. -/
theorem HoldsNames.of_perm {view : Database} {rows rows' : List Hostname} (h : HoldsNames view rows)
    (hPerm : (rows'.map hostnameKey).Perm (rows.map hostnameKey)) : HoldsNames view rows' := by
  have hRow : ∀ {rows : List Hostname} {name ip : String},
      (∃ r ∈ rows, r.hostname = name ∧ r.ip = ip) ↔
        (⟨0, name, ip⟩ : Hostname) ∈ rows.map hostnameKey := by
    intro rows name ip
    rw [List.mem_map]
    refine exists_congr (fun r => and_congr_right (fun _ => ?_))
    rw [hostnameKey, Hostname.mk.injEq]
    exact (and_iff_right rfl).symm
  refine ⟨hPerm.nodup_iff.mpr h.keys, fun name ip => ?_⟩
  rw [hRow, hPerm.mem_iff, ← hRow]
  exact h.names name ip

theorem serveDNSOnce_worker {ords : Nat → MapOrder} {starts : Bool} {view : Database}
    {self : DB.Minion} {table : Option DnsTable} (hSelf : minionSelf (ords 0) view = .ok self)
    (hRole : self.role = .worker) (hStarts : starts = true ∨ table ≠ none) :
    serveDNSOnce mapping ords starts view view table =
      .ok (some ⟨hostnamesToDNS mapping (view.selectAll (ords 1) .hostname)⟩) := by
  rw [serveDNSOnce, hSelf]
  cases table with
  | some table => simp [bind, Except.bind, pure, Except.pure, hRole, updateTable]
  | none =>
      have hOn : starts = true := hStarts.resolve_right (fun h => h rfl)
      simp [bind, Except.bind, pure, Except.pure, hRole, updateTable, hOn]

/-- From the owners of the addresses to the answers of a worker. The leader joins
its table of names and publishes it, the worker takes it over and serves it. From
then on a question about a name is answered with the address that its owner has at
the leader, and a question about any other name is not answered. -/
theorem dns_answers_names (mapping : CaseMapping)
    (lookupHost : String → Except String (List String)) (leader follower : Database)
    {etcd : DB.Etcd} {self : DB.Minion} (hEtcd : leader.rows .etcd = [etcd])
    (hLead : etcd.leader = true) (hNames : ServableNames leader)
    (hFollower : ∀ ord, etcdLeader ord follower = false)
    (hSelf : ∀ ord, minionSelf ord follower = .ok self) (hRole : self.role = .worker)
    (hKeys : ((follower.rows .hostname).map hostnameKey).Nodup) (ords : Nat → MapOrder) :
    ∃ leader', syncHostnamesOnce ords leader leader = .ok leader' ∧
      ∀ ords store, ∃ store' sets,
        Etcd.runHostnameOnce ords {} store leader' = .ok ⟨store', leader', sets, none⟩ ∧
        ∀ ords, ∃ follower',
          Etcd.runHostnameOnce ords {} store' follower = .ok ⟨store', follower', [], none⟩ ∧
          ∀ ords starts table, starts = true ∨ table ≠ none → ∃ table',
            serveDNSOnce mapping ords starts follower' follower' table = .ok (some table') ∧
              Answers mapping lookupHost leader table' := by
  have hLeads : etcdLeader (ords 0) leader = true := by
    rw [Etcd.etcdLeader_of_rows hEtcd, hLead]
  obtain ⟨leader', hJoin, hTouches, hHolds⟩ := joinHostnames_holds (laterOrders ords 1) leader
  have hSync : syncHostnamesOnce ords leader leader = .ok leader' := by
    rw [syncHostnamesOnce, hLeads, if_pos rfl, hJoin]
  have hEtcd' : leader'.rows .etcd = [etcd] := by
    rw [hTouches.rows _ (by decide), hEtcd]
  obtain ⟨s, hPublishes, hFollows⟩ := Etcd.hostnames_replicate hEtcd' hLead hFollower hHolds.keys
    hKeys (fun rows _ => Etcd.hostnameCodec_roundTrips rows)
  refine ⟨leader', hSync, fun ords store => ?_⟩
  obtain ⟨store', sets, hRun, hGet, -⟩ := hPublishes.writes ords store
  refine ⟨store', sets, hRun, fun ords => ?_⟩
  obtain ⟨follower', hCopy, hTouches', hCopied, -⟩ := hFollows ords store' hGet
  refine ⟨follower', hCopy, fun ords starts table hStarts => ?_⟩
  have hSelf' : minionSelf (ords 0) follower' = .ok self := by
    rw [Etcd.minionSelf_congr (hTouches'.rows _ (by decide)), hSelf]
  refine ⟨_, serveDNSOnce_worker hSelf' hRole hStarts, answers_of_holdsNames hNames ?_⟩
  apply hHolds.of_perm
  exact ((follower'.selectAll_perm (ords 1) .hostname).map hostnameKey).trans hCopied

/-- The mapping of a server that knows no letters but those of ASCII. -/
def asciiCase : CaseMapping := ⟨Char.toLower, fun _ _ => rfl⟩

theorem servableNames_sampleLeader : ServableNames Etcd.sampleLeader := by
  have hOnly : ∀ name ip, Named Etcd.sampleLeader name ip → name = "web" ∧ ip = "10.0.0.2" := by
    rintro name ip (⟨h, hIP⟩ | ⟨h, hName, hIP⟩)
    · cases h
    · rw [List.mem_singleton.mp h]
      exact ⟨rfl, rfl⟩
  refine ⟨fun name ip h => ?_, fun name ip ip' h h' => ?_⟩
  · rw [(hOnly name ip h).1]
    decide
  · rw [(hOnly name ip h).2, (hOnly name ip' h').2]

theorem dns_answers_names_sample : ∃ leader' store sets follower' table,
    syncHostnamesOnce (fun _ => .stored) Etcd.sampleLeader Etcd.sampleLeader = .ok leader' ∧
    Etcd.runHostnameOnce (fun _ => .stored) {} ∅ leader' = .ok ⟨store, leader', sets, none⟩ ∧
    Etcd.runHostnameOnce (fun _ => .stored) {} store Etcd.sampleFollower =
      .ok ⟨store, follower', [], none⟩ ∧
    serveDNSOnce asciiCase (fun _ => .stored) true follower' follower' none = .ok (some table) ∧
    genResponse asciiCase (fun _ => .error "no such host") table
      { id := 7, question := [⟨"Web.", typeA, classINET⟩] } =
        some { id := 7, response := true, question := [⟨"Web.", typeA, classINET⟩]
               answer := [aRecord "Web." (ofIPv4 ⟨10, 0, 0, 2⟩)] } := by
  obtain ⟨leader', hSync, hLater⟩ := dns_answers_names asciiCase (fun _ => .error "no such host")
    Etcd.sampleLeader Etcd.sampleFollower rfl rfl servableNames_sampleLeader
    Etcd.sampleFollower_follows (Etcd.minionSelf_of_rows rfl rfl) rfl List.nodup_nil
    (fun _ => .stored)
  obtain ⟨store, sets, hPublish, hLater⟩ := hLater (fun _ => .stored) ∅
  obtain ⟨follower', hCopy, hLater⟩ := hLater (fun _ => .stored)
  obtain ⟨table, hServe, hAnswers⟩ := hLater (fun _ => .stored) true none (Or.inl rfl)
  refine ⟨leader', store, sets, follower', table, hSync, hPublish, hCopy, hServe, ?_⟩
  refine hAnswers.known _ ⟨"Web.", typeA, classINET⟩ ⟨rfl, rfl, rfl, by decide⟩ ⟨10, 0, 0, 2⟩ ?_
  have hRow : (Etcd.sampleLeader.rows .container).head (by decide) ∈
      Etcd.sampleLeader.rows .container := List.head_mem _
  exact .container hRow (by decide) (by decide)

end Answers

end Kelda.Network
