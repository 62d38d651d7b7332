import Kelda.Network.FlowTables

/-! Which packets pass between the containers and the public internet. -/
namespace Kelda.Network.Openflow

open OpenFlow IPDef Net

section Ports

/-- The host may connect to the port of public hosts. -/
def ToPublic (conns : List DB.Connection) (host : String) (port : Int) : Prop :=
  ∃ conn ∈ conns, host ∈ conn.fromHosts ∧ Blueprint.publicInternetLabel ∈ conn.toHosts ∧
    conn.minPort = port ∧ conn.maxPort = port

/-- Public hosts may connect to the port of the host. -/
def FromPublic (conns : List DB.Connection) (host : String) (port : Int) : Prop :=
  ∃ conn ∈ conns, Blueprint.publicInternetLabel ∈ conn.fromHosts ∧ host ∈ conn.toHosts ∧
    conn.minPort = port ∧ conn.maxPort = port

/-- The ports that are listed for a host. -/
def HostPorts.Lists (ports : HostPorts) (host : String) (port : Int) : Prop :=
  port ∈ (ports.lookup host).getD []

theorem HostPorts.lists_append {ports : HostPorts} {host host' : String} {port port' : Int} :
    (ports.append host port).Lists host' port' ↔
      ports.Lists host' port' ∨ (host' = host ∧ port' = port) := by
  rw [HostPorts.Lists, HostPorts.append]
  by_cases hHost : host' = host
  · subst hHost
    simp [HostPorts.Lists]
  · simp [HostPorts.Lists, AList.lookup_insert_ne hHost, hHost]

variable {conns : List DB.Connection} {host : String} {port : Int}

theorem addPublicPair_lists (conn : DB.Connection) (acc : HostPorts × HostPorts)
    (pair : String × String) :
    ((addPublicPair conn acc pair).1.Lists host port ↔ acc.1.Lists host port ∨
      (pair = (Blueprint.publicInternetLabel, host) ∧ conn.minPort = port ∧ conn.maxPort = port)) ∧
    ((addPublicPair conn acc pair).2.Lists host port ↔ acc.2.Lists host port ∨
      (pair = (host, Blueprint.publicInternetLabel) ∧ conn.minPort = port ∧
        conn.maxPort = port)) := by
  obtain ⟨fromPubPorts, toPubPorts⟩ := acc
  obtain ⟨from', to'⟩ := pair
  rw [addPublicPair]
  split_ifs with hNone hRange hFrom hTo hTo
  all_goals simp only [HostPorts.lists_append, Prod.mk.injEq]
  all_goals grind

theorem mem_hostPairs {conn : DB.Connection} {from' to' : String} :
    (from', to') ∈ hostPairs conn ↔ from' ∈ conn.fromHosts ∧ to' ∈ conn.toHosts := by
  simp [hostPairs]

theorem fromPubPorts_lists :
    (publicPorts conns).1.Lists host port ↔ FromPublic conns host port := by
  have hPairs := fun (acc : HostPorts × HostPorts) (conn : DB.Connection) =>
    List.foldl_iff (P := fun acc : HostPorts × HostPorts => acc.1.Lists host port)
      (fun acc pair => (addPublicPair_lists conn acc pair).1) (hostPairs conn) acc
  have hConns := List.foldl_iff (P := fun acc : HostPorts × HostPorts => acc.1.Lists host port)
    hPairs conns (∅, ∅)
  simpa [publicPorts, HostPorts.Lists, FromPublic, mem_hostPairs, and_assoc] using hConns

theorem toPubPorts_lists :
    (publicPorts conns).2.Lists host port ↔ ToPublic conns host port := by
  have hPairs := fun (acc : HostPorts × HostPorts) (conn : DB.Connection) =>
    List.foldl_iff (P := fun acc : HostPorts × HostPorts => acc.2.Lists host port)
      (fun acc pair => (addPublicPair_lists conn acc pair).2) (hostPairs conn) acc
  have hConns := List.foldl_iff (P := fun acc : HostPorts × HostPorts => acc.2.Lists host port)
    hPairs conns (∅, ∅)
  simpa [publicPorts, HostPorts.Lists, ToPublic, mem_hostPairs, and_assoc] using hConns

theorem mem_toPortSet {ports : List Int} : port ∈ toPortSet ports ↔ port ∈ ports := by
  have hStep : ∀ (set : PortSet) (p : Int), port ∈ set.insert p () ↔ port ∈ set ∨ port = p :=
    fun set p => by rw [AList.mem_insert, or_comm]
  have hPorts := List.foldl_iff (P := fun set : PortSet => port ∈ set) hStep ports ∅
  simpa [toPortSet] using hPorts

end Ports

section Containers

variable (conns : List DB.Connection)

/-- What `openflowContainers` computes for a container. -/
def containerOf (dbc : DB.Container) (mac : String) : Container where
  veth := ifName dbc.ip
  patch := (patchPorts dbc.ip).2
  mac := mac
  ip := dbc.ip
  toPub := toPortSet (((publicPorts conns).2.lookup dbc.hostname).getD [])
  fromPub := toPortSet (((publicPorts conns).1.lookup dbc.hostname).getD [])

/-- Every address is the text of an IPv4 address. The allocator stores no other
texts, and rows without an address are not selected. -/
def IPv4Texts (dbcs : List DB.Container) : Prop := ∀ dbc ∈ dbcs, ∃ a : IPv4, dbc.ip = a.text

/-- The address of a text. -/
def addressOf (ip : String) : IPv4 := (IPv4.parse ip).getD ⟨0, 0, 0, 0⟩

theorem addressOf_text (a : IPv4) : addressOf a.text = a := by simp [addressOf]

theorem openflowContainers_eq {dbcs : List DB.Container} (h : IPv4Texts dbcs) :
    openflowContainers dbcs conns =
      .ok (dbcs.map (fun dbc => containerOf conns dbc (macOf (addressOf dbc.ip)).text)) := by
  change dbcs.mapM (openflowContainer (publicPorts conns).1 (publicPorts conns).2) = _
  induction dbcs with
  | nil => rfl
  | cons dbc dbcs ih =>
      obtain ⟨a, ha⟩ := h dbc (List.mem_cons_self ..)
      have hFirst : openflowContainer (publicPorts conns).1 (publicPorts conns).2 dbc =
          .ok (containerOf conns dbc (macOf (addressOf dbc.ip)).text) := by
        rw [openflowContainer, ha, ipStrToMac_text, addressOf_text]
        simp only [containerOf, ha]
        rfl
      have hRest := ih (fun dbc' h' => h dbc' (List.mem_cons_of_mem _ h'))
      simp only [List.mapM_cons, List.map_cons]
      rw [hFirst, hRest]
      rfl

/-- The resolved form of a container. -/
def resolvedOf (dbc : DB.Container) (veth patch : Nat) : ResolvedContainer :=
  { containerOf conns dbc (macOf (addressOf dbc.ip)).text with vethPort := veth, patchPort := patch }

/-- The container has its two ports. -/
def HasPorts (portMap : String → Option Nat) (dbc : DB.Container) (veth patch : Nat) : Prop :=
  portMap (ifName dbc.ip) = some veth ∧ portMap (patchPorts dbc.ip).2 = some patch

theorem mem_resolved {portMap : String → Option Nat} {dbcs : List DB.Container}
    {c : ResolvedContainer} :
    c ∈ resolveContainers portMap
        (dbcs.map (fun dbc => containerOf conns dbc (macOf (addressOf dbc.ip)).text)) ↔
      ∃ dbc ∈ dbcs, ∃ veth patch, HasPorts portMap dbc veth patch ∧
        c = resolvedOf conns dbc veth patch := by
  rw [resolveContainers, List.filterMap_map, List.mem_filterMap]
  refine exists_congr (fun dbc => and_congr_right (fun _ => ?_))
  constructor
  · intro h
    dsimp only [Function.comp_apply] at h
    split at h
    · rename_i veth patch hVeth hPatch
      exact ⟨veth, patch, ⟨hVeth, hPatch⟩, (Option.some.inj h).symm⟩
    · cases h
  · rintro ⟨veth, patch, ⟨hVeth, hPatch⟩, rfl⟩
    dsimp only [Function.comp_apply]
    rw [show portMap (containerOf conns dbc _).veth = some veth from hVeth,
      show portMap (containerOf conns dbc _).patch = some patch from hPatch]
    rfl

variable {conns} {dbc : DB.Container} {veth patch : Nat} {port : Int}

theorem mem_toPub : port ∈ (resolvedOf conns dbc veth patch).toPub ↔
    ToPublic conns dbc.hostname port :=
  mem_toPortSet.trans toPubPorts_lists

theorem mem_fromPub : port ∈ (resolvedOf conns dbc veth patch).fromPub ↔
    FromPublic conns dbc.hostname port :=
  mem_toPortSet.trans fromPubPorts_lists

end Containers

section Tables

variable {cs : List ResolvedContainer} {address : ResolvedContainer → IPv4} {f : Flow}

theorem BridgeFlow.table_zero (h : BridgeFlow cs address f) (hTable : f.table = 0) :
    f = ⟨0, 1000, [.inPort localPort], [.resubmit 2]⟩ ∨ ∃ c ∈ cs,
      f = ⟨0, 32768, [.inPort c.vethPort, .dlSrc (macOf (address c))],
        [.loadReg0 c.patchPort, .resubmit 1]⟩ ∨
      f = ⟨0, 32768, [.inPort c.patchPort], [.output c.vethPort]⟩ := by
  cases h with
  | static h =>
      simp only [staticTable, List.mem_cons, List.not_mem_nil, or_false] at h
      rcases h with rfl | rfl | rfl | rfl | rfl | rfl
      · exact Or.inl rfl
      all_goals cases hTable
  | container c hc h =>
      cases h with
      | fromVeth => exact Or.inr ⟨c, hc, Or.inl rfl⟩
      | fromPatch => exact Or.inr ⟨c, hc, Or.inr rfl⟩
      | _ => cases hTable
  | broadcast => cases hTable

theorem BridgeFlow.table_one (h : BridgeFlow cs address f) (hTable : f.table = 1) :
    f = ⟨1, 1000, [.arp, .dlDst MAC.broadcast], [.output localPort, .outputReg0]⟩ ∨
      f = ⟨1, 900, [.dlDst (macOf gatewayIP)], [.resubmit 3]⟩ ∨ f = ⟨1, 800, [], [.outputReg0]⟩ := by
  cases h with
  | static h =>
      simp only [staticTable, List.mem_cons, List.not_mem_nil, or_false] at h
      rcases h with rfl | rfl | rfl | rfl | rfl | rfl
      · cases hTable
      · exact Or.inl rfl
      · exact Or.inr (Or.inl rfl)
      · exact Or.inr (Or.inr rfl)
      all_goals cases hTable
  | container c hc h => cases h <;> cases hTable
  | broadcast => cases hTable

theorem BridgeFlow.table_two (h : BridgeFlow cs address f) (hTable : f.table = 2) :
    (∃ actions, f = ⟨2, 1000, [.dlDst MAC.broadcast], actions⟩) ∨ ∃ c ∈ cs,
      f = ⟨2, 900, [.arp, .dlDst (macOf (address c))], [.output c.vethPort]⟩ ∨
      f = ⟨2, 800, [.ip, .dlDst (macOf (address c)), .nw .src gatewayIP], [.output c.vethPort]⟩ ∨
      ∃ proto side, ∃ port ∈ c.inPorts side, f = ⟨2, 500, [.proto proto,
        .dlDst (macOf (address c)), .nw .dst (address c), .tp side port], [.output c.vethPort]⟩ := by
  cases h with
  | static h =>
      simp only [staticTable, List.mem_cons, List.not_mem_nil, or_false] at h
      rcases h with rfl | rfl | rfl | rfl | rfl | rfl <;> cases hTable
  | container c hc h =>
      cases h with
      | arp => exact Or.inr ⟨c, hc, Or.inl rfl⟩
      | gateway => exact Or.inr ⟨c, hc, Or.inr (Or.inl rfl)⟩
      | inbound proto side port hPort =>
          exact Or.inr ⟨c, hc, Or.inr (Or.inr ⟨proto, side, port, hPort, rfl⟩)⟩
      | _ => cases hTable
  | broadcast => exact Or.inl ⟨_, rfl⟩

theorem BridgeFlow.table_three (h : BridgeFlow cs address f) (hTable : f.table = 3) :
    f = ⟨3, 1000, [.ip, .nw .dst gatewayIP], [.output localPort]⟩ ∨
      f = ⟨3, 900, [.arp], [.output localPort]⟩ ∨ ∃ c ∈ cs,
      ∃ proto side, ∃ port ∈ c.outPorts side, f = ⟨3, 500, [.proto proto,
        .dlSrc (macOf (address c)), .nw .src (address c), .tp side port],
          [.output localPort]⟩ := by
  cases h with
  | static h =>
      simp only [staticTable, List.mem_cons, List.not_mem_nil, or_false] at h
      rcases h with rfl | rfl | rfl | rfl | rfl | rfl
      · cases hTable
      · cases hTable
      · cases hTable
      · cases hTable
      · exact Or.inl rfl
      · exact Or.inr (Or.inl rfl)
  | container c hc h =>
      cases h with
      | outbound proto side port hPort =>
          exact Or.inr (Or.inr ⟨c, hc, proto, side, port, hPort, rfl⟩)
      | _ => cases hTable
  | broadcast => cases hTable

end Tables

/-- The containers have their own MACs, addresses and ports, and no port is that
of the bridge. -/
structure Separate (cs : List ResolvedContainer) : Prop where
  macs : (cs.map (fun c => c.mac)).Nodup
  ips : (cs.map (fun c => c.ip)).Nodup
  ports : (cs.map ResolvedContainer.vethPort ++ cs.map ResolvedContainer.patchPort).Nodup
  notLocal : localPort ∉ cs.map ResolvedContainer.vethPort ++ cs.map ResolvedContainer.patchPort

section Processing

variable {cs : List ResolvedContainer} {c c' : ResolvedContainer}

theorem Separate.veth_inj (h : Separate cs) (hc : c ∈ cs) (hc' : c' ∈ cs)
    (hEq : c.vethPort = c'.vethPort) : c = c' :=
  List.inj_on_of_nodup_map (List.nodup_append'.mp h.ports).1 hc hc' hEq

theorem Separate.veth_ne_patch (h : Separate cs) (hc : c ∈ cs) (hc' : c' ∈ cs) :
    c.vethPort ≠ c'.patchPort := fun hEq =>
  (List.nodup_append'.mp h.ports).2.2 (List.mem_map_of_mem hc) (hEq ▸ List.mem_map_of_mem hc')

theorem Separate.veth_ne_local (h : Separate cs) (hc : c ∈ cs) : c.vethPort ≠ localPort :=
  fun hEq => h.notLocal (List.mem_append_left _ (hEq ▸ List.mem_map_of_mem hc))

theorem Separate.patch_ne_local (h : Separate cs) (hc : c ∈ cs) : c.patchPort ≠ localPort :=
  fun hEq => h.notLocal (List.mem_append_right _ (hEq ▸ List.mem_map_of_mem hc))

variable {address : ResolvedContainer → IPv4}
  (hMacs : ∀ c ∈ cs, c.mac = (macOf (address c)).text)
  {choice : Priority.Choice Flow} {flows : List Flow}
  (hFlows : ∀ f, f ∈ flows ↔ BridgeFlow cs address f)
  {inPort : Nat} {pkt : Packet} {depth reg0 : Nat}

include hMacs in
theorem Separate.mac_inj (h : Separate cs) (hc : c ∈ cs) (hc' : c' ∈ cs)
    (hEq : macOf (address c) = macOf (address c')) : c = c' := by
  refine List.inj_on_of_nodup_map h.macs hc hc' ?_
  rw [hMacs c hc, hMacs c' hc', hEq]

theorem not_arp_of_isIP (h : pkt.isIP = true) : Field.test inPort pkt .arp = false := by
  unfold Packet.isIP at h
  unfold Field.test
  cases hNetwork : pkt.network <;> simp_all

/-- The packet is one that the container may send to the public internet. -/
def Sends (c : ResolvedContainer) (a : IPv4) (pkt : Packet) : Prop :=
  pkt.dlSrc = macOf a ∧ pkt.nw? .src = some a ∧
    ∃ side, ∃ p : Nat, pkt.tp? side = some p ∧ (p : Int) ∈ c.outPorts side

/-- The packet is one that the container may get from the public internet. -/
def Receives (c : ResolvedContainer) (a : IPv4) (pkt : Packet) : Prop :=
  pkt.dlDst = macOf a ∧ pkt.nw? .dst = some a ∧
    ∃ side, ∃ p : Nat, pkt.tp? side = some p ∧ (p : Int) ∈ c.inPorts side

theorem exists_proto {side : Side} {p : Nat} (h : pkt.tp? side = some p) :
    ∃ proto, pkt.proto? = some proto := by
  unfold Packet.tp? at h
  unfold Packet.proto?
  split at h
  · exact ⟨_, rfl⟩
  · cases h

include hFlows in
/-- Table 3 sends to LOCAL what some container may send. -/
theorem process_three (hIP : pkt.isIP = true) (hDst : pkt.nw? .dst ≠ some gatewayIP) :
    localPort ∈ (process choice flows inPort pkt (depth + 1) 3 reg0).2 ↔
      inPort ≠ localPort ∧ ∃ c ∈ cs, Sends c (address c) pkt := by
  -- no flow above those of the containers matches
  have hInv : ∀ f ∈ matching flows inPort pkt 3,
      f.actions = [.output localPort] ∧ ∃ c ∈ cs, Sends c (address c) pkt := by
    intro f hf
    obtain ⟨hMem, hTable, hTest⟩ := mem_matching.mp hf
    rcases ((hFlows f).mp hMem).table_three hTable with rfl | rfl |
      ⟨c, hc, proto, side, port, hPort, rfl⟩
    · simp [Flow.test, Field.test, hDst] at hTest
    · simp [Flow.test, not_arp_of_isIP hIP] at hTest
    · simp only [Flow.test, Field.test, List.all_cons, List.all_nil, Bool.and_true,
        Bool.and_eq_true, decide_eq_true_eq, Option.map_eq_some_iff] at hTest
      obtain ⟨-, hMac, hSrc, p, hp, rfl⟩ := hTest
      exact ⟨rfl, c, hc, hMac, hSrc, side, p, hp, hPort⟩
  by_cases hSends : ∃ c ∈ cs, Sends c (address c) pkt
  · obtain ⟨c, hc, hMac, hSrc, side, p, hp, hPort⟩ := id hSends
    obtain ⟨proto, hProto⟩ := exists_proto hp
    have hMatch : (⟨3, 500, [.proto proto, .dlSrc (macOf (address c)), .nw .src (address c),
        .tp side p], [.output localPort]⟩ : Flow) ∈ matching flows inPort pkt 3 := by
      refine mem_matching.mpr ⟨(hFlows _).mpr (.container c hc (.outbound proto side p hPort)), rfl, ?_⟩
      simp [Flow.test, Field.test, hProto, hMac, hSrc, hp]
    rw [process_of_matching hMatch (fun other hOther _ => (hInv other hOther).1)]
    simp [act, emit, hSends, eq_comm]
  · rw [process_of_no_match]
    · simp [hSends]
    · intro f hf hTable
      by_contra hTest
      exact hSends (hInv f (mem_matching.mpr ⟨hf, hTable, by simpa using hTest⟩)).2

include hMacs hFlows in
/-- Table 2 sends a packet to the container that may receive it. -/
theorem process_two (hSep : Separate cs) (hIP : pkt.isIP = true)
    (hUnicast : pkt.dlDst ≠ MAC.broadcast) (hSrc : pkt.nw? .src ≠ some gatewayIP) (port : Nat) :
    port ∈ (process choice flows inPort pkt (depth + 1) 2 reg0).2 ↔
      port ≠ inPort ∧ ∃ c ∈ cs, c.vethPort = port ∧ Receives c (address c) pkt := by
  have hInv : ∀ f ∈ matching flows inPort pkt 2,
      ∃ c ∈ cs, f.actions = [.output c.vethPort] ∧ Receives c (address c) pkt := by
    intro f hf
    obtain ⟨hMem, hTable, hTest⟩ := mem_matching.mp hf
    rcases ((hFlows f).mp hMem).table_two hTable with ⟨actions, rfl⟩ |
      ⟨c, hc, rfl | rfl | ⟨proto, side, port, hPort, rfl⟩⟩
    · simp [Flow.test, Field.test, hUnicast] at hTest
    · simp [Flow.test, not_arp_of_isIP hIP] at hTest
    · simp [Flow.test, Field.test, hSrc] at hTest
    · simp only [Flow.test, Field.test, List.all_cons, List.all_nil, Bool.and_true,
        Bool.and_eq_true, decide_eq_true_eq, Option.map_eq_some_iff] at hTest
      obtain ⟨-, hMac, hDst, p, hp, rfl⟩ := hTest
      exact ⟨c, hc, rfl, hMac, hDst, side, p, hp, hPort⟩
  by_cases hReceives : ∃ c ∈ cs, Receives c (address c) pkt
  · obtain ⟨c, hc, hMac, hDst, side, p, hp, hPort⟩ := id hReceives
    obtain ⟨proto, hProto⟩ := exists_proto hp
    have hOnly : ∀ c' ∈ cs, Receives c' (address c') pkt → c' = c := fun c' hc' h' =>
      hSep.mac_inj hMacs hc' hc (h'.1.symm.trans hMac)
    have hMatch : (⟨2, 500, [.proto proto, .dlDst (macOf (address c)), .nw .dst (address c),
        .tp side p], [.output c.vethPort]⟩ : Flow) ∈ matching flows inPort pkt 2 := by
      refine mem_matching.mpr ⟨(hFlows _).mpr (.container c hc (.inbound proto side p hPort)),
        rfl, ?_⟩
      simp [Flow.test, Field.test, hProto, hMac, hDst, hp]
    have hActions : ∀ other ∈ matching flows inPort pkt 2,
        (500 : Nat) ≤ other.priority → other.actions = [.output c.vethPort] := by
      intro other hOther _
      obtain ⟨c', hc', hActions, h'⟩ := hInv other hOther
      rw [hActions, hOnly c' hc' h']
    rw [process_of_matching hMatch hActions]
    simp only [List.foldl_cons, List.foldl_nil, act, List.nil_append, emit]
    constructor
    · intro h
      split_ifs at h with hPort'
      · cases h
      · rw [List.mem_singleton] at h
        exact ⟨h ▸ hPort', c, hc, h.symm, hMac, hDst, side, p, hp, hPort⟩
    · rintro ⟨hNe, c', hc', rfl, h'⟩
      rw [hOnly c' hc' h'] at hNe ⊢
      rw [if_neg hNe]
      exact List.mem_singleton_self _
  · rw [process_of_no_match]
    · simp only [List.not_mem_nil, false_iff]
      rintro ⟨-, c, hc, -, h⟩
      exact hReceives ⟨c, hc, h⟩
    · intro f hf hTable
      by_contra hTest
      obtain ⟨c, hc, -, h⟩ := hInv f (mem_matching.mpr ⟨hf, hTable, by simpa using hTest⟩)
      exact hReceives ⟨c, hc, h⟩

include hFlows in
/-- Table 1 hands packets to the gateway on, and sends others to OVN. -/
theorem process_one (hIP : pkt.isIP = true) :
    process choice flows inPort pkt (depth + 1) 1 reg0 =
      if pkt.dlDst = macOf gatewayIP then process choice flows inPort pkt depth 3 reg0
      else (reg0, emit inPort reg0) := by
  have hArp : ∀ f ∈ matching flows inPort pkt 1,
      f = ⟨1, 900, [.dlDst (macOf gatewayIP)], [.resubmit 3]⟩ ∨ f = ⟨1, 800, [], [.outputReg0]⟩ := by
    intro f hf
    obtain ⟨hMem, hTable, hTest⟩ := mem_matching.mp hf
    rcases ((hFlows f).mp hMem).table_one hTable with rfl | h
    · simp [Flow.test, not_arp_of_isIP hIP] at hTest
    · exact h
  split_ifs with hGateway
  · have hMatch : (⟨1, 900, [.dlDst (macOf gatewayIP)], [.resubmit 3]⟩ : Flow) ∈
        matching flows inPort pkt 1 := by
      refine mem_matching.mpr ⟨(hFlows _).mpr (.static (by decide)), rfl, ?_⟩
      simp [Flow.test, Field.test, hGateway]
    rw [process_of_matching hMatch]
    · rfl
    · intro other hOther hPriority
      rcases hArp other hOther with rfl | rfl
      · rfl
      · exact absurd hPriority (by decide)
  · have hMatch : (⟨1, 800, [], [.outputReg0]⟩ : Flow) ∈ matching flows inPort pkt 1 :=
      mem_matching.mpr ⟨(hFlows _).mpr (.static (by decide)), rfl, rfl⟩
    rw [process_of_matching hMatch]
    · rfl
    · intro other hOther hPriority
      rcases hArp other hOther with rfl | rfl
      · have hTest := (mem_matching.mp hOther).2.2
        simp [Flow.test, Field.test, hGateway] at hTest
      · rfl

include hFlows in
/-- A packet from a container enters table 1 if it has the MAC of the container,
and is dropped otherwise. -/
theorem process_veth (hSep : Separate cs) (hc : c ∈ cs) :
    process choice flows c.vethPort pkt (depth + 1) 0 reg0 =
      if pkt.dlSrc = macOf (address c) then
        process choice flows c.vethPort pkt depth 1 c.patchPort
      else (reg0, []) := by
  have hInv : ∀ f ∈ matching flows c.vethPort pkt 0, pkt.dlSrc = macOf (address c) ∧
      f.actions = [.loadReg0 c.patchPort, .resubmit 1] := by
    intro f hf
    obtain ⟨hMem, hTable, hTest⟩ := mem_matching.mp hf
    rcases ((hFlows f).mp hMem).table_zero hTable with rfl | ⟨c', hc', rfl | rfl⟩
    · simp [Flow.test, Field.test, hSep.veth_ne_local hc] at hTest
    · simp only [Flow.test, Field.test, List.all_cons, List.all_nil, Bool.and_true,
        Bool.and_eq_true, decide_eq_true_eq] at hTest
      obtain ⟨hPort, hMac⟩ := hTest
      obtain rfl := hSep.veth_inj hc hc' hPort
      exact ⟨hMac, rfl⟩
    · simp [Flow.test, Field.test, hSep.veth_ne_patch hc hc'] at hTest
  split_ifs with hMac
  · have hMatch : (⟨0, 32768, [.inPort c.vethPort, .dlSrc (macOf (address c))],
        [.loadReg0 c.patchPort, .resubmit 1]⟩ : Flow) ∈ matching flows c.vethPort pkt 0 := by
      refine mem_matching.mpr ⟨(hFlows _).mpr (.container c hc .fromVeth), rfl, ?_⟩
      simp [Flow.test, Field.test, hMac]
    rw [process_of_matching hMatch (fun other hOther _ => (hInv other hOther).2)]
    rfl
  · refine process_of_no_match (fun f hf hTable => ?_)
    by_contra hTest
    exact hMac (hInv f (mem_matching.mpr ⟨hf, hTable, by simpa using hTest⟩)).1

include hFlows in
/-- A packet from the bridge enters table 2. -/
theorem process_local (hSep : Separate cs) :
    process choice flows localPort pkt (depth + 1) 0 reg0 =
      process choice flows localPort pkt depth 2 reg0 := by
  have hMatch : (⟨0, 1000, [.inPort localPort], [.resubmit 2]⟩ : Flow) ∈
      matching flows localPort pkt 0 := by
    refine mem_matching.mpr ⟨(hFlows _).mpr (.static (by decide)), rfl, ?_⟩
    simp [Flow.test, Field.test]
  rw [process_of_matching hMatch]
  · rfl
  · intro other hOther _
    obtain ⟨hMem, hTable, hTest⟩ := mem_matching.mp hOther
    rcases ((hFlows other).mp hMem).table_zero hTable with rfl | ⟨c, hc, rfl | rfl⟩
    · rfl
    · simp [Flow.test, Field.test, (hSep.veth_ne_local hc).symm] at hTest
    · simp [Flow.test, Field.test, (hSep.patch_ne_local hc).symm] at hTest

include hMacs hFlows in
/-- What reaches LOCAL from the port of a container. -/
theorem outputs_veth (hSep : Separate cs) (hc : c ∈ cs) (hIP : pkt.isIP = true)
    (hDst : pkt.nw? .dst ≠ some gatewayIP) :
    localPort ∈ outputs choice flows c.vethPort pkt ↔
      pkt.dlDst = macOf gatewayIP ∧ Sends c (address c) pkt := by
  rw [outputs, process_veth hFlows hSep hc]
  split_ifs with hMac
  · rw [process_one hFlows hIP]
    split_ifs with hGateway
    · rw [process_three hFlows hIP hDst]
      constructor
      · rintro ⟨-, c', hc', h'⟩
        obtain rfl := hSep.mac_inj hMacs hc hc' (hMac.symm.trans h'.1)
        exact ⟨hGateway, h'⟩
      · exact fun h => ⟨hSep.veth_ne_local hc, c, hc, h.2⟩
    · have hPatch : localPort ∉ emit c.vethPort c.patchPort := by
        rw [emit, if_neg (hSep.veth_ne_patch hc hc).symm, List.mem_singleton]
        exact (hSep.patch_ne_local hc).symm
      simp [hPatch, hGateway]
  · simp only [List.not_mem_nil, false_iff]
    exact fun h => hMac h.2.1

include hMacs hFlows in
/-- What reaches the containers from LOCAL. -/
theorem outputs_local (hSep : Separate cs) (hIP : pkt.isIP = true)
    (hUnicast : pkt.dlDst ≠ MAC.broadcast) (hSrc : pkt.nw? .src ≠ some gatewayIP) (port : Nat) :
    port ∈ outputs choice flows localPort pkt ↔
      ∃ c ∈ cs, c.vethPort = port ∧ Receives c (address c) pkt := by
  rw [outputs, process_local hFlows hSep, process_two hMacs hFlows hSep hIP hUnicast hSrc]
  constructor
  · exact fun h => h.2
  · rintro ⟨c, hc, rfl, h⟩
    exact ⟨hSep.veth_ne_local hc, c, hc, rfl, h⟩

end Processing

section Main

/-- A TCP or UDP packet that the container may send to the public internet:
a request to a public port, or the response to a request from there. -/
def MayLeave (conns : List DB.Connection) (dbc : DB.Container) (pkt : Packet) : Prop :=
  ipStrToMac dbc.ip = .ok pkt.dlSrc.text ∧ pkt.dlDst.text = gatewayMac ∧
    (∃ a, pkt.nw? .src = some a ∧ a.text = dbc.ip) ∧ pkt.proto?.isSome ∧
      ∃ p : Nat, (pkt.tp? .dst = some p ∧ ToPublic conns dbc.hostname p) ∨
        (pkt.tp? .src = some p ∧ FromPublic conns dbc.hostname p)

/-- A TCP or UDP packet that the container may get from the public internet:
the response to a request of the container, or a request to one of its ports. -/
def MayEnter (conns : List DB.Connection) (dbc : DB.Container) (pkt : Packet) : Prop :=
  ipStrToMac dbc.ip = .ok pkt.dlDst.text ∧
    (∃ a, pkt.nw? .dst = some a ∧ a.text = dbc.ip) ∧ pkt.proto?.isSome ∧
      ∃ p : Nat, (pkt.tp? .src = some p ∧ ToPublic conns dbc.hostname p) ∨
        (pkt.tp? .dst = some p ∧ FromPublic conns dbc.hostname p)

variable {conns : List DB.Connection} {dbc : DB.Container} {a : IPv4} {veth patch : Nat}
  {pkt : Packet}

theorem ipStrToMac_eq_iff (ha : dbc.ip = a.text) {mac : MAC} :
    ipStrToMac dbc.ip = .ok mac.text ↔ mac = macOf a := by
  rw [ha, ipStrToMac_text, Except.ok.injEq, MAC.text_inj, eq_comm]

theorem exists_address_iff (ha : dbc.ip = a.text) {side : Side} :
    (∃ b, pkt.nw? side = some b ∧ b.text = dbc.ip) ↔ pkt.nw? side = some a := by
  simp only [ha, IPv4.text_inj, exists_eq_right]

theorem addressOf_resolved (ha : dbc.ip = a.text) :
    addressOf (resolvedOf conns dbc veth patch).ip = a := by
  change addressOf dbc.ip = a
  rw [ha, addressOf_text]

theorem mayLeave_iff (ha : dbc.ip = a.text) :
    MayLeave conns dbc pkt ↔
      pkt.dlDst = macOf gatewayIP ∧ Sends (resolvedOf conns dbc veth patch) a pkt := by
  rw [MayLeave, Sends, ipStrToMac_eq_iff ha, exists_address_iff ha, gatewayMac, MAC.text_inj]
  constructor
  · rintro ⟨hMac, hGateway, hSrc, -, p, ⟨hp, hTo⟩ | ⟨hp, hFrom⟩⟩
    · exact ⟨hGateway, hMac, hSrc, .dst, p, hp, mem_toPub.mpr hTo⟩
    · exact ⟨hGateway, hMac, hSrc, .src, p, hp, mem_fromPub.mpr hFrom⟩
  · rintro ⟨hGateway, hMac, hSrc, side, p, hp, hPort⟩
    have hProto := Option.isSome_iff_exists.mpr (exists_proto hp)
    cases side with
    | src => exact ⟨hMac, hGateway, hSrc, hProto, p, Or.inr ⟨hp, mem_fromPub.mp hPort⟩⟩
    | dst => exact ⟨hMac, hGateway, hSrc, hProto, p, Or.inl ⟨hp, mem_toPub.mp hPort⟩⟩

theorem mayEnter_iff (ha : dbc.ip = a.text) :
    MayEnter conns dbc pkt ↔ Receives (resolvedOf conns dbc veth patch) a pkt := by
  rw [MayEnter, Receives, ipStrToMac_eq_iff ha, exists_address_iff ha]
  constructor
  · rintro ⟨hMac, hDst, -, p, ⟨hp, hTo⟩ | ⟨hp, hFrom⟩⟩
    · exact ⟨hMac, hDst, .src, p, hp, mem_toPub.mpr hTo⟩
    · exact ⟨hMac, hDst, .dst, p, hp, mem_fromPub.mpr hFrom⟩
  · rintro ⟨hMac, hDst, side, p, hp, hPort⟩
    have hProto := Option.isSome_iff_exists.mpr (exists_proto hp)
    cases side with
    | src => exact ⟨hMac, hDst, hProto, p, Or.inl ⟨hp, mem_toPub.mp hPort⟩⟩
    | dst => exact ⟨hMac, hDst, hProto, p, Or.inr ⟨hp, mem_fromPub.mp hPort⟩⟩

/-- Public traffic is isolated: the flows let exactly those packets pass between
a container and the gateway that its connections allow. -/
theorem public_traffic_isolated (ords : Nat → MapOrder) (portMap : String → Option Nat)
    (conns : List DB.Connection) {dbcs : List DB.Container} (hIPs : IPv4Texts dbcs) :
    ∃ ofcs, openflowContainers dbcs conns = .ok ofcs ∧
      (Separate (resolveContainers portMap ofcs) →
        ∃ flows, (allFlows ords (resolveContainers portMap ofcs)).mapM OpenFlow.parse = some flows ∧
          ∀ (choice : Priority.Choice Flow) (pkt : Packet), pkt.isIP = true →
            pkt.dlDst ≠ MAC.broadcast →
            (pkt.nw? .dst ≠ some gatewayIP → ∀ dbc ∈ dbcs, ∀ veth patch,
              HasPorts portMap dbc veth patch →
                (localPort ∈ outputs choice flows veth pkt ↔ MayLeave conns dbc pkt)) ∧
            (pkt.nw? .src ≠ some gatewayIP → ∀ port,
              port ∈ outputs choice flows localPort pkt ↔
                ∃ dbc ∈ dbcs, ∃ patch, HasPorts portMap dbc port patch ∧
                  MayEnter conns dbc pkt)) := by
  refine ⟨_, openflowContainers_eq conns hIPs, fun hSep => ?_⟩
  have hAddresses : ∀ c ∈ resolveContainers portMap
      (dbcs.map (fun dbc => containerOf conns dbc (macOf (addressOf dbc.ip)).text)),
      c.mac = (macOf (addressOf c.ip)).text ∧ c.ip = (addressOf c.ip).text := by
    intro c hc
    obtain ⟨dbc, hdbc, veth, patch, -, rfl⟩ := (mem_resolved conns).mp hc
    obtain ⟨a, ha⟩ := hIPs dbc hdbc
    refine ⟨rfl, ?_⟩
    show dbc.ip = (addressOf dbc.ip).text
    rw [ha, addressOf_text]
  have hMacs := fun c hc => (hAddresses c hc).1
  obtain ⟨flows, hParse, hFlows⟩ := exists_flows ords (fun c => addressOf c.ip) hAddresses
  refine ⟨flows, hParse, fun choice pkt hIP hUnicast => ⟨?_, ?_⟩⟩
  · intro hDst dbc hdbc veth patch hPorts
    obtain ⟨a, ha⟩ := hIPs dbc hdbc
    have hc := (mem_resolved conns).mpr ⟨dbc, hdbc, veth, patch, hPorts, rfl⟩
    have hOutputs : localPort ∈ outputs choice flows veth pkt ↔ _ :=
      outputs_veth hMacs hFlows hSep hc hIP hDst
    rwa [addressOf_resolved ha, ← mayLeave_iff ha] at hOutputs
  · intro hSrc port
    rw [outputs_local hMacs hFlows hSep hIP hUnicast hSrc]
    constructor
    · rintro ⟨c, hc, rfl, hReceives⟩
      obtain ⟨dbc, hdbc, veth, patch, hPorts, rfl⟩ := (mem_resolved conns).mp hc
      obtain ⟨a, ha⟩ := hIPs dbc hdbc
      rw [addressOf_resolved ha, ← mayEnter_iff ha] at hReceives
      exact ⟨dbc, hdbc, patch, hPorts, hReceives⟩
    · rintro ⟨dbc, hdbc, patch, hPorts, hEnter⟩
      obtain ⟨a, ha⟩ := hIPs dbc hdbc
      refine ⟨_, (mem_resolved conns).mpr ⟨dbc, hdbc, port, patch, hPorts, rfl⟩, rfl, ?_⟩
      rw [addressOf_resolved ha, ← mayEnter_iff ha]
      exact hEnter

/-- A web server that is open on port 80 and may use port 443, and a database
without public ports. -/
def sampleContainers : List DB.Container :=
  [{ id := 1, ip := "10.1.0.2", hostname := "web" }, { id := 2, ip := "10.1.0.3", hostname := "db" }]

def samplePublicConns : List DB.Connection :=
  [{ id := 3, fromHosts := ["public"], toHosts := ["web"], minPort := 80, maxPort := 80 },
    { id := 4, fromHosts := ["web"], toHosts := ["public", "db"], minPort := 443, maxPort := 443 }]

def samplePorts : String → Option Nat
  | "10.1.0.2" => some 3
  | "q_10.1.0.2" => some 4
  | "10.1.0.3" => some 5
  | "q_10.1.0.3" => some 6
  | _ => none

/-- A request on port 80 reaches the web server, a request of the web server on
port 443 leaves it, and the same request of the database does not. -/
theorem public_traffic_isolated_sample :
    ∃ ofcs flows, openflowContainers sampleContainers samplePublicConns = .ok ofcs ∧
      (allFlows (fun _ => MapOrder.stored) (resolveContainers samplePorts ofcs)).mapM
        OpenFlow.parse = some flows ∧
      3 ∈ outputs .first flows localPort ⟨macOf gatewayIP, macOf ⟨10, 1, 0, 2⟩,
        .ip4 ⟨8, 8, 8, 8⟩ ⟨10, 1, 0, 2⟩ (.ports .tcp 40000 80)⟩ ∧
      localPort ∈ outputs .first flows 3 ⟨macOf ⟨10, 1, 0, 2⟩, macOf gatewayIP,
        .ip4 ⟨10, 1, 0, 2⟩ ⟨8, 8, 8, 8⟩ (.ports .tcp 40000 443)⟩ ∧
      localPort ∉ outputs .first flows 5 ⟨macOf ⟨10, 1, 0, 3⟩, macOf gatewayIP,
        .ip4 ⟨10, 1, 0, 3⟩ ⟨8, 8, 8, 8⟩ (.ports .tcp 40000 443)⟩ := by
  have hIPs : IPv4Texts sampleContainers := by
    intro dbc hdbc
    simp only [sampleContainers, List.mem_cons, List.not_mem_nil, or_false] at hdbc
    rcases hdbc with rfl | rfl
    · exact ⟨⟨10, 1, 0, 2⟩, by decide⟩
    · exact ⟨⟨10, 1, 0, 3⟩, by decide⟩
  obtain ⟨ofcs, hOfcs, hMain⟩ :=
    public_traffic_isolated (fun _ => MapOrder.stored) samplePorts samplePublicConns hIPs
  have hSep : Separate (resolveContainers samplePorts ofcs) := by
    rw [openflowContainers_eq _ hIPs] at hOfcs
    obtain rfl := Except.ok.inj hOfcs
    exact ⟨by decide +kernel, by decide +kernel, by decide +kernel, by decide +kernel⟩
  obtain ⟨flows, hParse, hPass⟩ := hMain hSep
  refine ⟨ofcs, flows, hOfcs, hParse, ?_, ?_, ?_⟩
  · refine ((hPass .first _ rfl (by decide)).2 (by decide) 3).mpr
      ⟨_, List.mem_cons_self .., 4, ⟨by decide, by decide⟩, by decide +kernel, ⟨_, rfl, by decide⟩,
        rfl, 80, Or.inr ⟨rfl, ?_⟩⟩
    exact ⟨_, List.mem_cons_self .., by decide, by decide, rfl, rfl⟩
  · refine ((hPass .first _ rfl (by decide)).1 (by decide) _ (List.mem_cons_self ..) 3 4
      ⟨by decide, by decide⟩).mpr ⟨by decide +kernel, by decide, ⟨_, rfl, by decide⟩, rfl, 443,
        Or.inl ⟨rfl, ?_⟩⟩
    exact ⟨_, List.mem_cons_of_mem _ (List.mem_cons_self ..), by decide, by decide, rfl, rfl⟩
  · rw [(hPass .first _ rfl (by decide)).1 (by decide) _
      (List.mem_cons_of_mem _ (List.mem_cons_self ..)) 5 6 ⟨by decide, by decide⟩]
    rintro ⟨-, -, -, -, p, ⟨-, conn, hconn, hHost, -⟩ | ⟨-, conn, hconn, hPublic, hHost, -⟩⟩
    · revert conn
      decide
    · revert conn
      decide

end Main

end Kelda.Network.Openflow
