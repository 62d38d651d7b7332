import Kelda.Lib.Text
import Kelda.Network.Openflow
import Kelda.Util.Str

/-! The iptables rules of a worker, as the texts that are given to `iptables`.
The one chain forwards packets from the public internet to containers, the
other one hides containers that speak to it. -/
namespace Kelda.Network.NAT

open DB
open Openflow (PortSet)

section Rules

/-- The ports of each hostname. -/
abbrev HostPorts := AList (fun _ : String => PortSet)

/-- Add a port to the set of a hostname, which is made if there is none. -/
def openPort (port : Int) (ports : HostPorts) (host : String) : HostPorts :=
  ports.insert host (((ports.lookup host).getD ∅).insert port ())

/-- All ports on which a hostname can receive packets from the public internet. -/
def portsFromWeb (connections : List Connection) : HostPorts :=
  connections.foldl (fun ports conn =>
    if Str.sliceContains conn.fromHosts Blueprint.publicInternetLabel then
      conn.toHosts.foldl (openPort conn.minPort) ports
    else ports) ∅

/-- The ports on which a hostname is allowed to send packets. -/
def portsToWeb (connections : List Connection) : HostPorts :=
  connections.foldl (fun ports conn =>
    -- the source has a loop over To here, in which a target that is not public
    -- continues with the next target; no connection is skipped by it
    conn.fromHosts.foldl (openPort conn.minPort) ports) ∅

def protocols : List String := ["tcp", "udp"]

/-- Map the container's port to the same port of the host. -/
def dnatRule (publicInterface protocol : String) (port : Int) (ip : String) : String :=
  "-i " ++ publicInterface ++ " -p " ++ protocol ++ " -m " ++ protocol ++ " --dport " ++
    port.repr ++ " -j DNAT --to-destination " ++ ip ++ ":" ++ port.repr

def masqueradeRule (publicInterface protocol : String) (port : Int) (ip : String) : String :=
  "-s " ++ ip ++ "/32 -p " ++ protocol ++ " -m " ++ protocol ++ " --dport " ++ port.repr ++
    " -o " ++ publicInterface ++ " -j MASQUERADE"

/-- One rule for each container, port and protocol. The set of the ports of a
container is walked in some order. -/
def containerRules (rule : String → Int → String → String) (ords : Nat → MapOrder)
    (containers : List Container) (ports : HostPorts) : List String :=
  containers.zipIdx.flatMap (fun (dbc, i) =>
    ((ords i).walk ((ports.lookup dbc.hostname).getD ∅).keys).flatMap (fun port =>
      protocols.map (fun protocol => rule protocol port dbc.ip)))

def preroutingRules (ords : Nat → MapOrder) (publicInterface : String)
    (containers : List Container) (connections : List Connection) : List String :=
  containerRules (dnatRule publicInterface) ords containers (portsFromWeb connections)

def postroutingRules (ords : Nat → MapOrder) (publicInterface : String)
    (containers : List Container) (connections : List Connection) : List String :=
  containerRules (masqueradeRule publicInterface) ords containers (portsToWeb connections)

end Rules

section Ports

/-- A port of a hostname. -/
def HostPorts.Open (ports : HostPorts) (host : String) (port : Int) : Prop :=
  port ∈ (ports.lookup host).getD ∅

theorem open_openPort {port port' : Int} {ports : HostPorts} {host host' : String} :
    (openPort port ports host).Open host' port' ↔
      ports.Open host' port' ∨ (host' = host ∧ port = port') := by
  by_cases hHost : host' = host
  · subst hHost
    simp only [HostPorts.Open, openPort, AList.lookup_insert, Option.getD_some, AList.mem_insert]
    tauto
  · simp only [HostPorts.Open, openPort, AList.lookup_insert_ne hHost]
    tauto

theorem open_openPorts {port port' : Int} {ports : HostPorts} {hosts : List String}
    {host' : String} :
    (hosts.foldl (openPort port) ports).Open host' port' ↔
      ports.Open host' port' ∨ (host' ∈ hosts ∧ port = port') := by
  have hFold := List.foldl_iff (P := fun ports : HostPorts => ports.Open host' port')
    (Q := fun host => host' = host ∧ port = port') (fun _ _ => open_openPort) hosts ports
  rw [hFold]
  apply or_congr_right
  constructor
  · rintro ⟨_, hMem, rfl, hPort⟩
    exact ⟨hMem, hPort⟩
  · rintro ⟨hMem, hPort⟩
    exact ⟨host', hMem, rfl, hPort⟩

theorem not_open_empty {host : String} {port : Int} : ¬(∅ : HostPorts).Open host port := by
  simp [HostPorts.Open]

theorem open_portsFromWeb {connections : List Connection} {host : String} {port : Int} :
    (portsFromWeb connections).Open host port ↔
      ∃ conn ∈ connections, Blueprint.publicInternetLabel ∈ conn.fromHosts ∧
        host ∈ conn.toHosts ∧ conn.minPort = port := by
  rw [portsFromWeb, List.foldl_iff (P := fun ports : HostPorts => ports.Open host port)
    (Q := fun conn : Connection => Blueprint.publicInternetLabel ∈ conn.fromHosts ∧
      host ∈ conn.toHosts ∧ conn.minPort = port)]
  · rw [or_iff_right not_open_empty]
  · intro ports conn
    rw [← Str.sliceContains_iff]
    split_ifs with hPublic
    · rw [open_openPorts]
      tauto
    · tauto

theorem open_portsToWeb {connections : List Connection} {host : String} {port : Int} :
    (portsToWeb connections).Open host port ↔
      ∃ conn ∈ connections, host ∈ conn.fromHosts ∧ conn.minPort = port := by
  rw [portsToWeb, List.foldl_iff (P := fun ports : HostPorts => ports.Open host port)
    (Q := fun conn : Connection => host ∈ conn.fromHosts ∧ conn.minPort = port)
    (fun _ _ => open_openPorts), or_iff_right not_open_empty]

end Ports

section Texts

theorem space_notMem_protocol : ∀ protocol ∈ protocols, ' ' ∉ protocol.toList := by
  simp [protocols]

theorem slash_notMem_protocol : ∀ protocol ∈ protocols, '/' ∉ protocol.toList := by
  simp [protocols]

theorem notMem_port {c : Char} {port : Int} (hDigit : c.isDigit = false) (hSign : c ≠ '-') :
    c ∉ port.repr.toList := by
  intro hMem
  rcases Text.isDigit_of_mem_int_repr hMem with h | h
  · rw [h] at hDigit
    cases hDigit
  · exact hSign h

/-- The part of a rule that both chains share. -/
def portMatch (protocol : String) (port : Int) : String :=
  protocol ++ (" " ++ ("-m " ++ protocol ++ " --dport " ++ port.repr))

/-- The protocol and the port can be read back, whatever follows. -/
theorem portMatch_inj {protocol protocol' rest rest' : String} {port port' : Int}
    (hProtocol : protocol ∈ protocols) (hProtocol' : protocol' ∈ protocols)
    (h : portMatch protocol port ++ (" " ++ rest) = portMatch protocol' port' ++ (" " ++ rest')) :
    protocol = protocol' ∧ port = port' ∧ rest = rest' := by
  simp only [portMatch, String.append_assoc] at h
  obtain ⟨rfl, hTail⟩ := Text.string_append_sep_inj (c := ' ')
    (space_notMem_protocol protocol hProtocol) (space_notMem_protocol protocol' hProtocol') h
  simp only [String.append_right_inj] at hTail
  obtain ⟨hPort, hRest⟩ := Text.string_append_sep_inj (c := ' ') (notMem_port rfl (by decide))
    (notMem_port rfl (by decide)) hTail
  exact ⟨rfl, Int.repr_inj.mp hPort, hRest⟩

theorem dnatRule_eq (publicInterface protocol : String) (port : Int) (ip : String) :
    dnatRule publicInterface protocol port ip =
      "-i " ++ publicInterface ++ " -p " ++ (portMatch protocol port ++
        (" " ++ ("-j DNAT --to-destination " ++ (ip ++ (":" ++ port.repr))))) := by
  have hMatch : " -m " = " " ++ "-m " := rfl
  have hJump : " -j DNAT --to-destination " = " " ++ "-j DNAT --to-destination " := rfl
  delta dnatRule portMatch
  rw [hMatch, hJump]
  simp only [String.append_assoc, -String.reduceAppend]

theorem masqueradeRule_eq (publicInterface protocol : String) (port : Int) (ip : String) :
    masqueradeRule publicInterface protocol port ip =
      "-s " ++ ((ip ++ ("/" ++ ("32 -p " ++ portMatch protocol port))) ++
        (" -o " ++ publicInterface ++ " -j MASQUERADE")) := by
  have hMask : "/32 -p " = "/" ++ "32 -p " := rfl
  have hMatch : " -m " = " " ++ "-m " := rfl
  delta masqueradeRule portMatch
  rw [hMask, hMatch]
  simp only [String.append_assoc, -String.reduceAppend]

/-- The rules of one interface are told apart by what they are made for. -/
def Distinguishes (rule : String → Int → String → String) : Prop :=
  ∀ protocol ∈ protocols, ∀ protocol' ∈ protocols, ∀ port port' ip ip',
    rule protocol port ip = rule protocol' port' ip' →
      protocol = protocol' ∧ port = port' ∧ ip = ip'

theorem dnatRule_distinguishes (publicInterface : String) :
    Distinguishes (dnatRule publicInterface) := by
  intro protocol hProtocol protocol' hProtocol' port port' ip ip' h
  rw [dnatRule_eq, dnatRule_eq, String.append_right_inj] at h
  obtain ⟨hSame, rfl, hRest⟩ := portMatch_inj hProtocol hProtocol' h
  rw [String.append_right_inj, String.append_left_inj] at hRest
  exact ⟨hSame, rfl, hRest⟩

theorem masqueradeRule_distinguishes (publicInterface : String) :
    Distinguishes (masqueradeRule publicInterface) := by
  intro protocol hProtocol protocol' hProtocol' port port' ip ip' h
  rw [masqueradeRule_eq, masqueradeRule_eq, String.append_right_inj, String.append_left_inj] at h
  -- the address may hold any text, so the last slash is the one to look for
  have hSlash : ∀ protocol ∈ protocols, ∀ port : Int,
      '/' ∉ ("32 -p " ++ portMatch protocol port).toList := by
    intro protocol hProtocol port hMem
    have hText := slash_notMem_protocol protocol hProtocol
    have hPort : '/' ∉ port.repr.toList := notMem_port rfl (by decide)
    simp [portMatch, hText, hPort] at hMem
  obtain ⟨rfl, hTail⟩ := Text.string_append_last_inj (c := '/') (hSlash protocol hProtocol port)
    (hSlash protocol' hProtocol' port') h
  rw [String.append_right_inj] at hTail
  have hText : portMatch protocol port ++ (" " ++ "") = portMatch protocol' port' ++ (" " ++ "") := by
    rw [hTail]
  obtain ⟨hSame, hPort, -⟩ := portMatch_inj hProtocol hProtocol' hText
  exact ⟨hSame, hPort, rfl⟩

end Texts

section Counts

variable {rule : String → Int → String → String} {ords : Nat → MapOrder}
  {containers : List Container} {ports : HostPorts}

theorem mem_containerRules {text : String} :
    text ∈ containerRules rule ords containers ports ↔
      ∃ dbc ∈ containers, ∃ port, ports.Open dbc.hostname port ∧
        ∃ protocol ∈ protocols, rule protocol port dbc.ip = text := by
  simp only [containerRules, List.mem_flatMap, MapOrder.mem_walk, List.mem_map, Prod.exists]
  constructor
  · rintro ⟨dbc, i, hMem, port, hPort, hRule⟩
    exact ⟨dbc, List.fst_mem_of_mem_zipIdx hMem, port, hPort, hRule⟩
  · rintro ⟨dbc, hMem, port, hPort, hRule⟩
    obtain ⟨i, hi⟩ := List.mem_iff_getElem?.mp hMem
    exact ⟨dbc, i, List.mk_mem_zipIdx_iff_getElem?.mpr hi, port, hPort, hRule⟩

/-- No rule is emitted twice when the containers have different addresses. -/
theorem nodup_containerRules (hRule : Distinguishes rule)
    (hIPs : (containers.map (fun dbc => dbc.ip)).Nodup) :
    (containerRules rule ords containers ports).Nodup := by
  rw [containerRules, List.nodup_flatMap]
  constructor
  · rintro ⟨dbc, i⟩ -
    rw [List.nodup_flatMap]
    constructor
    · intro port _
      apply List.Nodup.map_on _ (by simp [protocols])
      intro protocol hProtocol protocol' hProtocol' hEq
      exact (hRule protocol hProtocol protocol' hProtocol' _ _ _ _ hEq).1
    · have hPorts : ((ords i).walk ((ports.lookup dbc.hostname).getD ∅).keys).Nodup :=
        ((ords i).perm _).nodup_iff.mpr (AList.keys_nodup _)
      apply hPorts.imp
      intro port port' hNe text hText hText'
      obtain ⟨protocol, hProtocol, rfl⟩ := List.mem_map.mp hText
      obtain ⟨protocol', hProtocol', hEq⟩ := List.mem_map.mp hText'
      exact hNe (hRule protocol' hProtocol' protocol hProtocol _ _ _ _ hEq).2.1.symm
  · have hDistinct : containers.zipIdx.Pairwise (fun p p' => p.1.ip ≠ p'.1.ip) := by
      rw [← List.zipIdx_map_fst 0 containers, List.map_map] at hIPs
      exact List.pairwise_map.mp hIPs
    apply hDistinct.imp
    rintro ⟨dbc, i⟩ ⟨dbc', i'⟩ hNe text hText hText'
    obtain ⟨port, -, hPort⟩ := List.mem_flatMap.mp hText
    obtain ⟨port', -, hPort'⟩ := List.mem_flatMap.mp hText'
    obtain ⟨protocol, hProtocol, rfl⟩ := List.mem_map.mp hPort
    obtain ⟨protocol', hProtocol', hEq⟩ := List.mem_map.mp hPort'
    exact hNe (hRule protocol' hProtocol' protocol hProtocol _ _ _ _ hEq).2.2.symm

/-- A container gets the rule of an open port once, and no other rule. -/
theorem count_containerRules [∀ host port, Decidable (ports.Open host port)]
    (hRule : Distinguishes rule) (hIPs : (containers.map (fun dbc => dbc.ip)).Nodup)
    {dbc : Container} (hMem : dbc ∈ containers) (port : Int) {protocol : String}
    (hProtocol : protocol ∈ protocols) :
    (containerRules rule ords containers ports).count (rule protocol port dbc.ip) =
      if ports.Open dbc.hostname port then 1 else 0 := by
  have hNodup : (containerRules rule ords containers ports).Nodup :=
    nodup_containerRules hRule hIPs
  split_ifs with hOpen
  · apply List.count_eq_one_of_mem hNodup
    exact mem_containerRules.mpr ⟨dbc, hMem, port, hOpen, protocol, hProtocol, rfl⟩
  · apply List.count_eq_zero.mpr
    intro hText
    obtain ⟨dbc', hMem', port', hOpen', protocol', hProtocol', hEq⟩ := mem_containerRules.mp hText
    obtain ⟨-, rfl, hIP⟩ := hRule protocol' hProtocol' protocol hProtocol _ _ _ _ hEq
    obtain rfl := List.inj_on_of_nodup_map hIPs hMem' hMem hIP
    exact hOpen hOpen'

end Counts

section Policy

variable (ords : Nat → MapOrder) (publicInterface : String) {containers : List Container}
  (connections : List Connection)

/-- The policy lets the public internet speak to a hostname on a port. -/
def MayReceive (host : String) (port : Int) : Prop :=
  ∃ conn ∈ connections, Blueprint.publicInternetLabel ∈ conn.fromHosts ∧
    host ∈ conn.toHosts ∧ conn.minPort = port

/-- The policy lets a hostname speak to the public internet on a port. -/
def MaySend (host : String) (port : Int) : Prop :=
  ∃ conn ∈ connections, host ∈ conn.fromHosts ∧
    Blueprint.publicInternetLabel ∈ conn.toHosts ∧ conn.minPort = port

instance (host : String) (port : Int) : Decidable (MayReceive connections host port) :=
  inferInstanceAs (Decidable (∃ conn ∈ connections, _))

instance (host : String) (port : Int) : Decidable (MaySend connections host port) :=
  inferInstanceAs (Decidable (∃ conn ∈ connections, _))

instance (ports : HostPorts) (host : String) (port : Int) : Decidable (ports.Open host port) :=
  inferInstanceAs (Decidable (port ∈ (ports.lookup host).getD ∅))

/-- Each container has the rules for the given ports, both protocols exactly
once, and none for another port. -/
def Follows (rule : String → Int → String → String) (allowed : String → Int → Prop)
    [∀ host port, Decidable (allowed host port)] (containers : List Container)
    (rules : List String) : Prop :=
  ∀ dbc ∈ containers, ∀ port, ∀ protocol ∈ protocols,
    rules.count (rule protocol port dbc.ip) = if allowed dbc.hostname port then 1 else 0

/-- The forwarding rules are those of the policy. -/
theorem preroutingRules_follow (hIPs : (containers.map (fun dbc => dbc.ip)).Nodup) :
    Follows (dnatRule publicInterface) (MayReceive connections) containers
      (preroutingRules ords publicInterface containers connections) := by
  intro dbc hMem port protocol hProtocol
  rw [preroutingRules, count_containerRules (dnatRule_distinguishes publicInterface) hIPs hMem
    port hProtocol]
  exact if_congr open_portsFromWeb rfl rfl

/-- A hostname that may speak to anyone on a port gets the rules of that port.
So they are those of the policy precisely when every container may also speak
to the public internet on each port of its connections. -/
theorem postroutingRules_follow_iff (hIPs : (containers.map (fun dbc => dbc.ip)).Nodup) :
    Follows (masqueradeRule publicInterface) (MaySend connections) containers
        (postroutingRules ords publicInterface containers connections) ↔
      ∀ dbc ∈ containers, ∀ conn ∈ connections, dbc.hostname ∈ conn.fromHosts →
        MaySend connections dbc.hostname conn.minPort := by
  have hCount : ∀ dbc ∈ containers, ∀ port, ∀ protocol ∈ protocols,
      (postroutingRules ords publicInterface containers connections).count
          (masqueradeRule publicInterface protocol port dbc.ip) =
        if (portsToWeb connections).Open dbc.hostname port then 1 else 0 :=
    fun dbc hMem port protocol hProtocol =>
      count_containerRules (masqueradeRule_distinguishes publicInterface) hIPs hMem port hProtocol
  constructor
  · intro hFollows dbc hMem conn hConn hFrom
    have hOpen : (portsToWeb connections).Open dbc.hostname conn.minPort :=
      open_portsToWeb.mpr ⟨conn, hConn, hFrom, rfl⟩
    have hRules := hFollows dbc hMem conn.minPort "tcp" (by simp [protocols])
    rw [hCount dbc hMem _ "tcp" (by simp [protocols]), if_pos hOpen] at hRules
    by_contra hNot
    rw [if_neg hNot] at hRules
    cases hRules
  · intro hAllowed dbc hMem port protocol hProtocol
    rw [hCount dbc hMem port protocol hProtocol]
    apply if_congr _ rfl rfl
    rw [open_portsToWeb]
    constructor
    · rintro ⟨conn, hConn, hFrom, rfl⟩
      exact hAllowed dbc hMem conn hConn hFrom
    · rintro ⟨conn, hConn, hFrom, -, hPort⟩
      exact ⟨conn, hConn, hFrom, hPort⟩

/-- Two containers. -/
def sampleContainers : List Container :=
  [{ id := 1, hostname := "red", ip := "10.0.0.2" },
    { id := 2, hostname := "blue", ip := "10.0.0.3" }]

/-- The one may speak to the public internet. -/
theorem postroutingRules_follow_public :
    (sampleContainers.map (fun dbc => dbc.ip)).Nodup ∧
      Follows (masqueradeRule "eth0")
        (MaySend [{ id := 3, fromHosts := ["red"], toHosts := ["blue", "public"], minPort := 80 }])
        sampleContainers (postroutingRules (fun _ => MapOrder.stored) "eth0" sampleContainers
          [{ id := 3, fromHosts := ["red"], toHosts := ["blue", "public"], minPort := 80 }]) := by
  have hIPs : (sampleContainers.map (fun dbc => dbc.ip)).Nodup := by simp [sampleContainers]
  refine ⟨hIPs, (postroutingRules_follow_iff (fun _ => MapOrder.stored) "eth0" _ hIPs).mpr ?_⟩
  decide +kernel

/-- The one may only speak to the other, and still its packets to the public
internet are masqueraded. -/
theorem postroutingRules_internal :
    (sampleContainers.map (fun dbc => dbc.hostname)).Nodup ∧
      (sampleContainers.map (fun dbc => dbc.ip)).Nodup ∧
      ¬Follows (masqueradeRule "eth0")
        (MaySend [{ id := 3, fromHosts := ["red"], toHosts := ["blue"], minPort := 80 }])
        sampleContainers (postroutingRules (fun _ => MapOrder.stored) "eth0" sampleContainers
          [{ id := 3, fromHosts := ["red"], toHosts := ["blue"], minPort := 80 }]) := by
  refine ⟨by simp [sampleContainers], by simp [sampleContainers], fun hFollows => ?_⟩
  have hRule := hFollows _ (List.mem_cons_self ..) 80 "tcp" (by simp [protocols])
  revert hRule
  decide +kernel

end Policy

end Kelda.Network.NAT
