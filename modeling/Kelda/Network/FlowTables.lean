import Kelda.Network.Openflow
import Kelda.OpenFlow.Reader

/-! The flow tables that Open vSwitch reads in the texts of the bridge. -/
namespace Kelda.Network.Openflow

open OpenFlow IPDef Net

/-- The flows that do not depend on the containers. -/
def staticTable : List Flow :=
  [⟨0, 1000, [.inPort localPort], [.resubmit 2]⟩,
    ⟨1, 1000, [.arp, .dlDst MAC.broadcast], [.output localPort, .outputReg0]⟩,
    ⟨1, 900, [.dlDst (macOf gatewayIP)], [.resubmit 3]⟩,
    ⟨1, 800, [], [.outputReg0]⟩,
    ⟨3, 1000, [.ip, .nw .dst gatewayIP], [.output localPort]⟩,
    ⟨3, 900, [.arp], [.output localPort]⟩]

theorem parse_staticFlows : staticFlows.map OpenFlow.parse = staticTable.map some := by
  decide +kernel

theorem mem_staticTable {f : Flow} :
    f ∈ staticTable ↔ ∃ text ∈ staticFlows, OpenFlow.parse text = some f := by
  rw [← List.mem_map, parse_staticFlows]
  simp

section Container

variable (c : ResolvedContainer)

/-- The public ports that an inbound packet may have at a side: a response has
the port as its source. -/
def ResolvedContainer.inPorts : Side → PortSet
  | .src => c.toPub
  | .dst => c.fromPub

/-- The public ports that an outbound packet may have at a side. -/
def ResolvedContainer.outPorts : Side → PortSet
  | .src => c.fromPub
  | .dst => c.toPub

/-- The flows of a container with its address. -/
inductive ContainerFlow (a : IPv4) : Flow → Prop where
  | fromVeth : ContainerFlow a
      ⟨0, 32768, [.inPort c.vethPort, .dlSrc (macOf a)], [.loadReg0 c.patchPort, .resubmit 1]⟩
  | fromPatch : ContainerFlow a ⟨0, 32768, [.inPort c.patchPort], [.output c.vethPort]⟩
  | arp : ContainerFlow a ⟨2, 900, [.arp, .dlDst (macOf a)], [.output c.vethPort]⟩
  | gateway : ContainerFlow a
      ⟨2, 800, [.ip, .dlDst (macOf a), .nw .src gatewayIP], [.output c.vethPort]⟩
  | inbound (proto : Proto) (side : Side) (port : Int) (h : port ∈ c.inPorts side) :
      ContainerFlow a ⟨2, 500, [.proto proto, .dlDst (macOf a), .nw .dst a, .tp side port],
        [.output c.vethPort]⟩
  | outbound (proto : Proto) (side : Side) (port : Int) (h : port ∈ c.outPorts side) :
      ContainerFlow a ⟨3, 500, [.proto proto, .dlSrc (macOf a), .nw .src a, .tp side port],
        [.output localPort]⟩

/-- The names of a protocol and of a side in the texts. -/
def protoText : Proto → String
  | .tcp => "tcp"
  | .udp => "udp"

def tpText : Side → String
  | .src => "tp_src"
  | .dst => "tp_dst"

theorem readFlag_protoText (proto : Proto) : readFlag (protoText proto) = some (.proto proto) := by
  cases proto <;> rfl

theorem mem_tpText (side : Side) :
    (tpText side, side) ∈ [("tp_src", Side.src), ("tp_dst", .dst)] := by
  cases side <;> decide

theorem parse_table2 (proto : Proto) (side : Side) (a : IPv4) (port : Int) (vethPort : Nat) :
    OpenFlow.parse (table2 (tpText side) (protoText proto) (macOf a).text a.text port vethPort) =
      some ⟨2, 500, [.proto proto, .dlDst (macOf a), .nw .dst a, .tp side port],
        [.output vethPort]⟩ := by
  have hDst : Reads ("ip_dst" ++ "=" ++ a.text) (Flow.addField (.nw .dst a)) :=
    Reads.nw a (by decide)
  refine (parse_words (Or.inl rfl)
    [.table 2 "2" (by decide), .priority 500 "500" (by decide),
      ⟨_, _, Reads.flag (readFlag_protoText proto)⟩, ⟨_, _, Reads.dlDst (macOf a)⟩, ⟨_, _, hDst⟩,
      ⟨_, _, Reads.tp port (mem_tpText side)⟩]
    [⟨_, _, ReadsAction.output vethPort⟩] ?_).trans rfl
  unfold table2
  apply String.toList_inj.mp
  simp [Word.table, Word.priority]

theorem parse_table3 (proto : Proto) (side : Side) (a : IPv4) (port : Int) :
    OpenFlow.parse (table3 (tpText side) (protoText proto) (macOf a).text a.text port) =
      some ⟨3, 500, [.proto proto, .dlSrc (macOf a), .nw .src a, .tp side port],
        [.output localPort]⟩ := by
  have hSrc : Reads ("ip_src" ++ "=" ++ a.text) (Flow.addField (.nw .src a)) :=
    Reads.nw a (by decide)
  refine (parse_words (Or.inl rfl)
    [.table 3 "3" (by decide), .priority 500 "500" (by decide),
      ⟨_, _, Reads.flag (readFlag_protoText proto)⟩, ⟨_, _, Reads.dlSrc (macOf a)⟩, ⟨_, _, hSrc⟩,
      ⟨_, _, Reads.tp port (mem_tpText side)⟩]
    [⟨_, _, ReadsAction.outputLocal⟩] ?_).trans rfl
  unfold table3
  apply String.toList_inj.mp
  simp [Word.table, Word.priority]

theorem parse_fromVeth (vethPort patchPort : Nat) (a : IPv4) :
    OpenFlow.parse ("table=0,in_port=" ++ vethPort.repr ++ ",dl_src=" ++ (macOf a).text ++
        ",actions=load:0x" ++ String.ofList (Nat.toDigits 16 patchPort) ++
          "->NXM_NX_REG0[],resubmit(,1)") =
      some ⟨0, 32768, [.inPort vethPort, .dlSrc (macOf a)],
        [.loadReg0 patchPort, .resubmit 1]⟩ := by
  refine (parse_words (Or.inl rfl)
    [.table 0 "0" (by decide), ⟨_, _, Reads.inPort vethPort⟩, ⟨_, _, Reads.dlSrc (macOf a)⟩]
    [⟨_, _, ReadsAction.loadReg0 patchPort⟩,
      ⟨_, _, ReadsAction.resubmit (show Nat.repr 1 = "1" by decide)⟩] ?_).trans rfl
  apply String.toList_inj.mp
  simp [Word.table]

theorem parse_fromPatch (patchPort vethPort : Nat) :
    OpenFlow.parse ("table=0,in_port=" ++ patchPort.repr ++ ",actions=output:" ++ vethPort.repr) =
      some ⟨0, 32768, [.inPort patchPort], [.output vethPort]⟩ := by
  refine (parse_words (Or.inl rfl) [.table 0 "0" (by decide), ⟨_, _, Reads.inPort patchPort⟩]
    [⟨_, _, ReadsAction.output vethPort⟩] ?_).trans rfl
  apply String.toList_inj.mp
  simp [Word.table]

theorem parse_arp (vethPort : Nat) (a : IPv4) :
    OpenFlow.parse ("table=2,priority=900,arp,dl_dst=" ++ (macOf a).text ++ ",action=output:" ++
        vethPort.repr) =
      some ⟨2, 900, [.arp, .dlDst (macOf a)], [.output vethPort]⟩ := by
  have hFlag : readFlag "arp" = some .arp := rfl
  refine (parse_words (Or.inr rfl)
    [.table 2 "2" (by decide), .priority 900 "900" (by decide), ⟨_, _, Reads.flag hFlag⟩,
      ⟨_, _, Reads.dlDst (macOf a)⟩]
    [⟨_, _, ReadsAction.output vethPort⟩] ?_).trans rfl
  apply String.toList_inj.mp
  simp [Word.table, Word.priority]

theorem parse_gateway (vethPort : Nat) (a : IPv4) :
    OpenFlow.parse ("table=2,priority=800,ip,dl_dst=" ++ (macOf a).text ++ ",nw_src=" ++
        gatewayIP.text ++ ",action=output:" ++ vethPort.repr) =
      some ⟨2, 800, [.ip, .dlDst (macOf a), .nw .src gatewayIP], [.output vethPort]⟩ := by
  have hFlag : readFlag "ip" = some .ip := rfl
  have hSrc : Reads ("nw_src" ++ "=" ++ gatewayIP.text) (Flow.addField (.nw .src gatewayIP)) :=
    Reads.nw gatewayIP (by decide)
  refine (parse_words (Or.inr rfl)
    [.table 2 "2" (by decide), .priority 800 "800" (by decide), ⟨_, _, Reads.flag hFlag⟩,
      ⟨_, _, Reads.dlDst (macOf a)⟩, ⟨_, _, hSrc⟩]
    [⟨_, _, ReadsAction.output vethPort⟩] ?_).trans rfl
  apply String.toList_inj.mp
  simp [Word.table, Word.priority]

/-- The flow of broadcasts from the gateway, to the ports of all containers. -/
theorem parse_broadcast (ports : List Nat) :
    OpenFlow.parse ("table=2,priority=1000,dl_dst=ff:ff:ff:ff:ff:ff,actions=" ++
        ",".intercalate (ports.map (fun port => "output:" ++ port.repr))) =
      some ⟨2, 1000, [.dlDst MAC.broadcast], ports.map .output⟩ := by
  have hMac : MAC.broadcast.text = "ff:ff:ff:ff:ff:ff" := by decide
  have hDst : Reads ("dl_dst" ++ "=" ++ "ff:ff:ff:ff:ff:ff") (Flow.addField (.dlDst .broadcast)) :=
    hMac ▸ Reads.dlDst MAC.broadcast
  refine (parse_words (Or.inl rfl)
    [.table 2 "2" (by decide), .priority 1000 "1000" (by decide), ⟨_, _, hDst⟩]
    (ports.map (fun port => ⟨_, _, ReadsAction.output port⟩)) ?_).trans ?_
  · apply String.toList_inj.mp
    simp [Word.table, Word.priority, Function.comp_def]
  · simp [Word.table, Word.priority, Flow.addField, Function.comp_def]

theorem mem_portFlows {tpIn tpOut text : String} {port : Int} :
    text ∈ portFlows c tpIn tpOut port ↔
      ∃ proto, text = table2 tpIn (protoText proto) c.mac c.ip port c.vethPort ∨
        text = table3 tpOut (protoText proto) c.mac c.ip port := by
  simp only [portFlows, List.mem_cons, List.not_mem_nil, or_false]
  constructor
  · rintro (h | h | h | h)
    · exact ⟨.tcp, Or.inl h⟩
    · exact ⟨.udp, Or.inl h⟩
    · exact ⟨.tcp, Or.inr h⟩
    · exact ⟨.udp, Or.inr h⟩
  · rintro ⟨_ | _, h | h⟩
    · exact Or.inl h
    · exact Or.inr (Or.inr (Or.inl h))
    · exact Or.inr (Or.inl h)
    · exact Or.inr (Or.inr (Or.inr h))

theorem mem_portSet {ports : PortSet} {port : Int} :
    port ∈ ports ↔ ∃ e ∈ ports.entries, e.1 = port := by
  rw [AList.mem_keys, AList.keys, List.keys, List.mem_map]

/-- The texts of a container. -/
theorem mem_containerFlows {toOrd fromOrd : MapOrder} {text : String} :
    text ∈ containerFlows toOrd fromOrd c ↔
      text ∈ baseFlows c ∨ (∃ port ∈ c.toPub, text ∈ portFlows c "tp_src" "tp_dst" port) ∨
        ∃ port ∈ c.fromPub, text ∈ portFlows c "tp_dst" "tp_src" port := by
  have hWalk : ∀ (ord : MapOrder) (ports : PortSet) (P : Int → Prop),
      (∃ e ∈ ord.walk ports.entries, P e.1) ↔ ∃ port ∈ ports, P port := by
    intro ord ports P
    simp only [ord.mem_walk, mem_portSet]
    constructor
    · rintro ⟨e, he, hP⟩
      exact ⟨e.1, ⟨e, he, rfl⟩, hP⟩
    · rintro ⟨_, ⟨e, he, rfl⟩, hP⟩
      exact ⟨e, he, hP⟩
  simp only [containerFlows, List.mem_append, List.mem_flatMap, or_assoc]
  rw [hWalk toOrd c.toPub (fun port => text ∈ portFlows c "tp_src" "tp_dst" port),
    hWalk fromOrd c.fromPub (fun port => text ∈ portFlows c "tp_dst" "tp_src" port)]

variable {c} {a : IPv4}

/-- Open vSwitch reads every text of a container as one of its flows. -/
theorem exists_containerFlow (hMac : c.mac = (macOf a).text) (hIP : c.ip = a.text)
    {toOrd fromOrd : MapOrder} {text : String} (h : text ∈ containerFlows toOrd fromOrd c) :
    ∃ f, OpenFlow.parse text = some f ∧ ContainerFlow c a f := by
  rw [mem_containerFlows] at h
  simp only [mem_portFlows, baseFlows, List.mem_cons, List.not_mem_nil, or_false, hMac, hIP] at h
  rcases h with (rfl | rfl | rfl | rfl) | ⟨port, hPort, proto, rfl | rfl⟩ |
    ⟨port, hPort, proto, rfl | rfl⟩
  · exact ⟨_, parse_fromVeth c.vethPort c.patchPort a, .fromVeth⟩
  · exact ⟨_, parse_fromPatch c.patchPort c.vethPort, .fromPatch⟩
  · exact ⟨_, parse_arp c.vethPort a, .arp⟩
  · exact ⟨_, parse_gateway c.vethPort a, .gateway⟩
  · exact ⟨_, parse_table2 proto .src a port c.vethPort, .inbound proto .src port hPort⟩
  · exact ⟨_, parse_table3 proto .dst a port, .outbound proto .dst port hPort⟩
  · exact ⟨_, parse_table2 proto .dst a port c.vethPort, .inbound proto .dst port hPort⟩
  · exact ⟨_, parse_table3 proto .src a port, .outbound proto .src port hPort⟩

/-- Every flow of a container has its text. -/
theorem ContainerFlow.exists_text (hMac : c.mac = (macOf a).text) (hIP : c.ip = a.text)
    (toOrd fromOrd : MapOrder) {f : Flow} (h : ContainerFlow c a f) :
    ∃ text ∈ containerFlows toOrd fromOrd c, OpenFlow.parse text = some f := by
  simp only [mem_containerFlows, mem_portFlows, baseFlows, List.mem_cons, List.not_mem_nil,
    or_false, hMac, hIP]
  cases h with
  | fromVeth => exact ⟨_, Or.inl (Or.inl rfl), parse_fromVeth c.vethPort c.patchPort a⟩
  | fromPatch =>
      exact ⟨_, Or.inl (Or.inr (Or.inl rfl)), parse_fromPatch c.patchPort c.vethPort⟩
  | arp => exact ⟨_, Or.inl (Or.inr (Or.inr (Or.inl rfl))), parse_arp c.vethPort a⟩
  | gateway => exact ⟨_, Or.inl (Or.inr (Or.inr (Or.inr rfl))), parse_gateway c.vethPort a⟩
  | inbound proto side port hPort =>
      cases side with
      | src =>
          exact ⟨_, Or.inr (Or.inl ⟨port, hPort, proto, Or.inl rfl⟩),
            parse_table2 proto .src a port c.vethPort⟩
      | dst =>
          exact ⟨_, Or.inr (Or.inr ⟨port, hPort, proto, Or.inl rfl⟩),
            parse_table2 proto .dst a port c.vethPort⟩
  | outbound proto side port hPort =>
      cases side with
      | src =>
          exact ⟨_, Or.inr (Or.inr ⟨port, hPort, proto, Or.inr rfl⟩),
            parse_table3 proto .src a port⟩
      | dst =>
          exact ⟨_, Or.inr (Or.inl ⟨port, hPort, proto, Or.inr rfl⟩),
            parse_table3 proto .dst a port⟩

end Container

/-- The flows of the bridge, with the addresses of the containers. -/
inductive BridgeFlow (cs : List ResolvedContainer) (address : ResolvedContainer → IPv4) :
    Flow → Prop where
  | static {f : Flow} (h : f ∈ staticTable) : BridgeFlow cs address f
  | container {f : Flow} (c : ResolvedContainer) (hc : c ∈ cs) (h : ContainerFlow c (address c) f) :
      BridgeFlow cs address f
  | broadcast : BridgeFlow cs address
      ⟨2, 1000, [.dlDst MAC.broadcast], (cs.map ResolvedContainer.vethPort).map .output⟩

theorem mem_allContainerFlows {ords : Nat → MapOrder} {cs : List ResolvedContainer}
    {text : String} : text ∈ allContainerFlows ords cs ↔
      ∃ (c : ResolvedContainer) (i : Nat), (c, i) ∈ cs.zipIdx ∧
        text ∈ containerFlows (ords (2 * i)) (ords (2 * i + 1)) c := by
  simp [allContainerFlows]

/-- Open vSwitch reads all texts, and what it reads are the flows of the
bridge. -/
theorem exists_flows (ords : Nat → MapOrder) {cs : List ResolvedContainer}
    (address : ResolvedContainer → IPv4)
    (h : ∀ c ∈ cs, c.mac = (macOf (address c)).text ∧ c.ip = (address c).text) :
    ∃ flows, (allFlows ords cs).mapM OpenFlow.parse = some flows ∧
      ∀ f, f ∈ flows ↔ BridgeFlow cs address f := by
  have hTexts : ∀ text ∈ allFlows ords cs,
      ∃ f, OpenFlow.parse text = some f ∧ BridgeFlow cs address f := by
    intro text hText
    simp only [allFlows, List.mem_append, List.mem_singleton, mem_allContainerFlows] at hText
    rcases hText with (hStatic | ⟨c, i, hc, hText⟩) | rfl
    · have hParsed := List.mem_map_of_mem (f := OpenFlow.parse) hStatic
      rw [parse_staticFlows] at hParsed
      obtain ⟨f, hf, hEq⟩ := List.mem_map.mp hParsed
      exact ⟨f, hEq.symm, .static hf⟩
    · have hMem := List.fst_mem_of_mem_zipIdx hc
      obtain ⟨f, hParse, hf⟩ := exists_containerFlow (h c hMem).1 (h c hMem).2 hText
      exact ⟨f, hParse, .container c hMem hf⟩
    · have hBroadcast := parse_broadcast (cs.map ResolvedContainer.vethPort)
      rw [List.map_map] at hBroadcast
      exact ⟨_, hBroadcast, .broadcast⟩
  obtain ⟨flows, hFlows, hMem⟩ := exists_mapM (fun text hText => (hTexts text hText).imp
    (fun f hf => hf.1))
  refine ⟨flows, hFlows, fun f => ?_⟩
  rw [hMem]
  constructor
  · rintro ⟨text, hText, hParse⟩
    obtain ⟨f', hParse', hf'⟩ := hTexts text hText
    rw [hParse] at hParse'
    rwa [Option.some.inj hParse']
  · intro hf
    simp only [allFlows, List.mem_append, List.mem_singleton, mem_allContainerFlows]
    cases hf with
    | static hStatic =>
        obtain ⟨text, hText, hParse⟩ := mem_staticTable.mp hStatic
        exact ⟨text, Or.inl (Or.inl hText), hParse⟩
    | container c hc hf =>
        obtain ⟨i, hi⟩ := List.mem_iff_getElem?.mp hc
        obtain ⟨text, hText, hParse⟩ := hf.exists_text (h c hc).1 (h c hc).2
          (ords (2 * i)) (ords (2 * i + 1))
        exact ⟨text, Or.inl (Or.inr ⟨c, i, List.mk_mem_zipIdx_iff_getElem?.mpr hi, hText⟩), hParse⟩
    | broadcast =>
        have hBroadcast := parse_broadcast (cs.map ResolvedContainer.vethPort)
        rw [List.map_map] at hBroadcast
        exact ⟨_, Or.inr rfl, hBroadcast⟩

end Kelda.Network.Openflow
