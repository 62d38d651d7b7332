import Kelda.Lib.Packet
import Kelda.Lib.Priority

/-! Flow tables of an Open vSwitch bridge. A packet starts at table 0; in each
table a matching flow of highest priority is executed, and a packet without a
matching flow is dropped. -/
namespace OpenFlow

open Net

/-- The number of the port LOCAL. -/
def localPort : Nat := 65534

/-- One test of a flow. -/
inductive Field where
  | inPort (port : Nat)
  | dlSrc (mac : MAC)
  | dlDst (mac : MAC)
  | arp
  | ip
  | proto (p : Proto)
  | nw (side : Side) (address : IPv4)
  | tp (side : Side) (port : Int)
deriving DecidableEq

inductive Action where
  | output (port : Nat)
  | outputReg0
  | loadReg0 (value : Nat)
  | resubmit (table : Nat)
deriving DecidableEq

structure Flow where
  table : Nat := 0
  priority : Nat := 32768
  fields : List Field := []
  actions : List Action := []
deriving DecidableEq

/-- What an Ethernet frame carries. -/
inductive Network where
  | arp
  | ip4 (src dst : IPv4) (payload : Payload)
  | ip6 (payload : Payload)
  | other

structure Packet where
  dlSrc : MAC
  dlDst : MAC
  network : Network

namespace Packet

def isIP (pkt : Packet) : Bool :=
  match pkt.network with
  | .ip4 .. => true
  | .ip6 .. => true
  | _ => false

/-- The IPv4 address at a side. -/
def nw? (side : Side) (pkt : Packet) : Option IPv4 :=
  match pkt.network with
  | .ip4 src dst _ => match side with | .src => some src | .dst => some dst
  | _ => none

/-- The protocol of an IPv4 packet that has ports. -/
def proto? (pkt : Packet) : Option Proto :=
  match pkt.network with
  | .ip4 _ _ (.ports p _ _) => some p
  | _ => none

/-- The port at a side of an IPv4 packet. -/
def tp? (side : Side) (pkt : Packet) : Option Nat :=
  match pkt.network with
  | .ip4 _ _ (.ports _ sport dport) => some (side.port sport dport)
  | _ => none

end Packet

section Execution

/-- The tests of protocols, addresses and ports are about IPv4 alone. -/
def Field.test (inPort : Nat) (pkt : Packet) : Field → Bool
  | .inPort port => inPort = port
  | .dlSrc mac => pkt.dlSrc = mac
  | .dlDst mac => pkt.dlDst = mac
  | .arp => match pkt.network with | .arp => true | _ => false
  | .ip => match pkt.network with | .ip4 .. => true | _ => false
  | .proto p => pkt.proto? = some p
  | .nw side address => pkt.nw? side = some address
  | .tp side port => (pkt.tp? side).map (fun p : Nat => (p : Int)) = some port

def Flow.test (inPort : Nat) (pkt : Packet) (flow : Flow) : Bool :=
  flow.fields.all (Field.test inPort pkt)

/-- The flows of a table that match. -/
def matching (flows : List Flow) (inPort : Nat) (pkt : Packet) (table : Nat) : List Flow :=
  flows.filter (fun flow => flow.table = table ∧ flow.test inPort pkt)

/-- A packet is not sent back to the port on which it came. -/
def emit (inPort port : Nat) : List Nat := if port = inPort then [] else [port]

/-- The register and the ports of the output so far, and one more action. -/
def act (inPort : Nat) (resubmit : Nat → Nat → Nat × List Nat) :
    Nat × List Nat → Action → Nat × List Nat
  | (reg0, out), .output port => (reg0, out ++ emit inPort port)
  | (reg0, out), .outputReg0 => (reg0, out ++ emit inPort reg0)
  | (_, out), .loadReg0 value => (value, out)
  | (reg0, out), .resubmit table =>
    let (reg0, out') := resubmit table reg0
    (reg0, out ++ out')

variable (choice : Priority.Choice Flow) (flows : List Flow) (inPort : Nat) (pkt : Packet)

/-- The flow that is executed in a table. -/
def lookup (table : Nat) : Option Flow :=
  choice.choose (Priority.best (fun flow => (flow.priority : Int))
    (matching flows inPort pkt table))

/-- Process a packet in a table. The first number bounds the depth of
resubmissions. -/
def process : Nat → Nat → Nat → Nat × List Nat
  | 0, _, reg0 => (reg0, [])
  | depth + 1, table, reg0 =>
    match lookup choice flows inPort pkt table with
    | none => (reg0, [])
    | some flow => flow.actions.foldl (act inPort (process depth)) (reg0, [])

/-- The ports to which the packet is sent. -/
def outputs : List Nat := (process choice flows inPort pkt 64 0 0).2

variable {choice flows inPort pkt}

theorem mem_matching {table : Nat} {flow : Flow} :
    flow ∈ matching flows inPort pkt table ↔
      flow ∈ flows ∧ flow.table = table ∧ flow.test inPort pkt = true := by
  simp [matching]

/-- What is looked up matches, and nothing above it does. -/
theorem mem_of_lookup {table : Nat} {flow : Flow}
    (h : lookup choice flows inPort pkt table = some flow) :
    flow ∈ matching flows inPort pkt table ∧
      ∀ other ∈ matching flows inPort pkt table, other.priority ≤ flow.priority := by
  obtain ⟨hMem, hBest⟩ := Priority.mem_best.mp (choice.mem h)
  exact ⟨hMem, fun other hOther => by exact_mod_cast hBest other hOther⟩

theorem lookup_eq_none {table : Nat} :
    lookup choice flows inPort pkt table = none ↔ matching flows inPort pkt table = [] := by
  constructor
  · exact fun h => Priority.best_eq_nil.mp (choice.total h)
  · intro h
    cases hLookup : lookup choice flows inPort pkt table with
    | none => rfl
    | some flow =>
        have hMem := (mem_of_lookup hLookup).1
        rw [h] at hMem
        cases hMem

/-- If some flow matches and every flow that matches is above the others or has
the same actions, then these actions are executed. -/
theorem process_of_matching {depth table reg0 : Nat} {flow : Flow}
    (hMem : flow ∈ matching flows inPort pkt table)
    (hActions : ∀ other ∈ matching flows inPort pkt table,
      flow.priority ≤ other.priority → other.actions = flow.actions) :
    process choice flows inPort pkt (depth + 1) table reg0 =
      flow.actions.foldl (act inPort (process choice flows inPort pkt depth)) (reg0, []) := by
  rw [process]
  cases hLookup : lookup choice flows inPort pkt table with
  | none =>
      rw [lookup_eq_none.mp hLookup] at hMem
      cases hMem
  | some other =>
      obtain ⟨hOther, hBest⟩ := mem_of_lookup hLookup
      dsimp only
      rw [hActions other hOther (hBest flow hMem)]

theorem process_of_no_match {depth table reg0 : Nat}
    (h : ∀ flow ∈ flows, flow.table = table → flow.test inPort pkt = false) :
    process choice flows inPort pkt (depth + 1) table reg0 = (reg0, []) := by
  have hNil : matching flows inPort pkt table = [] := by
    refine List.eq_nil_iff_forall_not_mem.mpr (fun flow hMem => ?_)
    obtain ⟨hFlow, hTable, hTest⟩ := mem_matching.mp hMem
    rw [h flow hFlow hTable] at hTest
    cases hTest
  rw [process, lookup_eq_none.mpr hNil]

end Execution

end OpenFlow
