import Kelda.Lib.NetIP
import Kelda.Lib.Packet

/-! Addresses, MACs and interface names of the container network. -/
namespace Kelda.IPDef

open Net

/-- The subnet under which containers and load balancers are given addresses. -/
def keldaSubnet : IPNet := ⟨ofIPv4 ⟨10, 0, 0, 0⟩, cidrMask 8 ipv4len⟩

/-- The border router of the logical network. -/
def gatewayIP : IPv4 := ⟨10, 0, 0, 1⟩

/-- Only used for the MAC of the load balancer router. -/
def loadBalancerIP : IPv4 := ⟨10, 0, 0, 2⟩

/-- The format `%02x`. -/
def hex2 (b : UInt8) : String := String.ofList (Text.hexByte b.toFin)

/-- An address that is not IPv4 has no four bytes to index. -/
def ipToMac (ip : IP) : Except String String :=
  match ip.to4 with
  | [a, b, c, d] => .ok ("02:00:" ++ hex2 a ++ ":" ++ hex2 b ++ ":" ++ hex2 c ++ ":" ++ hex2 d)
  | _ => .error "runtime error: index out of range"

def ipStrToMac (ipStr : String) : Except String String :=
  match parseIP ipStr with
  | [] => .ok ""
  | parsedIP => ipToMac parsedIP

/-- The MAC of an IPv4 address. -/
def macOf (ip : IPv4) : MAC := ⟨[2, 0, ip.a, ip.b, ip.c, ip.d], rfl⟩

def gatewayMac : String := (macOf gatewayIP).text

/-- The size of the C buffer for a name, with its final zero. -/
def ifNameSize : Nat := 16

/-- Names are ASCII here, so that a character is a byte. -/
def ifName (name : String) : String :=
  let size := ifNameSize - 1
  if name.length < size then name else String.ofList (name.toList.take size)

/-- The names of the two patch ports, in the bridge of OVN and in that of
Kelda. -/
def patchPorts (id : String) : String × String := (ifName ("br_" ++ id), ifName ("q_" ++ id))

theorem contains_keldaSubnet (ip : IPv4) : keldaSubnet.contains (ofIPv4 ip) = true ↔ ip.a = 10 := by
  have hNumber : keldaSubnet.numberAndMask = ([10, 0, 0, 0], [255, 0, 0, 0]) := by decide
  have hFirst : ∀ a : Fin 256, 10 &&& 255 = UInt8.ofFin a &&& 255 ↔ a = 10 := by decide +kernel
  rw [IPNet.contains, hNumber, to4_ofIPv4]
  simp [bytes4, hFirst]

theorem ipToMac_ofIPv4 (ip : IPv4) : ipToMac (ofIPv4 ip) = .ok (macOf ip).text := by
  have hText : (macOf ip).text = "02:00:" ++ hex2 (UInt8.ofFin ip.a) ++ ":" ++
      hex2 (UInt8.ofFin ip.b) ++ ":" ++ hex2 (UInt8.ofFin ip.c) ++ ":" ++
        hex2 (UInt8.ofFin ip.d) := by
    apply String.toList_inj.mp
    simp [MAC.text, macOf, hex2, List.intercalate, Text.hexByte, Nat.digitChar]
  rw [ipToMac, to4_ofIPv4, hText]
  rfl

theorem ipStrToMac_text (ip : IPv4) : ipStrToMac ip.text = .ok (macOf ip).text := by
  rw [ipStrToMac, parseIP_text, ← ipToMac_ofIPv4]
  rfl

end Kelda.IPDef
