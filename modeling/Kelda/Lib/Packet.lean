import Kelda.Lib.IPv4

/-! The parts of packets that filters look at. -/
namespace Net

inductive Proto where
  | tcp
  | udp
deriving DecidableEq

inductive Side where
  | src
  | dst
deriving DecidableEq

/-- The port at a side. -/
def Side.port (side : Side) (sport dport : Nat) : Nat :=
  match side with
  | .src => sport
  | .dst => dport

/-- What an IP packet carries. -/
inductive Payload where
  | ports (proto : Proto) (sport dport : Nat)
  | icmp
  | other

/-- An Ethernet address. -/
structure MAC where
  octets : List (Fin 256)
  length_eq : octets.length = 6
deriving DecidableEq

namespace MAC

/-- Two digits for each octet, between colons. -/
def text (mac : MAC) : String := String.ofList ([':'].intercalate (mac.octets.map Text.hexByte))

def parse (s : String) : Option MAC :=
  match (s.toList.splitOn ':').mapM Text.readHexByte with
  | some octets => if h : octets.length = 6 then some ⟨octets, h⟩ else none
  | none => none

@[simp] theorem parse_text (mac : MAC) : parse mac.text = some mac := by
  have hSplit : mac.text.toList.splitOn ':' = mac.octets.map Text.hexByte := by
    rw [text, String.toList_ofList, List.splitOn_intercalate]
    · intro w hw
      obtain ⟨b, -, rfl⟩ := List.mem_map.mp hw
      intro hColon
      exact absurd (Text.isHex_of_mem_hexByte hColon) (by decide)
    · intro hNil
      have hLength := mac.length_eq
      rw [List.map_eq_nil_iff.mp hNil] at hLength
      cases hLength
  have hRead : (mac.octets.map Text.hexByte).mapM Text.readHexByte = some mac.octets := by
    induction mac.octets with
    | nil => rfl
    | cons b octets ih => simp [ih]
  rw [parse, hSplit, hRead]
  simp [mac.length_eq]

theorem isHex_of_mem_text {mac : MAC} {c : Char} (h : c ∈ mac.text.toList) :
    (Text.hexDigit? c).isSome ∨ c = ':' := by
  rw [text, String.toList_ofList] at h
  generalize mac.octets = octets at h
  induction octets with
  | nil => simp at h
  | cons b octets ih =>
      cases octets with
      | nil => exact Or.inl (Text.isHex_of_mem_hexByte (by simpa [List.intercalate] using h))
      | cons b' octets =>
          rw [List.map_cons, List.map_cons, List.intercalate_cons_cons, List.append_assoc,
            List.mem_append, List.mem_append, List.mem_singleton] at h
          rcases h with h | h | h
          · exact Or.inl (Text.isHex_of_mem_hexByte h)
          · exact Or.inr h
          · exact ih h

theorem text_inj {mac mac' : MAC} : mac.text = mac'.text ↔ mac = mac' := by
  refine ⟨fun h => ?_, fun h => h ▸ rfl⟩
  exact Option.some.inj ((parse_text mac).symm.trans (h ▸ parse_text mac'))

def broadcast : MAC := ⟨List.replicate 6 255, rfl⟩

end MAC

end Net
