import Kelda.Lib.IPv4

/-! The traffic that is allowed to a machine. The providers write the ports into
texts, and read them back. -/
namespace Kelda

/-- Allowed traffic to a machine. -/
structure ACL where
  cidrIP : String
  minPort : Int
  maxPort : Int
deriving DecidableEq

namespace Acl

open Text

/-- The format `%d-%d` of the ports. -/
def portRange (acl : ACL) : String := acl.minPort.repr ++ "-" ++ acl.maxPort.repr

/-- A numeral without a sign has no dash. -/
theorem dash_notMem_repr {n : Int} (h : 0 ≤ n) : '-' ∉ n.repr.toList := by
  rw [Int.repr_eq_if, if_pos h]
  exact fun hDash => absurd (isDigit_of_mem_repr hDash) (by decide)

/-- The dash between the ports is the only one. -/
theorem split_portRange {acl : ACL} (hMin : 0 ≤ acl.minPort) (hMax : 0 ≤ acl.maxPort) :
    split '-' (portRange acl) = [acl.minPort.repr, acl.maxPort.repr] := by
  have hJoin : portRange acl =
      (String.singleton '-').intercalate [acl.minPort.repr, acl.maxPort.repr] := by
    rw [String.intercalate_cons_cons, String.intercalate_singleton]
    rfl
  rw [hJoin]
  apply split_intercalate
  · intro w hw
    simp only [List.mem_cons, List.not_mem_nil, or_false] at hw
    rcases hw with rfl | rfl
    · exact dash_notMem_repr hMin
    · exact dash_notMem_repr hMax
  · exact List.cons_ne_nil _ _

end Acl

end Kelda
