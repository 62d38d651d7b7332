import Kelda.Lib.Text

/-! IPv4 addresses and their dotted decimal text. -/

/-- An address by its four octets. -/
structure IPv4 where
  a : Fin 256
  b : Fin 256
  c : Fin 256
  d : Fin 256
deriving DecidableEq, Repr

namespace IPv4

/-- The dotted decimal text. -/
def text (ip : IPv4) : String :=
  ip.a.val.repr ++ "." ++ ip.b.val.repr ++ "." ++ ip.c.val.repr ++ "." ++ ip.d.val.repr

/-- A decimal numeral of at most 255. -/
def parseOctet (s : List Char) : Option (Fin 256) :=
  match Text.readNat s with
  | some n => if h : n < 256 then some ⟨n, h⟩ else none
  | none => none

/-- Read a dotted decimal text. -/
def parse (s : String) : Option IPv4 :=
  match s.toList.splitOn '.' with
  | [a, b, c, d] => do
    let a ← parseOctet a
    let b ← parseOctet b
    let c ← parseOctet c
    let d ← parseOctet d
    some ⟨a, b, c, d⟩
  | _ => none

theorem parseOctet_repr (n : Fin 256) : parseOctet n.val.repr.toList = some n := by
  simp only [parseOctet, Text.readNat_repr, n.isLt, dite_true]

/-- The octets, between the dots. -/
theorem text_toList (ip : IPv4) :
    ip.text.toList = ip.a.val.repr.toList ++ '.' :: (ip.b.val.repr.toList ++ '.' ::
      (ip.c.val.repr.toList ++ '.' :: ip.d.val.repr.toList)) := by
  simp [text]

theorem dot_notMem_repr (n : Nat) : '.' ∉ n.repr.toList := fun h =>
  absurd (Text.isDigit_of_mem_repr h) (by decide)

theorem splitOn_text (ip : IPv4) :
    ip.text.toList.splitOn '.' = [ip.a.val.repr.toList, ip.b.val.repr.toList,
      ip.c.val.repr.toList, ip.d.val.repr.toList] := by
  have hJoin : ip.text.toList = ['.'].intercalate [ip.a.val.repr.toList, ip.b.val.repr.toList,
      ip.c.val.repr.toList, ip.d.val.repr.toList] := by
    simp [text_toList, List.intercalate]
  rw [hJoin, List.splitOn_intercalate _ _ (List.cons_ne_nil _ _)]
  intro octet hOctet
  simp only [List.mem_cons, List.not_mem_nil, or_false] at hOctet
  rcases hOctet with rfl | rfl | rfl | rfl <;> exact dot_notMem_repr _

@[simp] theorem parse_text (ip : IPv4) : parse ip.text = some ip := by
  simp only [parse, splitOn_text, parseOctet_repr, bind, Option.bind]

theorem parse_eq_none {s : String} (h : '.' ∉ s.toList) : parse s = none := by
  have hSplit : s.toList.splitOn '.' = [s.toList] := by
    have hOne : ∀ part ∈ [s.toList], '.' ∉ part := by simpa using h
    simpa [List.intercalate] using List.splitOn_intercalate '.' hOne (by simp)
  simp only [parse, hSplit]

/-- Digits and dots only. -/
theorem isDigit_of_mem_text {ip : IPv4} {c : Char} (h : c ∈ ip.text.toList) :
    c.isDigit ∨ c = '.' := by
  rw [text_toList] at h
  simp only [List.mem_append, List.mem_cons] at h
  rcases h with h | rfl | h | rfl | h | rfl | h
  · exact Or.inl (Text.isDigit_of_mem_repr h)
  · exact Or.inr rfl
  · exact Or.inl (Text.isDigit_of_mem_repr h)
  · exact Or.inr rfl
  · exact Or.inl (Text.isDigit_of_mem_repr h)
  · exact Or.inr rfl
  · exact Or.inl (Text.isDigit_of_mem_repr h)

theorem text_inj {ip ip' : IPv4} : ip.text = ip'.text ↔ ip = ip' := by
  refine ⟨fun h => ?_, fun h => h ▸ rfl⟩
  exact Option.some.inj ((parse_text ip).symm.trans (h ▸ parse_text ip'))

end IPv4
