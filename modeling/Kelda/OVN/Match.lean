import Kelda.Lib.Packet

/-! The match language of OVN, as far as address, port and protocol tests go.
A match is read from its text: words are separated by spaces and parentheses,
and `&&` and `||` do not mix without parentheses. -/
namespace OVN

open Net

/-- A packet on a logical switch. -/
inductive Packet where
  | ip4 (src dst : IPv4) (payload : Payload)
  | ip6 (payload : Payload)
  | nonIP

inductive Op where
  | and
  | or
deriving DecidableEq

inductive Expr where
  | ip
  | icmp
  | addr (side : Side) (address : IPv4)
  | addrSet (side : Side) (name : String)
  | port (lo : Int) (proto : Proto) (side : Side) (hi : Int)
  | op (o : Op) (e e' : Expr)
deriving DecidableEq

namespace Packet

def payload? : Packet → Option Payload
  | .ip4 _ _ payload => some payload
  | .ip6 payload => some payload
  | .nonIP => none

/-- The IPv4 address at one side. -/
def addr? : Side → Packet → Option IPv4
  | .src, .ip4 src _ _ => some src
  | .dst, .ip4 _ dst _ => some dst
  | _, _ => none

/-- The port at one side, if the packet is of the protocol. -/
def port? (proto : Proto) (side : Side) (pkt : Packet) : Option Nat :=
  match pkt.payload? with
  | some (.ports proto' sport dport) =>
    if proto' = proto then some (side.port sport dport) else none
  | _ => none

end Packet

/-- A test of a field that the packet does not have is false. The argument
gives the address sets by name. -/
def Expr.eval (sets : String → List IPv4) (pkt : Packet) : Expr → Bool
  | .ip => pkt.payload?.isSome
  | .icmp => match pkt.payload? with | some .icmp => true | _ => false
  | .addr side address => pkt.addr? side = some address
  | .addrSet side name =>
    match pkt.addr? side with | some address => address ∈ sets name | none => false
  | .port lo proto side hi =>
    match pkt.port? proto side with | some p => lo ≤ p ∧ p ≤ hi | none => false
  | .op .and e e' => e.eval sets pkt && e'.eval sets pkt
  | .op .or e e' => e.eval sets pkt || e'.eval sets pkt

section Words

/-- The word that has been read so far, if any. -/
def flush (word : List Char) : List String :=
  if word = [] then [] else [String.ofList word]

/-- Split a text into words, with each parenthesis a word of its own. -/
def splitWords : List Char → List Char → List String
  | word, [] => flush word
  | word, c :: cs =>
    if c = ' ' then flush word ++ splitWords [] cs
    else if c = '(' ∨ c = ')' then flush word ++ String.singleton c :: splitWords [] cs
    else splitWords (word ++ [c]) cs

def words (s : String) : List String := splitWords [] s.toList

theorem splitWords_space (word s t : List Char) :
    splitWords word (s ++ ' ' :: t) = splitWords word s ++ splitWords [] t := by
  induction s generalizing word with
  | nil => simp [splitWords]
  | cons c s ih =>
      simp only [List.cons_append, splitWords]
      split_ifs <;> simp [ih]

theorem splitWords_paren (word s t : List Char) {c : Char} (hc : c = '(' ∨ c = ')') :
    splitWords word (s ++ c :: t) = splitWords word s ++ String.singleton c :: splitWords [] t := by
  induction s generalizing word with
  | nil =>
      have hSpace : c ≠ ' ' := by rcases hc with rfl | rfl <;> decide
      simp [splitWords, hSpace, hc]
  | cons c' s ih =>
      simp only [List.cons_append, splitWords]
      split_ifs <;> simp [ih]

theorem splitWords_word (word s : List Char) (h : ∀ c ∈ s, c ≠ ' ' ∧ c ≠ '(' ∧ c ≠ ')') :
    splitWords word s = flush (word ++ s) := by
  induction s generalizing word with
  | nil => simp [splitWords]
  | cons c s ih =>
      obtain ⟨hSpace, hOpen, hClose⟩ := h c (List.mem_cons_self ..)
      rw [splitWords, if_neg hSpace, if_neg (by simp [hOpen, hClose]),
        ih _ (fun c' hc' => h c' (List.mem_cons_of_mem _ hc'))]
      simp

theorem words_space (s t : String) : words (s ++ " " ++ t) = words s ++ words t := by
  simp only [words, String.toList_append]
  rw [List.append_assoc]
  exact splitWords_space [] s.toList t.toList

theorem words_paren (s : String) : words ("(" ++ s ++ ")") = "(" :: words s ++ [")"] := by
  simp only [words, String.toList_append]
  have hClose := splitWords_paren [] ("(".toList ++ s.toList) [] (Or.inr rfl)
  have hOpen := splitWords_paren [] [] s.toList (Or.inl rfl)
  rw [show (")".toList : List Char) = [')'] from rfl, hClose,
    show ("(".toList ++ s.toList : List Char) = [] ++ '(' :: s.toList from rfl, hOpen]
  rfl

theorem words_word {s : String} (hs : s ≠ "") (h : ∀ c ∈ s.toList, c ≠ ' ' ∧ c ≠ '(' ∧ c ≠ ')') :
    words s = [s] := by
  rw [words, splitWords_word [] _ h, List.nil_append, flush, if_neg]
  · simp
  · simpa using hs

end Words

section Tokens

inductive Token where
  | lparen
  | rparen
  | op (o : Op)
  | eq
  | le
  | ip
  | icmp
  | addrField (side : Side)
  | portField (proto : Proto) (side : Side)
  | int (n : Int)
  | const (address : IPv4)
  | set (name : String)
deriving DecidableEq

def keywords : List (String × Token) :=
  [("(", .lparen), (")", .rparen), ("&&", .op .and), ("||", .op .or), ("==", .eq), ("<=", .le),
    ("ip", .ip), ("icmp", .icmp), ("ip4.src", .addrField .src), ("ip4.dst", .addrField .dst),
    ("tcp.src", .portField .tcp .src), ("tcp.dst", .portField .tcp .dst),
    ("udp.src", .portField .udp .src), ("udp.dst", .portField .udp .dst)]

/-- A word is a keyword, the name of an address set, an address or a number. -/
def token (w : String) : Option Token :=
  match keywords.lookup w with
  | some t => some t
  | none =>
    match w.toList with
    | '$' :: name => some (.set (String.ofList name))
    | _ =>
      match IPv4.parse w with
      | some address => some (.const address)
      | none => (Text.readInt w.toList).map .int

def tokens (s : String) : Option (List Token) := (words s).mapM token

/-- Every keyword has a character that is in no number and in no address. -/
theorem lookup_keywords_eq_none {w : String}
    (h : ∀ c ∈ w.toList, c.isDigit ∨ c = '-' ∨ c = '.') : keywords.lookup w = none := by
  have hKeywords : ∀ k ∈ keywords.map Prod.fst,
      k.toList.any (fun c => !(c.isDigit || c == '-' || c == '.')) = true := by decide
  rw [List.lookup_eq_none_iff]
  intro k hk
  rw [bne_iff_ne]
  rintro rfl
  obtain ⟨c, hc, hNot⟩ := List.any_eq_true.mp (hKeywords _ (List.mem_map_of_mem hk))
  rcases h c hc with hDigit | rfl | rfl
  · simp [hDigit] at hNot
  · exact absurd hNot (by decide)
  · exact absurd hNot (by decide)

/-- A word that is no keyword and no name of a set is an address or a number. -/
theorem token_plain {w : String} (h : ∀ c ∈ w.toList, c.isDigit ∨ c = '-' ∨ c = '.') :
    token w =
      match IPv4.parse w with
      | some address => some (.const address)
      | none => (Text.readInt w.toList).map .int := by
  rw [token, lookup_keywords_eq_none h]
  dsimp only
  split
  · rename_i name hEq
    exact absurd (h '$' (hEq ▸ List.mem_cons_self ..)) (by decide)
  · rfl

theorem token_int (n : Int) : token n.repr = some (.int n) := by
  have hChars : ∀ c ∈ n.repr.toList, c.isDigit ∨ c = '-' :=
    fun c hc => Text.isDigit_of_mem_int_repr hc
  have hDot : '.' ∉ n.repr.toList := fun hm => absurd (hChars '.' hm) (by decide)
  rw [token_plain (fun c hc => (hChars c hc).imp_right Or.inl), IPv4.parse_eq_none hDot,
    Text.readInt_repr]
  rfl

theorem token_address (address : IPv4) : token address.text = some (.const address) := by
  rw [token_plain (fun c hc => (IPv4.isDigit_of_mem_text hc).imp_right Or.inr), IPv4.parse_text]

theorem token_set (name : String) : token ("$" ++ name) = some (.set name) := by
  have hKeyword : keywords.lookup ("$" ++ name) = none := by
    have hHeads : ∀ k ∈ keywords.map Prod.fst, k.toList.head? ≠ some '$' := by decide
    rw [List.lookup_eq_none_iff]
    intro k hk
    rw [bne_iff_ne]
    intro hEq
    exact hHeads _ (List.mem_map_of_mem hk) (by simp [← hEq])
  have hList : ("$" ++ name).toList = '$' :: name.toList := by simp
  rw [token, hKeyword, hList]
  simp

end Tokens

section Parser

/-- One test. -/
def atom : List Token → Option (Expr × List Token)
  | .ip :: rest => some (.ip, rest)
  | .icmp :: rest => some (.icmp, rest)
  | .addrField side :: .eq :: .const address :: rest => some (.addr side address, rest)
  | .addrField side :: .eq :: .set name :: rest => some (.addrSet side name, rest)
  | .int lo :: .le :: .portField proto side :: .le :: .int hi :: rest =>
    some (.port lo proto side hi, rest)
  | _ => none

/-- Operands joined by one operator. -/
def chain (operand : List Token → Option (Expr × List Token)) (o : Op) :
    Nat → Expr → List Token → Option (Expr × List Token)
  | n + 1, e, .op o' :: rest =>
    if o' = o then
      match operand rest with
      | some (e', rest) => chain operand o n (.op o e e') rest
      | none => none
    else none
  | _, e, rest => some (e, rest)

def joined (operand : List Token → Option (Expr × List Token)) (ts : List Token) :
    Option (Expr × List Token) :=
  match operand ts with
  | some (e, .op o :: rest) => chain operand o (rest.length + 1) e (.op o :: rest)
  | other => other

/-- A test, or an expression in parentheses. The number bounds the nesting. -/
def primary : Nat → List Token → Option (Expr × List Token)
  | n + 1, .lparen :: ts =>
    match joined (primary n) ts with
    | some (e, .rparen :: rest) => some (e, rest)
    | _ => none
  | _ + 1, ts => atom ts
  | 0, _ => none

def parse (s : String) : Option Expr :=
  match tokens s with
  | none => none
  | some ts =>
    match joined (primary ts.length) ts with
    | some (e, []) => some e
    | _ => none

end Parser

section Reading

/-- The tokens of an operand, whatever follows it. -/
def Reads (ts : List Token) (e : Expr) : Prop :=
  ∀ n rest, ts.length ≤ n → primary n (ts ++ rest) = some (e, rest)

/-- Further operands of a chain, each behind the operator. -/
theorem chain_operands {operand : List Token → Option (Expr × List Token)} (o : Op)
    (operands : List (List Token × Expr))
    (hRead : ∀ p ∈ operands, ∀ rest, operand (p.1 ++ rest) = some (p.2, rest)) (e : Expr)
    (rest : List Token) (n : Nat) (hn : operands.length ≤ n) :
    chain operand o n e (operands.flatMap (fun p => .op o :: p.1) ++ .rparen :: rest) =
      some (operands.foldl (fun e p => .op o e p.2) e, .rparen :: rest) := by
  induction operands generalizing e n with
  | nil => cases n <;> rfl
  | cons p operands ih =>
      obtain ⟨n, rfl⟩ : ∃ m, n = m + 1 := ⟨n - 1, by simp at hn; omega⟩
      have hFirst := hRead p (List.mem_cons_self ..)
        (operands.flatMap (fun p => .op o :: p.1) ++ .rparen :: rest)
      simp only [List.flatMap_cons, List.cons_append, List.append_assoc, chain, if_true, hFirst,
        List.foldl_cons]
      exact ih (fun q hq => hRead q (List.mem_cons_of_mem _ hq)) _ _ (by simpa using hn)

theorem length_le_operands (o : Op) (operands : List (List Token × Expr)) :
    operands.length ≤ (operands.flatMap (fun p => Token.op o :: p.1)).length := by
  induction operands with
  | nil => simp
  | cons p operands ih =>
      simp only [List.flatMap_cons, List.length_append, List.length_cons]
      omega

/-- An operand and others joined to it, in parentheses. -/
theorem Reads.paren {ts : List Token} {e : Expr} (h : Reads ts e) (o : Op)
    (operands : List (List Token × Expr)) (hRead : ∀ p ∈ operands, Reads p.1 p.2) :
    Reads (.lparen :: (ts ++ operands.flatMap (fun p => .op o :: p.1)) ++ [.rparen])
      (operands.foldl (fun e p => .op o e p.2) e) := by
  intro n rest hn
  obtain ⟨n, rfl⟩ : ∃ m, n = m + 1 := ⟨n - 1, by simp at hn; omega⟩
  have hRest : (operands.flatMap (fun p => Token.op o :: p.1)).length ≤ n := by
    simp at hn
    simp
    omega
  have hOperands : ∀ p ∈ operands, ∀ rest, primary n (p.1 ++ rest) = some (p.2, rest) := by
    intro p hp rest
    refine hRead p hp n rest ?_
    have hSub : (Token.op o :: p.1).Sublist (operands.flatMap (fun p => Token.op o :: p.1)) :=
      List.sublist_flatten_of_mem (List.mem_map_of_mem hp)
    have hLength := hSub.length_le
    simp only [List.length_cons] at hLength
    omega
  have hFirst : ∀ rest, primary n (ts ++ rest) = some (e, rest) := by
    intro rest
    refine h n rest ?_
    simp at hn
    omega
  simp only [List.cons_append, List.append_assoc, List.nil_append, primary]
  have hJoined : joined (primary n)
      (ts ++ (operands.flatMap (fun p => Token.op o :: p.1) ++ .rparen :: rest)) =
      some (operands.foldl (fun e p => .op o e p.2) e, .rparen :: rest) := by
    rw [joined, hFirst]
    cases operands with
    | nil => rfl
    | cons p operands =>
        have hChain := chain_operands o (p :: operands) hOperands e rest
        simp only [List.flatMap_cons, List.cons_append, List.append_assoc] at hChain ⊢
        refine hChain _ ?_
        have hCount := length_le_operands o operands
        simp only [List.length_cons, List.length_append]
        omega
  rw [hJoined]

/-- The text of an operand. -/
def ReadsAs (s : String) (e : Expr) : Prop :=
  ∃ ts, tokens s = some ts ∧ Reads ts e

theorem tokens_space {s t : String} {ts us : List Token} (hs : tokens s = some ts)
    (ht : tokens t = some us) : tokens (s ++ " " ++ t) = some (ts ++ us) := by
  rw [tokens] at hs ht ⊢
  rw [words_space, List.mapM_append, hs, ht]
  rfl

/-- A word between two texts. -/
theorem tokens_between {s w t : String} {ts us : List Token} {u : Token} (hs : tokens s = some ts)
    (hw : tokens w = some [u]) (ht : tokens t = some us) :
    tokens (s ++ (" " ++ w ++ " ") ++ t) = some (ts ++ u :: us) := by
  have hAll := tokens_space hs (tokens_space hw ht)
  simpa only [String.append_assoc, List.singleton_append] using hAll

theorem tokens_paren {s : String} {ts : List Token} (hs : tokens s = some ts) :
    tokens ("(" ++ s ++ ")") = some (.lparen :: ts ++ [.rparen]) := by
  rw [tokens] at hs ⊢
  have hOpen : token "(" = some .lparen := by decide
  have hClose : token ")" = some .rparen := by decide
  rw [words_paren, List.cons_append, List.mapM_cons, List.mapM_append, hs, hOpen]
  simp [hClose]

theorem tokens_word {w : String} {t : Token} (hw : w ≠ "")
    (hChars : ∀ c ∈ w.toList, c ≠ ' ' ∧ c ≠ '(' ∧ c ≠ ')') (ht : token w = some t) :
    tokens w = some [t] := by
  rw [tokens, words_word hw hChars]
  simp [ht]

def Op.text : Op → String
  | .and => "&&"
  | .or => "||"

/-- Texts joined by an operator. -/
theorem tokens_join (o : Op) (s : String) (ts : List Token)
    (operands : List (String × List Token)) (hs : tokens s = some ts)
    (hOperands : ∀ p ∈ operands, tokens p.1 = some p.2) :
    tokens ((" " ++ o.text ++ " ").intercalate (s :: operands.map Prod.fst)) =
      some (ts ++ operands.flatMap (fun p => .op o :: p.2)) := by
  induction operands generalizing s ts with
  | nil => simpa using hs
  | cons p operands ih =>
      have hRest := ih p.1 p.2 (hOperands p (List.mem_cons_self ..))
        (fun q hq => hOperands q (List.mem_cons_of_mem _ hq))
      have hOp : tokens o.text = some [.op o] := by cases o <;> decide
      rw [List.map_cons, String.intercalate_cons_cons, tokens_between hs hOp hRest]
      simp

theorem Reads.atom {ts : List Token} {e : Expr} (hne : ts ≠ []) (hParen : ts.head? ≠ some .lparen)
    (hAtom : ∀ rest, OVN.atom (ts ++ rest) = some (e, rest)) : Reads ts e := by
  intro n rest hn
  obtain ⟨t, ts, rfl⟩ := List.exists_cons_of_ne_nil hne
  obtain ⟨n, rfl⟩ : ∃ m, n = m + 1 := ⟨n - 1, by simp at hn; omega⟩
  rw [primary]
  · exact hAtom rest
  · intro ts' hEq
    exact hParen (by simpa using congrArg List.head? hEq)

/-- An address test. -/
theorem ReadsAs.address {field : String} {side : Side} {w : String} {t : Token} {e : Expr}
    (hField : tokens field = some [.addrField side]) (hw : tokens w = some [t])
    (hAtom : ∀ rest, OVN.atom (.addrField side :: .eq :: t :: rest) = some (e, rest)) :
    ReadsAs (field ++ " == " ++ w) e := by
  refine ⟨[.addrField side, .eq, t], ?_, Reads.atom (by simp) (by simp) hAtom⟩
  have hEq : tokens "==" = some [.eq] := by decide
  rw [show " == " = " " ++ "==" ++ " " by decide, tokens_between hField hEq hw]
  rfl

theorem tokens_int (n : Int) : tokens n.repr = some [.int n] := by
  refine tokens_word ?_ ?_ (token_int n)
  · intro hEmpty
    have hNumber := Text.readInt_repr n
    rw [hEmpty] at hNumber
    cases hNumber
  · intro c hc
    rcases Text.isDigit_of_mem_int_repr hc with h | rfl
    · refine ⟨?_, ?_, ?_⟩ <;> rintro rfl <;> exact absurd h (by decide)
    · decide

/-- A port range. -/
theorem ReadsAs.port (lo hi : Int) {field : String} {proto : Proto} {side : Side}
    (hField : tokens field = some [.portField proto side]) :
    ReadsAs (lo.repr ++ " <= " ++ field ++ " <= " ++ hi.repr) (.port lo proto side hi) := by
  refine ⟨[.int lo, .le, .portField proto side, .le, .int hi], ?_,
    Reads.atom (by simp) (by simp) (fun rest => rfl)⟩
  have hLe : tokens "<=" = some [.le] := by decide
  rw [show " <= " = " " ++ "<=" ++ " " by decide,
    tokens_between (tokens_between (tokens_int lo) hLe hField) hLe (tokens_int hi)]
  rfl

/-- Operands joined by an operator, in parentheses. -/
theorem ReadsAs.paren (o : Op) {s : String} {e : Expr} (h : ReadsAs s e)
    (operands : List (String × Expr)) (hOperands : ∀ p ∈ operands, ReadsAs p.1 p.2) :
    ReadsAs ("(" ++ (" " ++ o.text ++ " ").intercalate (s :: operands.map Prod.fst) ++ ")")
      (operands.foldl (fun e p => .op o e p.2) e) := by
  obtain ⟨ts, hTokens, hReads⟩ := h
  choose! operandTokens hOperandTokens hOperandReads using hOperands
  have hJoin := tokens_join o s ts (operands.map (fun p => (p.1, operandTokens p))) hTokens (by
    intro q hq
    obtain ⟨p, hp, rfl⟩ := List.mem_map.mp hq
    exact hOperandTokens p hp)
  have hParen := hReads.paren o (operands.map (fun p => (operandTokens p, p.2))) (by
    intro q hq
    obtain ⟨p, hp, rfl⟩ := List.mem_map.mp hq
    exact hOperandReads p hp)
  rw [List.map_map] at hJoin
  rw [List.flatMap_map, List.foldl_map] at hParen
  rw [List.flatMap_map] at hJoin
  exact ⟨_, tokens_paren hJoin, hParen⟩

theorem ReadsAs.parse {s : String} {e : Expr} (h : ReadsAs s e) : OVN.parse s = some e := by
  obtain ⟨ts, hTokens, hReads⟩ := h
  have hPrimary := hReads ts.length [] (Nat.le_refl _)
  rw [List.append_nil] at hPrimary
  simp only [OVN.parse, hTokens, joined, hPrimary]

end Reading

end OVN
