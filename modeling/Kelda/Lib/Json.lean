import Kelda.Lib.Text

/-! JSON texts. A text is scanned character by character into tokens, and the
tokens are put together on a stack of the arrays and objects that are still
open. A value that is printed, with or without indentation, is read back. -/
inductive Json where
  | null
  | bool (b : Bool)
  | num (literal : List Char)
  | str (s : String)
  | arr (elems : List Json)
  | obj (fields : List (String × Json))

namespace Json

section Strings

/-- What is put for a character that no text can hold. -/
def replacement : Char := Char.ofNat 0xFFFD

def hex4 (n : Nat) : List Char :=
  [Nat.digitChar (n / 4096 % 16), Nat.digitChar (n / 256 % 16), Nat.digitChar (n / 16 % 16),
    Nat.digitChar (n % 16)]

def readHex4 (a b c d : Char) : Nat :=
  [a, b, c, d].foldl (fun n c => 16 * n + (Text.hexDigit? c).getD 0) 0

/-- A character inside a string. Characters that a browser could take for
markup are escaped too. -/
def escapeChar (c : Char) : List Char :=
  if c = '"' ∨ c = '\\' then ['\\', c]
  else if c = '\n' then ['\\', 'n']
  else if c = '\r' then ['\\', 'r']
  else if c = '\t' then ['\\', 't']
  else if c.toNat < 0x20 ∨ c = '<' ∨ c = '>' ∨ c = '&' ∨ c.toNat = 0x2028 ∨ c.toNat = 0x2029 then
    '\\' :: 'u' :: hex4 c.toNat
  else [c]

def escape (s : List Char) : List Char := s.flatMap escapeChar

def isSurrogate (n : Nat) : Bool := 0xD800 ≤ n ∧ n < 0xE000

/-- The character of a surrogate pair. -/
def decodePair (high low : Nat) : Option Char :=
  if 0xD800 ≤ high ∧ high < 0xDC00 ∧ 0xDC00 ≤ low ∧ low < 0xE000 then
    some (Char.ofNat ((high - 0xD800) * 0x400 + (low - 0xDC00) + 0x10000))
  else none

/-- The character of an escape sequence of two characters. -/
def unescapeChar : Char → Char
  | 'b' => Char.ofNat 8
  | 'f' => Char.ofNat 12
  | 'n' => '\n'
  | 'r' => '\r'
  | 't' => '\t'
  | c => c

/-- The code points that stand between the quotes of a string. Only an escape
sequence may be half of a surrogate pair. -/
def units : List Char → List Nat
  | '\\' :: 'u' :: a :: b :: c :: d :: rest => readHex4 a b c d :: units rest
  | '\\' :: c :: rest => (unescapeChar c).toNat :: units rest
  | c :: rest => c.toNat :: units rest
  | [] => []

/-- The characters of code points. A surrogate without its partner is replaced. -/
def joinUnits : List Nat → List Char
  | [] => []
  | [n] => [if isSurrogate n then replacement else Char.ofNat n]
  | n :: m :: rest =>
    match decodePair n m with
    | some c => c :: joinUnits rest
    | none => (if isSurrogate n then replacement else Char.ofNat n) :: joinUnits (m :: rest)

def unquote (raw : List Char) : List Char := joinUnits (units raw)

/-- A character is no surrogate. -/
theorem isSurrogate_toNat (c : Char) : isSurrogate c.toNat = false := by
  have h := c.valid
  simp only [isSurrogate, decide_eq_false_iff_not, not_and, not_lt]
  rcases h with h | h
  · intro hLe
    exact absurd h (by change ¬ c.toNat < 0xD800; omega)
  · intro _
    have : 0xDFFF < c.toNat := h.1
    omega

theorem joinUnits_toNat (s : List Char) : joinUnits (s.map Char.toNat) = s := by
  induction s with
  | nil => rfl
  | cons c s ih =>
      have hSurrogate := isSurrogate_toNat c
      cases s with
      | nil => simp [joinUnits, hSurrogate]
      | cons c' s =>
          have hPair : decodePair c.toNat c'.toNat = none := by
            rw [decodePair, if_neg]
            simp only [isSurrogate, decide_eq_false_iff_not] at hSurrogate
            omega
          rw [List.map_cons, List.map_cons, joinUnits, hPair, ← List.map_cons, ih]
          simp [hSurrogate]

theorem readHex4_hex4 {n : Nat} (h : n < 65536) :
    ∃ a b c d, hex4 n = [a, b, c, d] ∧ readHex4 a b c d = n := by
  refine ⟨_, _, _, _, rfl, ?_⟩
  have hDigit : ∀ m, (Text.hexDigit? (Nat.digitChar (m % 16))).getD 0 = m % 16 := by
    intro m
    rw [Text.hexDigit?_digitChar (Nat.mod_lt m (by omega)), Option.getD_some]
  simp only [readHex4, List.foldl_cons, List.foldl_nil, hDigit]
  omega

theorem units_escapeChar (c : Char) (rest : List Char) :
    units (escapeChar c ++ rest) = c.toNat :: units rest := by
  unfold escapeChar
  split_ifs with hQuote hLine hReturn hTab hEscape
  · rcases hQuote with rfl | rfl <;> rfl
  · subst hLine
    rfl
  · subst hReturn
    rfl
  · subst hTab
    rfl
  · have hSmall : c.toNat < 65536 := by
      rcases hEscape with h | rfl | rfl | rfl | h | h
      · omega
      · decide
      · decide
      · decide
      · omega
      · omega
    obtain ⟨a, b, c', d, hHex, hRead⟩ := readHex4_hex4 hSmall
    rw [hHex]
    simp [units, hRead]
  · have hPlain : c ≠ '\\' := fun h => hQuote (Or.inr h)
    rw [List.singleton_append, units]
    · exact fun _ _ _ _ _ h => absurd h hPlain
    · exact fun _ _ h => absurd h hPlain

theorem unquote_escape (s : List Char) : unquote (escape s) = s := by
  have hUnits : units (escape s) = s.map Char.toNat := by
    induction s with
    | nil => rfl
    | cons c s ih =>
        rw [escape, List.flatMap_cons, units_escapeChar, List.map_cons]
        exact congrArg _ ih
  rw [unquote, hUnits, joinUnits_toNat]

end Strings

section Scanner

inductive Token where
  | lbrace
  | rbrace
  | lbrack
  | rbrack
  | colon
  | comma
  | null
  | bool (b : Bool)
  | num (literal : List Char)
  | str (s : String)
deriving DecidableEq

/-- How much of a number has been read. -/
inductive NumState where
  | neg
  | zero
  | digits
  | dot
  | frac
  | exp
  | expSign
  | expDigits
deriving DecidableEq

/-- A number may end here. -/
def NumState.complete : NumState → Bool
  | .zero | .digits | .frac | .expDigits => true
  | _ => false

/-- The next character of a number, if there is one more. -/
def NumState.next (st : NumState) (c : Char) : Option NumState :=
  match st with
  | .neg => if c = '0' then some .zero else if c.isDigit then some .digits else none
  | .zero => if c = '.' then some .dot else if c = 'e' ∨ c = 'E' then some .exp else none
  | .digits =>
    if c.isDigit then some .digits
    else if c = '.' then some .dot
    else if c = 'e' ∨ c = 'E' then some .exp
    else none
  | .dot => if c.isDigit then some .frac else none
  | .frac =>
    if c.isDigit then some .frac else if c = 'e' ∨ c = 'E' then some .exp else none
  | .exp =>
    if c = '+' ∨ c = '-' then some .expSign else if c.isDigit then some .expDigits else none
  | .expSign => if c.isDigit then some .expDigits else none
  | .expDigits => if c.isDigit then some .expDigits else none

def startNum (c : Char) : Option NumState :=
  if c = '-' then some .neg else NumState.neg.next c

/-- Where the scanner stands. -/
inductive ScanMode where
  | idle
  /-- Inside a name, with what must follow and the token that it makes. -/
  | word (next : Char) (rest : List Char) (t : Token)
  | num (st : NumState) (literal : List Char)
  | str (raw : List Char)
  /-- After a backslash. -/
  | esc (raw : List Char)
  /-- Inside an escape sequence, before so many more digits. -/
  | hex (digits : Nat) (raw : List Char)

def isBlank (c : Char) : Bool := c = ' ' ∨ c = '\t' ∨ c = '\r' ∨ c = '\n'

/-- The character that starts a token. -/
def startToken (toks : List Token) (c : Char) : Option (List Token × ScanMode) :=
  if isBlank c then some (toks, .idle)
  else if c = '{' then some (toks ++ [.lbrace], .idle)
  else if c = '}' then some (toks ++ [.rbrace], .idle)
  else if c = '[' then some (toks ++ [.lbrack], .idle)
  else if c = ']' then some (toks ++ [.rbrack], .idle)
  else if c = ':' then some (toks ++ [.colon], .idle)
  else if c = ',' then some (toks ++ [.comma], .idle)
  else if c = '"' then some (toks, .str [])
  else if c = 't' then some (toks, .word 'r' ['u', 'e'] (.bool true))
  else if c = 'f' then some (toks, .word 'a' ['l', 's', 'e'] (.bool false))
  else if c = 'n' then some (toks, .word 'u' ['l', 'l'] .null)
  else (startNum c).map (fun st => (toks, .num st [c]))

def scanStep : List Token × ScanMode → Char → Option (List Token × ScanMode)
  | (toks, .idle), c => startToken toks c
  | (toks, .word next [] t), c => if c = next then some (toks ++ [t], .idle) else none
  | (toks, .word next (w :: rest) t), c =>
    if c = next then some (toks, .word w rest t) else none
  | (toks, .num st literal), c =>
    match st.next c with
    | some st => some (toks, .num st (literal ++ [c]))
    | none => if st.complete then startToken (toks ++ [.num literal]) c else none
  | (toks, .str raw), c =>
    if c = '"' then some (toks ++ [.str (String.ofList (unquote raw))], .idle)
    else if c = '\\' then some (toks, .esc raw)
    else if c.toNat < 0x20 then none
    else some (toks, .str (raw ++ [c]))
  | (toks, .esc raw), c =>
    if c = 'u' then some (toks, .hex 4 (raw ++ ['\\', c]))
    else if c ∈ ['b', 'f', 'n', 'r', 't', '\\', '/', '"'] then
      some (toks, .str (raw ++ ['\\', c]))
    else none
  | (toks, .hex digits raw), c =>
    if (Text.hexDigit? c).isSome then
      if digits ≤ 1 then some (toks, .str (raw ++ [c]))
      else some (toks, .hex (digits - 1) (raw ++ [c]))
    else none

/-- A text may end between tokens and after a number. -/
def scanEnd : List Token × ScanMode → Option (List Token)
  | (toks, .idle) => some toks
  | (toks, .num st literal) => if st.complete then some (toks ++ [.num literal]) else none
  | _ => none

def scanFrom (state : List Token × ScanMode) (s : List Char) : Option (List Token) :=
  (s.foldlM scanStep state).bind scanEnd

def scan (s : List Char) : Option (List Token) := scanFrom ([], .idle) s

end Scanner

section Parser

/-- An array or object that is still open, with what it holds so far. -/
inductive Frame where
  | arr (elems : List Json)
  | obj (fields : List (String × Json))
  /-- An object that waits for the value of its last key. -/
  | field (fields : List (String × Json)) (key : String)

/-- What may come next. -/
inductive Expect where
  | value
  | valueOrEnd
  | keyOrEnd
  | key
  | colon (key : String)
  /-- The end of what is open, or a comma. -/
  | after
  | nothing (v : Json)

/-- Put a complete value into what is open. -/
def deliver (v : Json) : List Frame → List Frame × Expect
  | [] => ([], .nothing v)
  | .arr elems :: stack => (.arr (elems ++ [v]) :: stack, .after)
  | .field fields key :: stack => (.obj (fields ++ [(key, v)]) :: stack, .after)
  | .obj fields :: stack => (.obj fields :: stack, .nothing v)

/-- The token that starts a value. -/
def startValue (stack : List Frame) : Token → Option (List Frame × Expect)
  | .null => some (deliver .null stack)
  | .bool b => some (deliver (.bool b) stack)
  | .num literal => some (deliver (.num literal) stack)
  | .str s => some (deliver (.str s) stack)
  | .lbrack => some (.arr [] :: stack, .valueOrEnd)
  | .lbrace => some (.obj [] :: stack, .keyOrEnd)
  | _ => none

def parseStep : List Frame × Expect → Token → Option (List Frame × Expect)
  | (stack, .value), t => startValue stack t
  | (.arr elems :: stack, .valueOrEnd), .rbrack => some (deliver (.arr elems) stack)
  | (stack, .valueOrEnd), t => startValue stack t
  | (.obj fields :: stack, .keyOrEnd), .rbrace => some (deliver (.obj fields) stack)
  | (stack, .keyOrEnd), .str key => some (stack, .colon key)
  | (stack, .key), .str key => some (stack, .colon key)
  | (.obj fields :: stack, .colon key), .colon => some (.field fields key :: stack, .value)
  | (.arr elems :: stack, .after), .comma => some (.arr elems :: stack, .value)
  | (.arr elems :: stack, .after), .rbrack => some (deliver (.arr elems) stack)
  | (.obj fields :: stack, .after), .comma => some (.obj fields :: stack, .key)
  | (.obj fields :: stack, .after), .rbrace => some (deliver (.obj fields) stack)
  | _, _ => none

def parseFrom (state : List Frame × Expect) (toks : List Token) : Option Json :=
  match toks.foldlM parseStep state with
  | some ([], .nothing v) => some v
  | _ => none

/-- Read a text that holds one value. -/
def parse (s : String) : Option Json := (scan s.toList).bind (parseFrom ([], .value))

end Parser

section Printer

/-- The blanks of a layout: what stands before the elements at a depth, and
after a colon. -/
structure Layout where
  newline : Nat → List Char
  gap : List Char

/-- Everything on one line. -/
def compact : Layout := ⟨fun _ => [], []⟩

/-- A line for each element, indented by a number of blanks. -/
def indented (width : Nat) : Layout := ⟨fun d => '\n' :: List.replicate (width * d) ' ', [' ']⟩

def quote (s : String) : List Char := '"' :: (escape s.toList ++ ['"'])

mutual

/-- The text of a value that stands at a depth. -/
def text (lay : Layout) (d : Nat) : Json → List Char
  | .null => "null".toList
  | .bool true => "true".toList
  | .bool false => "false".toList
  | .num literal => literal
  | .str s => quote s
  | .arr [] => ['[', ']']
  | .arr (v :: vs) =>
    '[' :: (lay.newline (d + 1) ++ (text lay (d + 1) v ++ (textElems lay (d + 1) vs ++
      (lay.newline d ++ [']']))))
  | .obj [] => ['{', '}']
  | .obj ((key, v) :: fs) =>
    '{' :: (lay.newline (d + 1) ++ (quote key ++ (':' :: (lay.gap ++ (text lay (d + 1) v ++
      (textFields lay (d + 1) fs ++ (lay.newline d ++ ['}'])))))))

/-- The elements after the first one. -/
def textElems (lay : Layout) (d : Nat) : List Json → List Char
  | [] => []
  | v :: vs => ',' :: (lay.newline d ++ (text lay d v ++ textElems lay d vs))

def textFields (lay : Layout) (d : Nat) : List (String × Json) → List Char
  | [] => []
  | (key, v) :: fs =>
    ',' :: (lay.newline d ++ (quote key ++ (':' :: (lay.gap ++ (text lay d v ++
      textFields lay d fs)))))

end

/-- The text of a value on its own. -/
def print (lay : Layout) (v : Json) : String := String.ofList (text lay 0 v)

mutual

def tokens : Json → List Token
  | .null => [.null]
  | .bool b => [.bool b]
  | .num literal => [.num literal]
  | .str s => [.str s]
  | .arr [] => [.lbrack, .rbrack]
  | .arr (v :: vs) => .lbrack :: (tokens v ++ (tokensElems vs ++ [.rbrack]))
  | .obj [] => [.lbrace, .rbrace]
  | .obj ((key, v) :: fs) =>
    .lbrace :: .str key :: .colon :: (tokens v ++ (tokensFields fs ++ [.rbrace]))

def tokensElems : List Json → List Token
  | [] => []
  | v :: vs => .comma :: (tokens v ++ tokensElems vs)

def tokensFields : List (String × Json) → List Token
  | [] => []
  | (key, v) :: fs => .comma :: .str key :: .colon :: (tokens v ++ tokensFields fs)

end

end Printer

section Scanned

/-- A text that cannot continue a number. -/
def Delimited (s : List Char) : Prop := ∀ c ∈ s.head?, ∀ st : NumState, st.next c = none

/-- Between tokens, the text is scanned as these tokens. -/
def Scans (s : List Char) (ts : List Token) : Prop :=
  ∀ toks rest, Delimited rest →
    scanFrom (toks, .idle) (s ++ rest) = scanFrom (toks ++ ts, .idle) rest

/-- Blanks may stand between tokens. -/
structure Layout.Blank (lay : Layout) : Prop where
  newline : ∀ d, ∀ c ∈ lay.newline d, isBlank c = true
  gap : ∀ c ∈ lay.gap, isBlank c = true

theorem scanFrom_cons {state state' : List Token × ScanMode} {c : Char}
    (h : scanStep state c = some state') (s : List Char) :
    scanFrom state (c :: s) = scanFrom state' s := by
  rw [scanFrom, List.foldlM_cons, h]
  rfl

theorem scanFrom_append {state state' : List Token × ScanMode} {s : List Char}
    (h : s.foldlM scanStep state = some state') (rest : List Char) :
    scanFrom state (s ++ rest) = scanFrom state' rest := by
  rw [scanFrom, List.foldlM_append, h]
  rfl

theorem Delimited.cons {c : Char} (h : ∀ st : NumState, st.next c = none) (s : List Char) :
    Delimited (c :: s) := by
  intro c' hc'
  rw [List.head?_cons, Option.mem_some_iff] at hc'
  exact hc' ▸ h

theorem Scans.nil : Scans [] [] := fun toks rest _ => by rw [List.append_nil, List.nil_append]

/-- The first of two texts ends before the second one starts. -/
theorem Scans.append {s s' : List Char} {ts ts' : List Token} (h : Scans s ts)
    (h' : Scans s' ts') (hEnd : ∀ rest, Delimited rest → Delimited (s' ++ rest)) :
    Scans (s ++ s') (ts ++ ts') := by
  intro toks rest hRest
  rw [List.append_assoc, h toks (s' ++ rest) (hEnd rest hRest), h' _ rest hRest,
    List.append_assoc]

/-- A character that is a token of its own. -/
theorem Scans.cons {s : List Char} {ts : List Token} {c : Char} {t : Token}
    (hStep : ∀ toks, scanStep (toks, .idle) c = some (toks ++ [t], .idle)) (h : Scans s ts) :
    Scans (c :: s) (t :: ts) := by
  intro toks rest hRest
  rw [List.cons_append, scanFrom_cons (hStep toks), h _ rest hRest, List.append_assoc,
    List.singleton_append]

theorem Scans.blanks {s blanks : List Char} {ts : List Token}
    (hBlank : ∀ c ∈ blanks, isBlank c = true) (h : Scans s ts) : Scans (blanks ++ s) ts := by
  induction blanks with
  | nil => exact h
  | cons c blanks ih =>
      intro toks rest hRest
      have hStep : scanStep (toks, .idle) c = some (toks, .idle) := by
        rw [scanStep, startToken, if_pos (hBlank c (List.mem_cons_self ..))]
      rw [List.cons_append, List.cons_append, scanFrom_cons hStep]
      exact ih (fun c hc => hBlank c (List.mem_cons_of_mem _ hc)) toks rest hRest

theorem foldlM_escapeChar (toks : List Token) (raw : List Char) (c : Char) :
    (escapeChar c).foldlM scanStep (toks, .str raw) = some (toks, .str (raw ++ escapeChar c)) := by
  unfold escapeChar
  split_ifs with hQuote hLine hReturn hTab hEscape
  · rcases hQuote with rfl | rfl <;> rfl
  · rfl
  · rfl
  · rfl
  · have hDigit : ∀ m, (Text.hexDigit? (Nat.digitChar (m % 16))).isSome = true := by
      intro m
      rw [Text.hexDigit?_digitChar (Nat.mod_lt m (by omega))]
      rfl
    simp [hex4, scanStep, hDigit]
  · have hPlain : c ≠ '"' ∧ c ≠ '\\' := not_or.mp hQuote
    have hControl : ¬ c.toNat < 0x20 := fun h => hEscape (Or.inl h)
    simp [scanStep, hPlain.1, hPlain.2, hControl]

theorem foldlM_escape (toks : List Token) (raw s : List Char) :
    (escape s).foldlM scanStep (toks, .str raw) = some (toks, .str (raw ++ escape s)) := by
  induction s generalizing raw with
  | nil => simp [escape]
  | cons c s ih =>
      rw [escape, List.flatMap_cons, List.foldlM_append, foldlM_escapeChar]
      change (escape s).foldlM scanStep _ = _
      rw [ih, List.append_assoc]
      rfl

theorem Scans.quote (key : String) {s : List Char} {ts : List Token} (h : Scans s ts) :
    Scans (quote key ++ s) (.str key :: ts) := by
  intro toks rest hRest
  have hOpen : scanStep (toks, .idle) '"' = some (toks, .str []) := rfl
  have hClose : scanStep (toks, .str (escape key.toList)) '"' =
      some (toks ++ [.str key], .idle) := by
    rw [scanStep, if_pos rfl, unquote_escape, String.ofList_toList]
  rw [Json.quote, List.cons_append, List.cons_append, scanFrom_cons hOpen, List.append_assoc,
    List.append_assoc, scanFrom_append (foldlM_escape toks [] _), List.nil_append,
    List.singleton_append, scanFrom_cons hClose, h _ rest hRest, List.append_assoc,
    List.singleton_append]

/-- A text that ends a value before it, whatever comes after. -/
def Ends (s : List Char) : Prop := ∀ rest, Delimited (s ++ rest)

theorem next_eq_none_of_isBlank {c : Char} (h : isBlank c = true) (st : NumState) :
    st.next c = none := by
  simp only [isBlank, decide_eq_true_eq] at h
  rcases h with rfl | rfl | rfl | rfl <;> cases st <;> rfl

theorem Ends.cons {c : Char} (h : ∀ st : NumState, st.next c = none) (s : List Char) :
    Ends (c :: s) := fun rest => Delimited.cons h (s ++ rest)

theorem Ends.blanks {blanks s : List Char} (hBlank : ∀ c ∈ blanks, isBlank c = true)
    (h : Ends s) : Ends (blanks ++ s) := by
  cases blanks with
  | nil => exact h
  | cons c blanks =>
      exact Ends.cons (next_eq_none_of_isBlank (hBlank c (List.mem_cons_self ..))) _

theorem Ends.append {s s' : List Char} (h : Ends s) : Ends (s ++ s') := by
  intro rest
  rw [List.append_assoc]
  exact h (s' ++ rest)

theorem Scans.append_of_ends {s s' : List Char} {ts ts' : List Token} (h : Scans s ts)
    (h' : Scans s' ts') (hEnds : Ends s') : Scans (s ++ s') (ts ++ ts') :=
  h.append h' (fun rest _ => hEnds rest)

/-- The literals that the scanner takes for one number. -/
def IsLiteral : List Char → Prop
  | [] => False
  | c :: s => ∃ st st', startNum c = some st ∧ s.foldlM NumState.next st = some st' ∧
    st'.complete = true

theorem foldlM_next {st st' : NumState} {s : List Char} (h : s.foldlM NumState.next st = some st')
    (toks : List Token) (literal : List Char) :
    s.foldlM scanStep (toks, .num st literal) = some (toks, .num st' (literal ++ s)) := by
  induction s generalizing st literal with
  | nil =>
      obtain rfl : st = st' := Option.some.inj h
      simp
  | cons c s ih =>
      rw [List.foldlM_cons] at h ⊢
      obtain ⟨mid, hNext, hRest⟩ := Option.bind_eq_some_iff.mp h
      have hStep : scanStep (toks, .num st literal) c = some (toks, .num mid (literal ++ [c])) := by
        rw [scanStep, hNext]
      rw [hStep, List.append_cons literal c s]
      exact ih hRest (literal ++ [c])

/-- A complete number is noticed at the next character or at the end. -/
theorem scanFrom_num {st : NumState} (hComplete : st.complete = true) (toks : List Token)
    (literal : List Char) {rest : List Char} (hRest : Delimited rest) :
    scanFrom (toks, .num st literal) rest = scanFrom (toks ++ [.num literal], .idle) rest := by
  cases rest with
  | nil => simp [scanFrom, scanEnd, hComplete]
  | cons c rest =>
      have hStep : scanStep (toks, .num st literal) c =
          scanStep (toks ++ [.num literal], .idle) c := by
        simp only [scanStep, hRest c rfl st, hComplete, if_true]
      rw [scanFrom, scanFrom, List.foldlM_cons, List.foldlM_cons, hStep]

theorem startNum_cases {c : Char} {st : NumState} (h : startNum c = some st) :
    c = '-' ∨ c.isDigit = true := by
  simp only [startNum, NumState.next] at h
  split_ifs at h with hMinus hZero hDigit
  · exact Or.inl hMinus
  · exact Or.inr (hZero ▸ rfl)
  · exact Or.inr hDigit

theorem scanStep_startNum {c : Char} {st : NumState} (h : startNum c = some st)
    (toks : List Token) : scanStep (toks, .idle) c = some (toks, .num st [c]) := by
  have hOther : ∀ c' : Char, c' ≠ '-' → c'.isDigit = false → c ≠ c' := by
    intro c' hMinus hDigit hEq
    rcases startNum_cases h with h | h
    · exact hMinus (hEq ▸ h)
    · rw [hEq, hDigit] at h
      cases h
  have hBlank : isBlank c = false := by
    simp only [isBlank, decide_eq_false_iff_not, not_or]
    exact ⟨hOther _ (by decide) (by decide), hOther _ (by decide) (by decide),
      hOther _ (by decide) (by decide), hOther _ (by decide) (by decide)⟩
  rw [scanStep, startToken, hBlank]
  simp only [Bool.false_eq_true, if_false, h, Option.map_some,
    if_neg (hOther '{' (by decide) (by decide)), if_neg (hOther '}' (by decide) (by decide)),
    if_neg (hOther '[' (by decide) (by decide)), if_neg (hOther ']' (by decide) (by decide)),
    if_neg (hOther ':' (by decide) (by decide)), if_neg (hOther ',' (by decide) (by decide)),
    if_neg (hOther '"' (by decide) (by decide)), if_neg (hOther 't' (by decide) (by decide)),
    if_neg (hOther 'f' (by decide) (by decide)), if_neg (hOther 'n' (by decide) (by decide))]

theorem Scans.num {literal : List Char} (h : IsLiteral literal) :
    Scans literal [.num literal] := by
  cases literal with
  | nil => exact h.elim
  | cons c s =>
      obtain ⟨st, st', hStart, hRun, hComplete⟩ := h
      intro toks rest hRest
      rw [List.cons_append, scanFrom_cons (scanStep_startNum hStart toks),
        scanFrom_append (foldlM_next hRun toks [c])]
      exact scanFrom_num hComplete toks _ hRest

/-- A name of a value. -/
theorem Scans.word {s : List Char} {t : Token}
    (h : ∀ toks, s.foldlM scanStep (toks, .idle) = some (toks ++ [t], .idle)) : Scans s [t] :=
  fun toks rest _ => scanFrom_append (h toks) rest

/-- Values whose numbers are literals. -/
inductive Printable : Json → Prop where
  | null : Printable .null
  | bool (b : Bool) : Printable (.bool b)
  | num {literal : List Char} (h : IsLiteral literal) : Printable (.num literal)
  | str (s : String) : Printable (.str s)
  | arr {elems : List Json} (h : ∀ v ∈ elems, Printable v) : Printable (.arr elems)
  | obj {fields : List (String × Json)} (h : ∀ f ∈ fields, Printable f.2) : Printable (.obj fields)

variable {lay : Layout}

theorem ends_textElems {d : Nat} {vs : List Json} {s : List Char} (h : Ends s) :
    Ends (textElems lay d vs ++ s) := by
  cases vs with
  | nil => simpa [textElems] using h
  | cons v vs =>
      rw [textElems]
      exact (Ends.cons (fun st => by cases st <;> rfl) _).append

theorem ends_textFields {d : Nat} {fs : List (String × Json)} {s : List Char} (h : Ends s) :
    Ends (textFields lay d fs ++ s) := by
  cases fs with
  | nil => simpa [textFields] using h
  | cons f fs =>
      rw [textFields]
      exact (Ends.cons (fun st => by cases st <;> rfl) _).append

theorem scans_textElems (hLay : lay.Blank) {d : Nat} {vs : List Json}
    (hElems : ∀ v ∈ vs, Scans (text lay d v) (tokens v)) {s : List Char} {ts : List Token}
    (h : Scans s ts) (hEnds : Ends s) :
    Scans (textElems lay d vs ++ s) (tokensElems vs ++ ts) := by
  induction vs with
  | nil => simpa [textElems, tokensElems] using h
  | cons v vs ih =>
      have hRest := ih (fun v hv => hElems v (List.mem_cons_of_mem _ hv))
      have hFirst := (hElems v (List.mem_cons_self ..)).append_of_ends hRest (ends_textElems hEnds)
      rw [textElems, tokensElems]
      simp only [List.cons_append, List.append_assoc]
      exact Scans.cons (fun _ => rfl) (hFirst.blanks (hLay.newline d))

theorem scans_textFields (hLay : lay.Blank) {d : Nat} {fs : List (String × Json)}
    (hFields : ∀ f ∈ fs, Scans (text lay d f.2) (tokens f.2)) {s : List Char} {ts : List Token}
    (h : Scans s ts) (hEnds : Ends s) :
    Scans (textFields lay d fs ++ s) (tokensFields fs ++ ts) := by
  induction fs with
  | nil => simpa [textFields, tokensFields] using h
  | cons f fs ih =>
      have hRest := ih (fun f hf => hFields f (List.mem_cons_of_mem _ hf))
      have hFirst := (hFields f (List.mem_cons_self ..)).append_of_ends hRest (ends_textFields hEnds)
      obtain ⟨key, v⟩ := f
      rw [textFields, tokensFields]
      simp only [List.cons_append, List.append_assoc]
      exact Scans.cons (fun _ => rfl) (Scans.blanks (hLay.newline d) (Scans.quote key
        (Scans.cons (fun _ => rfl) (hFirst.blanks hLay.gap))))

/-- A printed value is scanned as its tokens. -/
theorem Printable.scans (hLay : lay.Blank) {v : Json} (h : Printable v) (d : Nat) :
    Scans (text lay d v) (tokens v) := by
  induction h generalizing d with
  | null => exact Scans.word (fun _ => rfl)
  | bool b => cases b <;> exact Scans.word (fun _ => rfl)
  | num h =>
      rw [text, tokens]
      exact Scans.num h
  | str s =>
      rw [text, tokens, ← List.append_nil (quote s)]
      exact Scans.quote s Scans.nil
  | @arr elems _ ih =>
      have hClose : Scans (lay.newline d ++ [']']) [.rbrack] :=
        Scans.blanks (hLay.newline d) (Scans.cons (fun _ => rfl) Scans.nil)
      have hEnds : Ends (lay.newline d ++ [']']) :=
        Ends.blanks (hLay.newline d) (Ends.cons (fun st => by cases st <;> rfl) [])
      cases elems with
      | nil =>
          rw [text, tokens]
          exact Scans.cons (fun _ => rfl) (Scans.cons (fun _ => rfl) Scans.nil)
      | cons v vs =>
          rw [text, tokens]
          have hRest := scans_textElems hLay
            (fun w hw => ih w (List.mem_cons_of_mem _ hw) (d + 1)) hClose hEnds
          exact Scans.cons (fun _ => rfl) (Scans.blanks (hLay.newline (d + 1))
            ((ih v (List.mem_cons_self ..) (d + 1)).append_of_ends hRest (ends_textElems hEnds)))
  | @obj fields _ ih =>
      have hClose : Scans (lay.newline d ++ ['}']) [.rbrace] :=
        Scans.blanks (hLay.newline d) (Scans.cons (fun _ => rfl) Scans.nil)
      have hEnds : Ends (lay.newline d ++ ['}']) :=
        Ends.blanks (hLay.newline d) (Ends.cons (fun st => by cases st <;> rfl) [])
      cases fields with
      | nil =>
          rw [text, tokens]
          exact Scans.cons (fun _ => rfl) (Scans.cons (fun _ => rfl) Scans.nil)
      | cons f fs =>
          obtain ⟨key, v⟩ := f
          rw [text, tokens]
          have hRest := scans_textFields hLay
            (fun w hw => ih w (List.mem_cons_of_mem _ hw) (d + 1)) hClose hEnds
          have hFirst := (ih (key, v) (List.mem_cons_self ..) (d + 1)).append_of_ends hRest
            (ends_textFields hEnds)
          exact Scans.cons (fun _ => rfl) (Scans.blanks (hLay.newline (d + 1)) (Scans.quote key
            (Scans.cons (fun _ => rfl) (hFirst.blanks hLay.gap))))

theorem Printable.scan_text (hLay : lay.Blank) {v : Json} (h : Printable v) :
    scan (text lay 0 v) = some (tokens v) := by
  have hScans := h.scans hLay 0 [] [] (by simp [Delimited])
  rw [List.append_nil, List.nil_append] at hScans
  exact hScans

end Scanned

section Parsed

/-- Where a value may come. -/
def Expect.takesValue : Expect → Bool
  | .value | .valueOrEnd => true
  | _ => false

theorem parseStep_startValue {stack : List Frame} {e : Expect} {t : Token}
    {state : List Frame × Expect} (he : e.takesValue = true)
    (h : startValue stack t = some state) : parseStep (stack, e) t = some state := by
  cases e with
  | value => simpa [parseStep] using h
  | valueOrEnd =>
      cases t with
      | rbrack => cases h
      | _ => simpa [parseStep] using h
  | _ => cases he

/-- The tokens of a value that may come here deliver it. -/
def Delivers (v : Json) : Prop :=
  ∀ stack e, e.takesValue = true →
    (tokens v).foldlM parseStep (stack, e) = some (deliver v stack)

theorem delivers_elems {vs : List Json} (h : ∀ v ∈ vs, Delivers v) (elems : List Json)
    (stack : List Frame) :
    (tokensElems vs).foldlM parseStep (.arr elems :: stack, .after) =
      some (.arr (elems ++ vs) :: stack, .after) := by
  induction vs generalizing elems with
  | nil => simp [tokensElems]
  | cons v vs ih =>
      have hFirst := h v (List.mem_cons_self ..) (.arr elems :: stack) .value rfl
      have hRest := ih (fun w hw => h w (List.mem_cons_of_mem _ hw)) (elems ++ [v])
      rw [List.append_assoc, List.singleton_append] at hRest
      rw [tokensElems, List.foldlM_cons]
      change (tokens v ++ tokensElems vs).foldlM parseStep (.arr elems :: stack, .value) = _
      rw [List.foldlM_append, hFirst]
      exact hRest

theorem delivers_fields {fs : List (String × Json)} (h : ∀ f ∈ fs, Delivers f.2)
    (fields : List (String × Json)) (stack : List Frame) :
    (tokensFields fs).foldlM parseStep (.obj fields :: stack, .after) =
      some (.obj (fields ++ fs) :: stack, .after) := by
  induction fs generalizing fields with
  | nil => simp [tokensFields]
  | cons f fs ih =>
      obtain ⟨key, v⟩ := f
      have hFirst := h (key, v) (List.mem_cons_self ..) (.field fields key :: stack) .value rfl
      have hRest := ih (fun w hw => h w (List.mem_cons_of_mem _ hw)) (fields ++ [(key, v)])
      rw [List.append_assoc, List.singleton_append] at hRest
      rw [tokensFields, List.foldlM_cons]
      change (tokens v ++ tokensFields fs).foldlM parseStep
        (.field fields key :: stack, .value) = _
      rw [List.foldlM_append, hFirst]
      exact hRest

theorem Printable.delivers {v : Json} (h : Printable v) : Delivers v := by
  induction h with
  | null | bool | num | str =>
      intro stack e he
      rw [tokens, List.foldlM_cons, parseStep_startValue he rfl]
      rfl
  | @arr elems _ ih =>
      intro stack e he
      cases elems with
      | nil =>
          rw [tokens, List.foldlM_cons, parseStep_startValue he rfl]
          rfl
      | cons v vs =>
          have hFirst := ih v (List.mem_cons_self ..) (.arr [] :: stack) .valueOrEnd rfl
          have hRest := delivers_elems (fun w hw => ih w (List.mem_cons_of_mem _ hw)) [v] stack
          rw [tokens, List.foldlM_cons, parseStep_startValue he rfl]
          change (tokens v ++ (tokensElems vs ++ [Token.rbrack])).foldlM parseStep
            (.arr [] :: stack, .valueOrEnd) = _
          rw [List.foldlM_append, hFirst]
          change (tokensElems vs ++ [Token.rbrack]).foldlM parseStep (.arr [v] :: stack, .after) = _
          rw [List.foldlM_append, hRest]
          rfl
  | @obj fields _ ih =>
      intro stack e he
      cases fields with
      | nil =>
          rw [tokens, List.foldlM_cons, parseStep_startValue he rfl]
          rfl
      | cons f fs =>
          obtain ⟨key, v⟩ := f
          have hFirst := ih (key, v) (List.mem_cons_self ..) (.field [] key :: stack) .value rfl
          have hRest := delivers_fields (fun w hw => ih w (List.mem_cons_of_mem _ hw))
            [(key, v)] stack
          rw [tokens, List.foldlM_cons, parseStep_startValue he rfl]
          change (tokens v ++ (tokensFields fs ++ [Token.rbrace])).foldlM parseStep
            (.field [] key :: stack, .value) = _
          rw [List.foldlM_append, hFirst]
          change (tokensFields fs ++ [Token.rbrace]).foldlM parseStep
            (.obj [(key, v)] :: stack, .after) = _
          rw [List.foldlM_append, hRest]
          rfl

/-- A printed value is read back. -/
theorem Printable.parse_print {lay : Layout} (hLay : lay.Blank) {v : Json} (h : Printable v) :
    parse (print lay v) = some v := by
  have hTokens := h.delivers [] .value rfl
  rw [parse, print, String.toList_ofList, h.scan_text hLay]
  simp only [Option.bind_some, parseFrom, hTokens, deliver]

theorem compact_blank : compact.Blank where
  newline := by simp [compact]
  gap := by simp [compact]

theorem indented_blank (width : Nat) : (indented width).Blank where
  newline := by
    intro d c hc
    rcases List.mem_cons.mp hc with rfl | hc
    · rfl
    · rw [List.eq_of_mem_replicate hc]
      rfl
  gap := by
    intro c hc
    rw [List.mem_singleton.mp hc]
    rfl

end Parsed

section Numbers

/-- The digits of a number after a minus sign. -/
theorem foldlM_next_toDigits (n : Nat) :
    (Nat.toDigits 10 n).foldlM NumState.next .neg = some (if n = 0 then .zero else .digits) := by
  induction n using Nat.strong_induction_on with
  | _ n ih =>
      rcases Nat.lt_or_ge n 10 with hn | hn
      · rw [Nat.toDigits_of_lt_base hn]
        have hAll : ∀ n, n < 10 → [Nat.digitChar n].foldlM NumState.next .neg =
          some (if n = 0 then .zero else .digits) := by decide
        exact hAll n hn
      · rw [Nat.toDigits_of_base_le (by omega) hn, List.foldlM_append, ih (n / 10) (by omega),
          if_neg (by omega), if_neg (by omega)]
        have hAll : ∀ m, m < 10 → [Nat.digitChar m].foldlM NumState.next .digits =
          some .digits := by decide
        exact hAll (n % 10) (Nat.mod_lt n (by omega))

theorem isLiteral_int (n : Int) : IsLiteral n.repr.toList := by
  have hComplete : ∀ m : Nat, (if m = 0 then NumState.zero else .digits).complete = true := by
    intro m
    split_ifs <;> rfl
  rw [Int.repr_eq_if]
  split_ifs with hn
  · have hRun := foldlM_next_toDigits n.toNat
    rw [← Nat.toList_repr] at hRun
    cases hDigits : n.toNat.repr.toList with
    | nil => exact absurd hDigits (Text.repr_ne_nil _)
    | cons c s =>
        have hDigit : c.isDigit = true :=
          Text.isDigit_of_mem_repr (hDigits ▸ List.mem_cons_self ..)
        have hStart : startNum c = NumState.neg.next c := by
          rw [startNum, if_neg]
          rintro rfl
          cases hDigit
        rw [hDigits, List.foldlM_cons] at hRun
        obtain ⟨st, hNext, hRest⟩ := Option.bind_eq_some_iff.mp hRun
        exact ⟨st, _, hStart.trans hNext, hRest, hComplete _⟩
  · rw [String.toList_append, Nat.toList_repr]
    exact ⟨.neg, _, rfl, foldlM_next_toDigits (-n).toNat, hComplete _⟩

end Numbers

end Json
