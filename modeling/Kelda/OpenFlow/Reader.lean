import Kelda.OpenFlow.Flow

/-! The texts of flows, as `ovs-ofctl` reads them: tests between commas, then
the actions. A comma in parentheses does not separate. -/
namespace OpenFlow

open Net

section Reader

/-- Split a text at the commas outside of parentheses. -/
def splitFields : Nat → List Char → List Char → List (List Char)
  | _, word, [] => [word]
  | depth, word, c :: cs =>
    if c = ',' ∧ depth = 0 then word :: splitFields 0 [] cs
    else if c = '(' then splitFields (depth + 1) (word ++ [c]) cs
    else if c = ')' then splitFields (depth - 1) (word ++ [c]) cs
    else splitFields depth (word ++ [c]) cs

/-- The part before the first equals sign, and the part after it if there is
one. -/
def splitKey (word : List Char) : List Char × Option (List Char) :=
  match word.dropWhile (· ≠ '=') with
  | [] => (word, none)
  | _ :: value => (word.takeWhile (· ≠ '='), some value)

def readPort (s : List Char) : Option Nat :=
  if s = "LOCAL".toList then some localPort else Text.readNat s

/-- The protocols that stand for themselves. -/
def readFlag : String → Option Field
  | "arp" => some .arp
  | "ip" => some .ip
  | "tcp" => some (.proto .tcp)
  | "udp" => some (.proto .udp)
  | _ => none

def readField (key : String) (value : List Char) : Option Field :=
  match key with
  | "in_port" => (readPort value).map .inPort
  | "dl_src" => (MAC.parse (String.ofList value)).map .dlSrc
  | "dl_dst" => (MAC.parse (String.ofList value)).map .dlDst
  | "nw_src" | "ip_src" => (IPv4.parse (String.ofList value)).map (.nw .src)
  | "nw_dst" | "ip_dst" => (IPv4.parse (String.ofList value)).map (.nw .dst)
  | "tp_src" => (Text.readInt value).map (.tp .src)
  | "tp_dst" => (Text.readInt value).map (.tp .dst)
  | _ => none

/-- A key with its value: the table, the priority or a test. -/
def readKey (flow : Flow) (key : String) (value : List Char) : Option Flow :=
  match key with
  | "table" => (Text.readNat value).map (fun n => { flow with table := n })
  | "priority" => (Text.readNat value).map (fun n => { flow with priority := n })
  | key => (readField key value).map (fun field => { flow with fields := flow.fields ++ [field] })

/-- The argument of `load`, which ends in the name of the register. -/
def readLoad (s : List Char) : Option Nat :=
  match s.splitOn '-' with
  | ['0' :: 'x' :: digits, target] =>
    if target = ">NXM_NX_REG0[]".toList then Text.readHex digits else none
  | _ => none

def readAction (s : List Char) : Option Action :=
  match s.splitOn ':' with
  | [name, arg] =>
    if name = "output".toList then
      if arg = "NXM_NX_REG0[]".toList then some .outputReg0 else (readPort arg).map .output
    else if name = "load".toList then (readLoad arg).map .loadReg0
    else none
  | [call] =>
    match call.splitOn ',' with
    | [name, arg] =>
      if name = "resubmit(".toList ∧ arg.getLast? = some ')' then
        (Text.readNat arg.dropLast).map .resubmit
      else none
    | _ => none
  | _ => none

/-- No action at all drops the packet. -/
def readActions : List (List Char) → Option (List Action)
  | [[]] => some []
  | words => words.mapM readAction

/-- The tests of a flow, then its actions. -/
def readWords (flow : Flow) : List (List Char) → Option Flow
  | [] => none
  | word :: words =>
    match splitKey word with
    | (key, none) =>
      match readFlag (String.ofList key) with
      | some field => readWords { flow with fields := flow.fields ++ [field] } words
      | none => none
    | (key, some value) =>
      if String.ofList key = "actions" ∨ String.ofList key = "action" then
        (readActions (value :: words)).map (fun actions => { flow with actions := actions })
      else
        match readKey flow (String.ofList key) value with
        | some flow => readWords flow words
        | none => none

def parse (s : String) : Option Flow := readWords {} (splitFields 0 [] s.toList)

example : parse "table=2,priority=500,tcp,dl_dst=02:00:0a:00:00:05,ip_dst=10.0.0.5,tp_src=80,actions=output:7" =
    some ⟨2, 500, [.proto .tcp, .dlDst ⟨[2, 0, 10, 0, 0, 5], rfl⟩, .nw .dst ⟨10, 0, 0, 5⟩,
      .tp .src 80], [.output 7]⟩ := by decide

end Reader

section Reading

/-- Several texts, each of which is read. -/
theorem exists_mapM {α β : Type} {g : α → Option β} {l : List α}
    (h : ∀ x ∈ l, ∃ y, g x = some y) :
    ∃ ys, l.mapM g = some ys ∧ ∀ y, y ∈ ys ↔ ∃ x ∈ l, g x = some y := by
  induction l with
  | nil => exact ⟨[], rfl, by simp⟩
  | cons x l ih =>
      obtain ⟨y, hy⟩ := h x (List.mem_cons_self ..)
      obtain ⟨ys, hys, hMem⟩ := ih (fun x' hx' => h x' (List.mem_cons_of_mem _ hx'))
      refine ⟨y :: ys, by simp [hy, hys], fun y' => ?_⟩
      simp [hMem, hy, eq_comm]

/-- A text that is not split. -/
def Whole (w : List Char) : Prop :=
  ∀ word cs, splitFields 0 word (w ++ cs) = splitFields 0 (word ++ w) cs

/-- Characters that neither split a text nor protect a comma. -/
def Plain (w : List Char) : Prop := ∀ c ∈ w, c ≠ ',' ∧ c ≠ '(' ∧ c ≠ ')'

theorem splitFields_plain {w : List Char} (h : Plain w) (depth : Nat) (word cs : List Char) :
    splitFields depth word (w ++ cs) = splitFields depth (word ++ w) cs := by
  induction w generalizing word with
  | nil => simp
  | cons c w ih =>
      obtain ⟨hComma, hOpen, hClose⟩ := h c (List.mem_cons_self ..)
      have hRest := ih (fun c' hc' => h c' (List.mem_cons_of_mem _ hc')) (word ++ [c])
      simpa [splitFields, hComma, hOpen, hClose] using hRest

theorem Plain.append {v w : List Char} (hv : Plain v) (hw : Plain w) : Plain (v ++ w) := by
  intro c hc
  rcases List.mem_append.mp hc with hc | hc
  · exact hv c hc
  · exact hw c hc

theorem Plain.whole {w : List Char} (h : Plain w) : Whole w := splitFields_plain h 0

theorem Whole.append {v w : List Char} (hv : Whole v) (hw : Whole w) : Whole (v ++ w) := by
  intro word cs
  rw [List.append_assoc, hv, hw, List.append_assoc]

/-- A comma in parentheses does not split. -/
theorem whole_paren {v w : List Char} (hv : Plain v) (hw : Plain w) :
    Whole (v ++ '(' :: ',' :: (w ++ [')'])) := by
  intro word cs
  rw [List.append_assoc, splitFields_plain hv]
  simp only [List.cons_append, List.append_assoc, List.nil_append, splitFields]
  simp [splitFields_plain hw, splitFields]

theorem Whole.splitFields_comma {w : List Char} (hw : Whole w) (word cs : List Char) :
    splitFields 0 word (w ++ ',' :: cs) = (word ++ w) :: splitFields 0 [] cs := by
  rw [hw]
  simp [splitFields]

theorem Whole.splitFields_end {w : List Char} (hw : Whole w) (word : List Char) :
    splitFields 0 word w = [word ++ w] := by
  have h := hw word []
  rwa [List.append_nil, splitFields] at h

/-- Whole words between commas. -/
theorem splitFields_join (word w : List Char) (ws : List (List Char)) (hw : Whole w)
    (hws : ∀ v ∈ ws, Whole v) :
    splitFields 0 word ([','].intercalate (w :: ws)) = (word ++ w) :: ws := by
  induction ws generalizing word w with
  | nil => simpa [List.intercalate] using hw.splitFields_end word
  | cons v ws ih =>
      have hRest := ih [] v (hws v (List.mem_cons_self ..))
        (fun u hu => hws u (List.mem_cons_of_mem _ hu))
      rw [List.intercalate_cons_cons, List.append_assoc, List.singleton_append,
        hw.splitFields_comma, hRest, List.nil_append]

/-- A word before the actions, and what it does to the flow. -/
structure Reads (w : String) (update : Flow → Flow) : Prop where
  whole : Whole w.toList
  reads : ∀ flow words, readWords flow (w.toList :: words) = readWords (update flow) words

structure ReadsAction (w : String) (action : Action) : Prop where
  whole : Whole w.toList
  reads : readAction w.toList = some action

/-- A word with what it does. -/
structure Word where
  text : String
  update : Flow → Flow
  reads : Reads text update

/-- An action with its text. -/
structure ActionWord where
  text : String
  action : Action
  reads : ReadsAction text action

theorem splitKey_eq {key value : List Char} (h : '=' ∉ key) :
    splitKey (key ++ '=' :: value) = (key, some value) := by
  have hKey : ∀ c ∈ key, (decide (c ≠ '=')) = true := by
    intro c hc
    rw [decide_eq_true_eq]
    rintro rfl
    exact h hc
  have hDrop : (key ++ '=' :: value).dropWhile (· ≠ '=') = '=' :: value := by
    rw [List.dropWhile_append_of_pos hKey]
    rfl
  have hTake : (key ++ '=' :: value).takeWhile (· ≠ '=') = key := by
    rw [List.takeWhile_append_of_pos hKey]
    simp
  rw [splitKey, hDrop]
  dsimp only
  rw [hTake]

theorem splitKey_flag {w : List Char} (h : '=' ∉ w) : splitKey w = (w, none) := by
  have hDrop : w.dropWhile (· ≠ '=') = [] := by
    rw [List.dropWhile_eq_nil_iff]
    intro c hc
    rw [decide_eq_true_eq]
    rintro rfl
    exact h hc
  rw [splitKey, hDrop]

/-- A test of the flow, added to the others. -/
def Flow.addField (field : Field) (flow : Flow) : Flow :=
  { flow with fields := flow.fields ++ [field] }

theorem Reads.flag {w : String} {field : Field} (h : readFlag w = some field) :
    Reads w (Flow.addField field) := by
  have hChars : w.toList.all (fun c => c ≠ ',' ∧ c ≠ '(' ∧ c ≠ ')' ∧ c ≠ '=') = true := by
    unfold readFlag at h
    split at h
    · decide
    · decide
    · decide
    · decide
    · cases h
  simp only [List.all_eq_true, decide_eq_true_eq] at hChars
  constructor
  · exact Plain.whole (fun c hc => ⟨(hChars c hc).1, (hChars c hc).2.1, (hChars c hc).2.2.1⟩)
  · intro flow words
    have hKey : '=' ∉ w.toList := fun hc => (hChars '=' hc).2.2.2 rfl
    rw [readWords, splitKey_flag hKey]
    dsimp only
    rw [String.ofList_toList, h]
    rfl

theorem Reads.key {key value : String} {update : Flow → Flow}
    (hKey : key.toList.all (fun c => c ≠ ',' ∧ c ≠ '(' ∧ c ≠ ')' ∧ c ≠ '=') = true)
    (hValue : Plain value.toList)
    (hNot : ¬(key = "actions" ∨ key = "action"))
    (h : ∀ flow, readKey flow key value.toList = some (update flow)) :
    Reads (key ++ "=" ++ value) update := by
  simp only [List.all_eq_true, decide_eq_true_eq] at hKey
  have hList : (key ++ "=" ++ value).toList = key.toList ++ '=' :: value.toList := by simp
  constructor
  · rw [hList]
    have hPlain : Plain key.toList :=
      fun c hc => ⟨(hKey c hc).1, (hKey c hc).2.1, (hKey c hc).2.2.1⟩
    refine hPlain.whole.append (Plain.whole (fun c hc => ?_))
    rcases List.mem_cons.mp hc with rfl | hc
    · decide
    · exact hValue c hc
  · intro flow words
    rw [hList, readWords, splitKey_eq (fun hc => (hKey '=' hc).2.2.2 rfl)]
    dsimp only
    rw [String.ofList_toList, if_neg hNot, h]

theorem plain_of_isDigit {w : List Char} {d : Char} (hd : d ≠ ',' ∧ d ≠ '(' ∧ d ≠ ')')
    (h : ∀ c ∈ w, c.isDigit ∨ c = d) : Plain w := by
  intro c hc
  rcases h c hc with hDigit | rfl
  · refine ⟨?_, ?_, ?_⟩ <;> rintro rfl <;> exact absurd hDigit (by decide)
  · exact hd

theorem plain_repr (n : Nat) : Plain n.repr.toList :=
  plain_of_isDigit (d := '.') (by decide) (fun _ hc => Or.inl (Text.isDigit_of_mem_repr hc))

theorem plain_int_repr (n : Int) : Plain n.repr.toList :=
  plain_of_isDigit (by decide) (fun _ hc => Text.isDigit_of_mem_int_repr hc)

theorem plain_address (address : IPv4) : Plain address.text.toList :=
  plain_of_isDigit (by decide) (fun _ hc => IPv4.isDigit_of_mem_text hc)

theorem plain_mac (mac : MAC) : Plain mac.text.toList := by
  intro c hc
  rcases MAC.isHex_of_mem_text hc with hHex | rfl
  · refine ⟨?_, ?_, ?_⟩ <;> rintro rfl <;> exact absurd hHex (by decide)
  · decide

theorem readPort_repr (n : Nat) : readPort n.repr.toList = some n := by
  rw [readPort, if_neg, Text.readNat_repr]
  intro hLocal
  have hMem : 'L' ∈ n.repr.toList := by simp [hLocal]
  exact absurd (Text.isDigit_of_mem_repr hMem) (by decide)

theorem Reads.table {n : Nat} {w : String} (h : n.repr = w) :
    Reads ("table" ++ "=" ++ w) (fun flow => { flow with table := n }) :=
  h ▸ Reads.key (by decide) (plain_repr n) (by decide)
    (fun flow => by simp [readKey, -Nat.toList_repr])

theorem Reads.priority {n : Nat} {w : String} (h : n.repr = w) :
    Reads ("priority" ++ "=" ++ w) (fun flow => { flow with priority := n }) :=
  h ▸ Reads.key (by decide) (plain_repr n) (by decide)
    (fun flow => by simp [readKey, -Nat.toList_repr])

/-- The words of tables and priorities, with their numerals. -/
def Word.table (n : Nat) (w : String) (h : n.repr = w) : Word := ⟨_, _, Reads.table h⟩

def Word.priority (n : Nat) (w : String) (h : n.repr = w) : Word := ⟨_, _, Reads.priority h⟩

theorem Reads.inPort (n : Nat) : Reads ("in_port" ++ "=" ++ n.repr) (Flow.addField (.inPort n)) :=
  Reads.key (by decide) (plain_repr n) (by decide)
    (fun flow => by simp [readKey, readField, readPort_repr, Flow.addField, -Nat.toList_repr])

theorem Reads.dlSrc (mac : MAC) : Reads ("dl_src" ++ "=" ++ mac.text) (Flow.addField (.dlSrc mac)) :=
  Reads.key (by decide) (plain_mac mac) (by decide)
    (fun flow => by simp [readKey, readField, Flow.addField])

theorem Reads.dlDst (mac : MAC) : Reads ("dl_dst" ++ "=" ++ mac.text) (Flow.addField (.dlDst mac)) :=
  Reads.key (by decide) (plain_mac mac) (by decide)
    (fun flow => by simp [readKey, readField, Flow.addField])

/-- The two names of an address field. -/
theorem Reads.nw {key : String} {side : Side} (address : IPv4)
    (hKey : (key, side) ∈ [("nw_src", Side.src), ("ip_src", .src), ("nw_dst", .dst),
      ("ip_dst", .dst)]) :
    Reads (key ++ "=" ++ address.text) (Flow.addField (.nw side address)) := by
  simp only [List.mem_cons, Prod.mk.injEq, List.not_mem_nil, or_false] at hKey
  rcases hKey with ⟨rfl, rfl⟩ | ⟨rfl, rfl⟩ | ⟨rfl, rfl⟩ | ⟨rfl, rfl⟩ <;>
    exact Reads.key (by decide) (plain_address address) (by decide)
      (fun flow => by simp [readKey, readField, Flow.addField])

theorem Reads.tp {key : String} {side : Side} (port : Int)
    (hKey : (key, side) ∈ [("tp_src", Side.src), ("tp_dst", .dst)]) :
    Reads (key ++ "=" ++ port.repr) (Flow.addField (.tp side port)) := by
  simp only [List.mem_cons, Prod.mk.injEq, List.not_mem_nil, or_false] at hKey
  rcases hKey with ⟨rfl, rfl⟩ | ⟨rfl, rfl⟩ <;>
    exact Reads.key (by decide) (plain_int_repr port) (by decide)
      (fun flow => by simp [readKey, readField, Flow.addField])

theorem splitOn_two {c : Char} {name arg : List Char} (hName : c ∉ name) (hArg : c ∉ arg) :
    (name ++ c :: arg).splitOn c = [name, arg] := by
  have hParts : ∀ part ∈ [name, arg], c ∉ part := by simp [hName, hArg]
  simpa [List.intercalate] using List.splitOn_intercalate c hParts (by simp)

theorem splitOn_one {c : Char} {w : List Char} (h : c ∉ w) : w.splitOn c = [w] := by
  have hParts : ∀ part ∈ [w], c ∉ part := by simpa using h
  simpa [List.intercalate] using List.splitOn_intercalate c hParts (by simp)

theorem notMem_repr {c : Char} (hc : c.isDigit = false) (n : Nat) : c ∉ n.repr.toList := by
  intro hMem
  rw [Text.isDigit_of_mem_repr hMem] at hc
  cases hc

theorem ReadsAction.output (n : Nat) : ReadsAction ("output:" ++ n.repr) (.output n) := by
  constructor
  · rw [String.toList_append]
    exact Plain.whole (Plain.append (by simp [Plain]) (plain_repr n))
  · have hList : ("output:" ++ n.repr).toList = "output".toList ++ ':' :: n.repr.toList := by
      simp
    have hNumber : n.repr.toList ≠ "NXM_NX_REG0[]".toList := by
      intro hEq
      have hMem : 'N' ∈ n.repr.toList := by simp [hEq]
      exact notMem_repr (by decide) n hMem
    rw [hList, readAction, splitOn_two (by decide) (notMem_repr (by decide) n)]
    dsimp only
    rw [if_pos rfl, if_neg hNumber, readPort_repr]
    rfl

theorem ReadsAction.outputLocal : ReadsAction "output:LOCAL" (.output localPort) :=
  ⟨Plain.whole (by simp [Plain]), by decide⟩

theorem notMem_hex {c : Char} (hc : (Text.hexDigit? c).isSome = false) (n : Nat) :
    c ∉ Nat.toDigits 16 n := by
  intro hMem
  rw [Text.isHex_of_mem_toDigits hMem] at hc
  cases hc

theorem readLoad_hex (n : Nat) :
    readLoad ('0' :: 'x' :: (Nat.toDigits 16 n ++ '-' :: ">NXM_NX_REG0[]".toList)) = some n := by
  have hDigits : '-' ∉ '0' :: 'x' :: Nat.toDigits 16 n := by
    simp [notMem_hex (c := '-') (by decide) n]
  have hTarget : '-' ∉ ">NXM_NX_REG0[]".toList := by decide
  have hSplit := splitOn_two hDigits hTarget
  rw [List.cons_append, List.cons_append] at hSplit
  rw [readLoad, hSplit]
  simp

theorem ReadsAction.loadReg0 (n : Nat) :
    ReadsAction ("load:0x" ++ String.ofList (Nat.toDigits 16 n) ++ "->NXM_NX_REG0[]")
      (.loadReg0 n) := by
  have hHex : Plain (String.ofList (Nat.toDigits 16 n)).toList := by
    intro c hc
    rw [String.toList_ofList] at hc
    refine ⟨?_, ?_, ?_⟩ <;> rintro rfl <;> exact notMem_hex (by decide) n hc
  constructor
  · rw [String.toList_append, String.toList_append]
    exact Plain.whole (Plain.append (Plain.append (by simp [Plain]) hHex) (by simp [Plain]))
  · have hList : ("load:0x" ++ String.ofList (Nat.toDigits 16 n) ++ "->NXM_NX_REG0[]").toList =
        "load".toList ++ ':' ::
          ('0' :: 'x' :: (Nat.toDigits 16 n ++ '-' :: ">NXM_NX_REG0[]".toList)) := by
      simp
    have hColon : ':' ∉ '0' :: 'x' :: (Nat.toDigits 16 n ++ '-' :: ">NXM_NX_REG0[]".toList) := by
      simp [notMem_hex (c := ':') (by decide) n]
    rw [hList, readAction, splitOn_two (by decide) hColon]
    dsimp only
    rw [if_neg (by decide), if_pos rfl, readLoad_hex]
    rfl

theorem ReadsAction.resubmit {n : Nat} {w : String} (h : n.repr = w) :
    ReadsAction ("resubmit(," ++ w ++ ")") (.resubmit n) := by
  subst h
  have hList : ("resubmit(," ++ n.repr ++ ")").toList =
      "resubmit".toList ++ '(' :: ',' :: (n.repr.toList ++ [')']) := by
    simp
  constructor
  · rw [hList]
    exact whole_paren (by simp [Plain]) (plain_repr n)
  · have hColon : ':' ∉ "resubmit(".toList ++ ',' :: (n.repr.toList ++ [')']) := by
      simp [notMem_repr (c := ':') (by decide) n, -Nat.toList_repr]
    have hComma : ',' ∉ n.repr.toList ++ [')'] := by
      simp [notMem_repr (c := ',') (by decide) n, -Nat.toList_repr]
    have hCall : "resubmit".toList ++ '(' :: ',' :: (n.repr.toList ++ [')']) =
        "resubmit(".toList ++ ',' :: (n.repr.toList ++ [')']) := by
      simp
    rw [hList, hCall, readAction, splitOn_one hColon]
    dsimp only
    rw [splitOn_two (by decide) hComma]
    simp [-Nat.toList_repr]

section Text

variable {key : String} (hKey : key = "actions" ∨ key = "action")

theorem plain_actionsKey (hKey : key = "actions" ∨ key = "action") :
    Plain (key.toList ++ ['=']) ∧ '=' ∉ key.toList := by
  have hAll : (key.toList ++ ['=']).all (fun c => c ≠ ',' ∧ c ≠ '(' ∧ c ≠ ')') = true ∧
      '=' ∉ key.toList := by
    rcases hKey with rfl | rfl
    · decide
    · decide
  exact ⟨fun c hc => of_decide_eq_true (List.all_eq_true.mp hAll.1 c hc), hAll.2⟩

include hKey in
theorem readWords_actions (flow : Flow) (value : List Char) (words : List (List Char)) :
    readWords flow ((key.toList ++ '=' :: value) :: words) =
      (readActions (value :: words)).map (fun actions => { flow with actions := actions }) := by
  rw [readWords, splitKey_eq (plain_actionsKey hKey).2]
  dsimp only
  rw [String.ofList_toList, if_pos hKey]

theorem mapM_readAction (actions : List ActionWord) :
    (actions.map (fun w => w.text.toList)).mapM readAction =
      some (actions.map ActionWord.action) := by
  induction actions with
  | nil => rfl
  | cons w actions ih => simp [w.reads.reads, ih]

include hKey in
/-- The actions, at the end of the text. -/
theorem readWords_last (flow : Flow) (actions : List ActionWord) :
    readWords flow (splitFields 0 []
        (key ++ "=" ++ ",".intercalate (actions.map ActionWord.text)).toList) =
      some { flow with actions := actions.map ActionWord.action } := by
  have hList : (key ++ "=" ++ ",".intercalate (actions.map ActionWord.text)).toList =
      (key.toList ++ ['=']) ++ [','].intercalate (actions.map (fun w => w.text.toList)) := by
    simp [String.toList_intercalate, Function.comp_def]
  rw [hList, (plain_actionsKey hKey).1.whole, List.nil_append]
  cases actions with
  | nil =>
      rw [List.map_nil, List.intercalate_nil, splitFields, readWords_actions hKey]
      rfl
  | cons w actions =>
      have hWholes : ∀ v ∈ actions.map (fun w => w.text.toList), Whole v := by
        intro v hv
        obtain ⟨w', -, rfl⟩ := List.mem_map.mp hv
        exact w'.reads.whole
      have hMap := mapM_readAction (w :: actions)
      rw [List.map_cons] at hMap ⊢
      rw [splitFields_join _ _ _ w.reads.whole hWholes, List.append_assoc, List.singleton_append,
        readWords_actions hKey, readActions, hMap]
      · rfl
      · intro hEmpty
        have hNone : readAction [] = none := by decide
        have hReads := w.reads.reads
        rw [(List.cons.inj hEmpty).1, hNone] at hReads
        cases hReads

include hKey in
/-- Words before the actions, then the actions. -/
theorem parse_words {s : String} (words : List Word) (actions : List ActionWord)
    (hText : s = ",".intercalate (words.map Word.text ++
      [key ++ "=" ++ ",".intercalate (actions.map ActionWord.text)])) :
    parse s = some { words.foldl (fun flow w => w.update flow) {} with
      actions := actions.map ActionWord.action } := by
  rw [hText, parse]
  clear hText
  generalize ({} : Flow) = flow
  induction words generalizing flow with
  | nil => simpa using readWords_last hKey flow actions
  | cons w words ih =>
      have hRest := ih (w.update flow)
      obtain ⟨v, vs, hWords⟩ : ∃ v vs, words.map Word.text ++
          [key ++ "=" ++ ",".intercalate (actions.map ActionWord.text)] = v :: vs := by
        cases words with
        | nil => exact ⟨_, _, rfl⟩
        | cons w' words => exact ⟨_, _, rfl⟩
      rw [hWords] at hRest
      rw [List.map_cons, List.cons_append, hWords, String.intercalate_cons_cons]
      simp only [String.toList_append, List.append_assoc]
      rw [show (",".toList : List Char) = [','] from rfl, List.singleton_append,
        w.reads.whole.splitFields_comma, List.nil_append, w.reads.reads, hRest, List.foldl_cons]

end Text

end Reading

end OpenFlow
