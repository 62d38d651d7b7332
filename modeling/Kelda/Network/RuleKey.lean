import Kelda.Network.NAT

/-! The comparison of iptables rules. A rule is taken apart by a regular
expression, flag by flag, and its key is the text of the map from flags to
values. The order of the flags does not matter for the key; neither does
anything that the expression skips. -/
namespace Kelda.Network.NAT

section Regexp

/-- The complement of the class `\S`. -/
def isSpace (c : Char) : Bool :=
  c = ' ' ∨ c = '\t' ∨ c = '\n' ∨ c = '\x0c' ∨ c = '\r'

/-- The groups of `(\S+) (\S+)(.*)` at the start of a text. The first group ends
at a blank and the second one is greedy, so both are as long as possible. -/
def matchGroups (s : List Char) : Option (List Char × List Char × List Char) :=
  let flagName := s.takeWhile (!isSpace ·)
  match s.dropWhile (!isSpace ·) with
  | ' ' :: s =>
    let flagVal := s.takeWhile (!isSpace ·)
    if flagName = [] ∨ flagVal = [] then none
    else some (flagName, flagVal, (s.dropWhile (!isSpace ·)).takeWhile (· ≠ '\n'))
  | _ => none

/-- What follows the first dash of `-{1,2}`. A second dash is taken if the rest
matches then. -/
def matchDashes : List Char → Option (List Char × List Char × List Char)
  | '-' :: s => (matchGroups s).or (matchGroups ('-' :: s))
  | s => matchGroups s

/-- The leftmost match of `flagRegex`. -/
def findFlag : List Char → Option (List Char × List Char × List Char)
  | [] => none
  | c :: s => (if c = '-' then matchDashes s else none).or (findFlag s)

theorem matchGroups_length {s n v r : List Char} (h : matchGroups s = some (n, v, r)) :
    r.length < s.length := by
  simp only [matchGroups] at h
  split at h
  · next t hDrop =>
      split_ifs at h
      simp only [Option.some.injEq, Prod.mk.injEq] at h
      obtain ⟨-, -, rfl⟩ := h
      have hTail : t.length < s.length := by
        have hLength := List.length_dropWhile_le (!isSpace ·) s
        rwa [hDrop, List.length_cons] at hLength
      calc _ ≤ (t.dropWhile (!isSpace ·)).length := (List.takeWhile_sublist _).length_le
        _ ≤ t.length := List.length_dropWhile_le ..
        _ < s.length := hTail
  · cases h

/-- A match consumes something. -/
theorem findFlag_length {s n v r : List Char} (h : findFlag s = some (n, v, r)) :
    r.length < s.length := by
  induction s with
  | nil => cases h
  | cons c s ih =>
      rw [findFlag, Option.or_eq_some_iff] at h
      rw [List.length_cons]
      rcases h with hHere | ⟨-, hLater⟩
      · split_ifs at hHere
        unfold matchDashes at hHere
        split at hHere
        · rw [Option.or_eq_some_iff] at hHere
          rcases hHere with hTwo | ⟨-, hOne⟩
          · have := matchGroups_length hTwo
            simp only [List.length_cons]
            omega
          · have := matchGroups_length hOne
            omega
        · have := matchGroups_length hHere
          omega
      · have := ih hLater
        omega

end Regexp

section Key

/-- The flags of a rule with their values; a later value replaces an earlier
one. -/
abbrev Opts := AList (fun _ : String => String)

/-- The loop of ruleKey. Every round consumes a character, so the length of the
rule is enough fuel. A jump takes the rest of the rule as its value. -/
def parseFlags : Nat → List Char → Opts → Option Opts
  | _, [], opts => some opts
  | 0, _ :: _, _ => none
  | fuel + 1, c :: s, opts =>
    match findFlag (c :: s) with
    | none => none
    | some (name, val, remaining) =>
      let flagName := String.ofList name
      if flagName = "j" ∨ flagName = "jump" then
        some (opts.insert flagName (String.ofList (val ++ remaining)))
      else parseFlags fuel remaining (opts.insert flagName (String.ofList val))

def ruleOpts (remaining : List Char) (opts : Opts) : Option Opts :=
  parseFlags remaining.length remaining opts

/-- A rule that cannot be parsed has the key nil. -/
def ruleKey (rule : String) : Option String :=
  (ruleOpts rule.toList ∅).map (Str.mapAsString MapOrder.stored)

/-- More fuel than the length makes no difference. -/
theorem parseFlags_eq {fuel : Nat} {s : List Char} (h : s.length ≤ fuel) (opts : Opts) :
    parseFlags fuel s opts = ruleOpts s opts := by
  induction fuel using Nat.strong_induction_on generalizing s opts with
  | _ fuel ih =>
      cases s with
      | nil => simp [ruleOpts, parseFlags]
      | cons c s =>
          obtain ⟨fuel, rfl⟩ : ∃ n, fuel = n + 1 := ⟨fuel - 1, by simp at h; omega⟩
          rw [ruleOpts, List.length_cons, parseFlags, parseFlags]
          cases hFind : findFlag (c :: s) with
          | none => rfl
          | some m =>
              obtain ⟨name, val, rest⟩ := m
              have hShorter := findFlag_length hFind
              simp only [List.length_cons] at h hShorter
              have hRest : ∀ n < fuel + 1, s.length ≤ n →
                  ∀ opts, parseFlags n rest opts = ruleOpts rest opts :=
                fun n hn hLength opts => ih n hn (by omega) opts
              simp only [hRest fuel (by omega) (by omega), hRest s.length (by omega) le_rfl]

/-- One round of the loop. -/
theorem ruleOpts_of_findFlag {s name val rest : List Char}
    (h : findFlag s = some (name, val, rest)) (opts : Opts) :
    ruleOpts s opts =
      if String.ofList name = "j" ∨ String.ofList name = "jump" then
        some (opts.insert (String.ofList name) (String.ofList (val ++ rest)))
      else ruleOpts rest (opts.insert (String.ofList name) (String.ofList val)) := by
  have hShorter := findFlag_length h
  obtain ⟨c, s, rfl⟩ : ∃ c t, s = c :: t := by
    cases s with
    | nil => simp at hShorter
    | cons c s => exact ⟨c, s, rfl⟩
  simp only [List.length_cons] at hShorter
  rw [ruleOpts, List.length_cons, parseFlags, h]
  simp only [parseFlags_eq (Nat.lt_succ_iff.mp hShorter)]

end Key

section Words

/-- A text that the expression takes as a whole. -/
structure IsWord (w : String) : Prop where
  nonempty : w ≠ ""
  noSpace : ∀ c ∈ w.toList, isSpace c = false

theorem IsWord.of_all {w : String} (h : w ≠ "" ∧ w.toList.all (!isSpace ·) = true) : IsWord w := by
  refine ⟨h.1, fun c hc => ?_⟩
  have hChar := List.all_eq_true.mp h.2 c hc
  rwa [Bool.not_eq_true'] at hChar

theorem IsWord.blank_notMem {w : String} (h : IsWord w) : ' ' ∉ w.toList := by
  intro hMem
  cases h.noSpace ' ' hMem

theorem IsWord.toList_ne_nil {w : String} (h : IsWord w) : w.toList ≠ [] := by
  intro hNil
  exact h.nonempty (String.toList_inj.mp (by rw [hNil]; rfl))

/-- A flag word is a dash that is not the sign of a number. -/
def isFlag (w : String) : Bool :=
  match w.toList with
  | '-' :: c :: _ => !c.isDigit
  | _ => false

def isJump (w : String) : Bool := w = "-j" ∨ w = "--jump"

/-- An option starts with a flag, or with a negation in front of one. -/
def startsOption : List String → Bool
  | w :: v :: _ => isFlag w || (w = "!" && isFlag v)
  | [w] => isFlag w
  | [] => false

/-- The options of a rule: a flag with its negation and what follows it. The
arguments of the target belong to the jump. -/
def options : List String → List (List String)
  | [] => []
  | w :: ws =>
    if isJump w then [w :: ws]
    else
      match options ws with
      | [] => [[w]]
      | g :: gs =>
        if startsOption g && !(w = "!" && g.head?.any isFlag) then [w] :: g :: gs
        else (w :: g) :: gs

/-- One rule has the options of another one, in some order. -/
def Reorders (rule rule' : String) : Prop :=
  (options (Text.words rule)).Perm (options (Text.words rule'))

instance (rule rule' : String) : Decidable (Reorders rule rule') :=
  inferInstanceAs (Decidable (List.Perm _ _))

@[refl] theorem Reorders.refl (rule : String) : Reorders rule rule := List.Perm.refl _

theorem flatten_options (ws : List String) : (options ws).flatten = ws := by
  induction ws with
  | nil => rfl
  | cons w ws ih =>
      rw [options]
      split_ifs
      · simp
      · split
        · next hNone => simpa [hNone] using ih
        · next g gs hSome =>
            rw [hSome] at ih
            split_ifs <;> simpa using ih

/-- Nothing comes after a jump. -/
theorem options_jump_last {ws : List String} {w : String} {args : List String}
    (hJump : isJump w = true) {before after : List (List String)}
    (h : options ws = before ++ (w :: args) :: after) : after = [] := by
  induction ws generalizing before with
  | nil => simp [options] at h
  | cons v ws ih =>
      rw [options] at h
      split_ifs at h with hv
      · cases before with
        | nil => exact ((List.cons.inj h).2).symm
        | cons b before => simp at h
      · have hTail : ∀ (g : List String) (gs : List (List String)),
            (v :: g) :: gs = before ++ (w :: args) :: after →
              ∃ before', gs = before' ++ (w :: args) :: after := by
          intro g gs hEq
          cases before with
          | nil =>
              obtain ⟨hHead, -⟩ := List.cons.inj hEq
              rw [(List.cons.inj hHead).1] at hv
              exact absurd hJump hv
          | cons b before => exact ⟨before, (List.cons.inj hEq).2⟩
        split at h
        · obtain ⟨before', hNil⟩ := hTail _ _ h
          simp at hNil
        · next g gs hSome =>
            split_ifs at h
            · obtain ⟨before', hRest⟩ := hTail _ _ h
              exact ih (hSome.trans hRest)
            · obtain ⟨before', rfl⟩ := hTail _ _ h
              have hSplit : options ws = (g :: before') ++ (w :: args) :: after := hSome
              exact ih hSplit

end Words

section Simple

/-- A flag with one value. -/
structure Opt where
  long : Bool
  name : String
  value : String

def Opt.flag (o : Opt) : String := (if o.long then "--" else "-") ++ o.name

def Opt.words (o : Opt) : List String := [o.flag, o.value]

/-- A word that is read as the value of the flag in front of it. -/
structure IsValue (w : String) : Prop where
  word : IsWord w
  plain : isFlag w = false ∧ w ≠ "!"

/-- The flag and its value are read as such. -/
structure Opt.Valid (o : Opt) : Prop where
  name : IsWord o.name
  noDash : o.name.toList.head? ≠ some '-'
  noJump : o.name ≠ "j" ∧ o.name ≠ "jump"
  flag : isFlag o.flag = true ∧ isJump o.flag = false
  value : IsValue o.value

/-- The expression reads the flag as one. -/
structure Opt.Readable (o : Opt) : Prop where
  name : IsWord o.name
  noDash : o.name.toList.head? ≠ some '-'
  noJump : o.name ≠ "j" ∧ o.name ≠ "jump"
  value : IsWord o.value

theorem Opt.Valid.readable {o : Opt} (h : o.Valid) : o.Readable :=
  ⟨h.name, h.noDash, h.noJump, h.value.word⟩

/-- The words of a rule with the given options and the given target. -/
def ruleWords (opts : List Opt) (args : List String) : List String :=
  opts.flatMap Opt.words ++ "-j" :: args

variable {opts : List Opt} {args : List String}

theorem isFlag_of_isJump {w : String} (h : isJump w = true) : isFlag w = true := by
  simp only [isJump, decide_eq_true_eq] at h
  rcases h with rfl | rfl <;> simp [isFlag]

/-- The options of such a rule are the given ones and the jump. -/
theorem options_ruleWords (hOpts : ∀ o ∈ opts, o.Valid) :
    options (ruleWords opts args) = opts.map Opt.words ++ ["-j" :: args] := by
  induction opts with
  | nil =>
      have hJump : isJump "-j" = true := by simp [isJump]
      simp [ruleWords, options, hJump]
  | cons o opts ih =>
      have hValid := hOpts o (List.mem_cons_self ..)
      have hRest := ih (fun o' ho' => hOpts o' (List.mem_cons_of_mem _ ho'))
      obtain ⟨g, gs, hSome, hStart⟩ : ∃ g gs,
          opts.map Opt.words ++ ["-j" :: args] = g :: gs ∧ startsOption g = true := by
        cases opts with
        | nil =>
            refine ⟨"-j" :: args, [], rfl, ?_⟩
            have hFlag : isFlag "-j" = true := by simp [isFlag]
            cases args <;> simp [startsOption, hFlag]
        | cons o' opts =>
            have hFlag := (hOpts o' (by simp)).flag.1
            exact ⟨o'.words, _, rfl, by simp [Opt.words, startsOption, hFlag]⟩
      have hValue : isJump o.value = false := by
        rw [← Bool.not_eq_true]
        intro hJump
        have hPlain := hValid.value.plain.1
        rw [isFlag_of_isJump hJump] at hPlain
        cases hPlain
      have hWords : ruleWords (o :: opts) args = o.flag :: o.value :: ruleWords opts args := rfl
      have hOne : options (o.value :: ruleWords opts args) = [o.value] :: g :: gs := by
        rw [options, hValue, if_neg (by decide), hRest, hSome]
        simp [hStart, hValid.value.plain.2]
      have hNoStart : startsOption [o.value] = false := hValid.value.plain.1
      rw [hWords, options, hValid.flag.2, if_neg (by decide), hOne, List.map_cons,
        List.cons_append, hSome]
      simp [hNoStart, Opt.words]

/-- What has the same options consists of the same flags and the same jump. -/
theorem Reorders.exists_opts (hOpts : ∀ o ∈ opts, o.Valid)
    {rule rule' : String} (hRule : Text.words rule' = ruleWords opts args)
    (h : Reorders rule rule') :
    ∃ opts' : List Opt, opts'.Perm opts ∧ rule = " ".intercalate (ruleWords opts' args) := by
  rw [Reorders, hRule, options_ruleWords hOpts] at h
  have hMem : "-j" :: args ∈ options (Text.words rule) := h.mem_iff.mpr (by simp)
  obtain ⟨before, after, hSplit⟩ := List.append_of_mem hMem
  obtain rfl := options_jump_last (by simp [isJump]) hSplit
  rw [hSplit, List.perm_append_right_iff] at h
  obtain ⟨opts', hPerm, rfl⟩ := h.exists_map_eq
  refine ⟨opts', hPerm, ?_⟩
  have hWords := flatten_options (Text.words rule)
  rw [hSplit] at hWords
  conv_lhs => rw [← Text.intercalate_words rule, ← hWords]
  simp [ruleWords, List.flatMap]

end Simple

section Parsed

/-- A blank, or the end of the text, ends a word. -/
theorem takeWhile_word {w : String} (hWord : IsWord w) {rest : List Char}
    (hRest : ∀ c ∈ rest.head?, isSpace c = true) :
    (w.toList ++ rest).takeWhile (!isSpace ·) = w.toList ∧
      (w.toList ++ rest).dropWhile (!isSpace ·) = rest := by
  have hChars : ∀ c ∈ w.toList, (!isSpace c) = true := by
    intro c hc
    rw [hWord.noSpace c hc]
    rfl
  rw [List.takeWhile_append_of_pos hChars, List.dropWhile_append_of_pos hChars]
  cases rest with
  | nil => simp
  | cons c rest =>
      have hSpace : isSpace c = true := hRest c rfl
      simp [hSpace]

theorem matchGroups_words {n v : String} (hn : IsWord n) (hv : IsWord v) {rest : List Char}
    (hRest : ∀ c ∈ rest.head?, isSpace c = true) (hLine : '\n' ∉ rest) :
    matchGroups (n.toList ++ ' ' :: (v.toList ++ rest)) = some (n.toList, v.toList, rest) := by
  have hBlank : ∀ c ∈ (' ' :: (v.toList ++ rest)).head?, isSpace c = true := by
    intro c hc
    obtain rfl := Option.some.inj hc
    rfl
  have hAll : rest.takeWhile (· ≠ '\n') = rest := by
    apply List.takeWhile_eq_self_iff.mpr
    exact fun c hc => decide_eq_true (fun hEq => hLine (hEq ▸ hc))
  rw [matchGroups, (takeWhile_word hn hBlank).1, (takeWhile_word hn hBlank).2]
  simp only [(takeWhile_word hv hRest).1, (takeWhile_word hv hRest).2, hAll]
  rw [if_neg (not_or.mpr ⟨hn.toList_ne_nil, hv.toList_ne_nil⟩)]

theorem findFlag_blank (s : List Char) : findFlag (' ' :: s) = findFlag s := by
  rw [findFlag, if_neg (by decide), Option.none_or]

/-- The expression reads one option. -/
theorem findFlag_opt {o : Opt} (hName : IsWord o.name) (hDash : o.name.toList.head? ≠ some '-')
    (hValue : IsWord o.value) {rest : List Char} (hRest : ∀ c ∈ rest.head?, isSpace c = true)
    (hLine : '\n' ∉ rest) :
    findFlag (o.flag.toList ++ ' ' :: (o.value.toList ++ rest)) =
      some (o.name.toList, o.value.toList, rest) := by
  have hGroups := matchGroups_words hName hValue hRest hLine
  cases hLong : o.long with
  | true =>
      have hFlag : o.flag.toList = '-' :: '-' :: o.name.toList := by
        simp [Opt.flag, hLong]
      rw [hFlag]
      simp [findFlag, matchDashes, hGroups]
  | false =>
      have hFlag : o.flag.toList = '-' :: o.name.toList := by
        simp [Opt.flag, hLong]
      rw [hFlag]
      obtain ⟨c, n, hn⟩ : ∃ c n, o.name.toList = c :: n :=
        List.exists_cons_of_ne_nil hName.toList_ne_nil
      have hFirst : c ≠ '-' := by
        rintro rfl
        exact hDash (by rw [hn]; rfl)
      have hDashes : matchDashes (o.name.toList ++ ' ' :: (o.value.toList ++ rest)) =
          some (o.name.toList, o.value.toList, rest) := by
        rw [← hGroups, hn, List.cons_append, matchDashes]
        intro s hEq
        exact hFirst (List.cons.inj hEq).1
      rw [List.cons_append, findFlag, if_pos rfl, hDashes, Option.some_or]

/-- The characters of words with single blanks between them. -/
def lineOf (ws : List String) : List Char := (" ".intercalate ws).toList

theorem lineOf_cons (w : String) {ws : List String} (h : ws ≠ []) :
    lineOf (w :: ws) = w.toList ++ ' ' :: lineOf ws := by
  obtain ⟨v, vs, rfl⟩ := List.exists_cons_of_ne_nil h
  rw [lineOf, String.intercalate_cons_cons, String.toList_append, String.toList_append,
    List.append_assoc]
  rfl

theorem newline_notMem_lineOf {ws : List String} (h : ∀ w ∈ ws, IsWord w) :
    '\n' ∉ lineOf ws := by
  apply Text.notMem_intercalate (s := ' ') (by decide)
  intro w hw hMem
  cases (h w hw).noSpace _ hMem

theorem Opt.Readable.isWord_flag {o : Opt} (h : o.Readable) : IsWord o.flag := by
  have hDashes : IsWord (if o.long then "--" else "-") := by
    apply IsWord.of_all
    split <;> simp [isSpace]
  constructor
  · intro hEmpty
    have hChars := congrArg String.toList hEmpty
    rw [Opt.flag, String.toList_append] at hChars
    exact h.name.toList_ne_nil (List.append_eq_nil_iff.mp hChars).2
  · intro c hc
    rw [Opt.flag, String.toList_append, List.mem_append] at hc
    exact hc.elim (hDashes.noSpace c) (h.name.noSpace c)

theorem isWord_of_mem_ruleWords {opts : List Opt} {args : List String}
    (hOpts : ∀ o ∈ opts, o.Readable) (hArgs : ∀ w ∈ args, IsWord w) {w : String}
    (h : w ∈ ruleWords opts args) : IsWord w := by
  rw [ruleWords, List.mem_append, List.mem_flatMap, List.mem_cons] at h
  rcases h with ⟨o, ho, hMem⟩ | rfl | hMem
  · rw [Opt.words, List.mem_pair] at hMem
    rcases hMem with rfl | rfl
    · exact (hOpts o ho).isWord_flag
    · exact (hOpts o ho).value
  · exact IsWord.of_all (by simp [isSpace])
  · exact hArgs w hMem

/-- The flags of a list of options, the last value of each. -/
def collect (opts : List Opt) (acc : Opts) : Opts :=
  opts.foldl (fun acc o => acc.insert o.name o.value) acc

theorem ruleOpts_jump {args : List String} (hArgs : ∀ w ∈ args, IsWord w) (hSome : args ≠ [])
    (acc : Opts) :
    ruleOpts (lineOf ("-j" :: args)) acc = some (acc.insert "j" (" ".intercalate args)) := by
  obtain ⟨w, ws, rfl⟩ := List.exists_cons_of_ne_nil hSome
  have hWord := hArgs w (List.mem_cons_self ..)
  obtain ⟨rest, hLine, hHead, hNoLine⟩ : ∃ rest, lineOf (w :: ws) = w.toList ++ rest ∧
      (∀ c ∈ rest.head?, isSpace c = true) ∧ '\n' ∉ rest := by
    by_cases hws : ws = []
    · subst hws
      exact ⟨[], by simp [lineOf], by simp, by simp⟩
    · refine ⟨' ' :: lineOf ws, lineOf_cons w hws, ?_, ?_⟩
      · intro c hc
        obtain rfl := Option.some.inj hc
        rfl
      · have hRest := newline_notMem_lineOf (fun v hv => hArgs v (List.mem_cons_of_mem _ hv))
        simpa using hRest
  have hFind : findFlag (lineOf ("-j" :: w :: ws)) = some ("j".toList, w.toList, rest) := by
    have hFlag : "-j" = "-" ++ "j" := rfl
    have hName : IsWord "j" := IsWord.of_all (by simp [isSpace])
    have hDash : "j".toList.head? ≠ some '-' := by simp
    rw [lineOf_cons _ (List.cons_ne_nil w ws), hLine, hFlag]
    exact findFlag_opt (o := ⟨false, "j", w⟩) hName hDash hWord hHead hNoLine
  rw [ruleOpts_of_findFlag hFind, if_pos (Or.inl (by simp)), ← hLine, lineOf,
    String.ofList_toList, String.ofList_toList]

/-- A blank in front makes no difference while there is something to read. -/
theorem ruleOpts_blank {s : List Char} (h : s ≠ []) (acc : Opts) :
    ruleOpts (' ' :: s) acc = ruleOpts s acc := by
  obtain ⟨c, s, rfl⟩ := List.exists_cons_of_ne_nil h
  cases hFind : findFlag (c :: s) with
  | none =>
      rw [ruleOpts, ruleOpts, List.length_cons, List.length_cons, parseFlags, parseFlags,
        findFlag_blank, hFind]
  | some m =>
      obtain ⟨name, val, rest⟩ := m
      rw [ruleOpts_of_findFlag ((findFlag_blank _).trans hFind), ruleOpts_of_findFlag hFind]

/-- Every option is collected, and the jump takes its arguments. -/
theorem ruleOpts_ruleWords {opts : List Opt} {args : List String} (hOpts : ∀ o ∈ opts, o.Readable)
    (hArgs : ∀ w ∈ args, IsWord w) (hSome : args ≠ []) (acc : Opts) :
    ruleOpts (lineOf (ruleWords opts args)) acc =
      some ((collect opts acc).insert "j" (" ".intercalate args)) := by
  induction opts generalizing acc with
  | nil => exact ruleOpts_jump hArgs hSome acc
  | cons o opts ih =>
      have hRead := hOpts o (List.mem_cons_self ..)
      have hOthers : ∀ o' ∈ opts, o'.Readable := fun o' ho' => hOpts o' (List.mem_cons_of_mem _ ho')
      obtain ⟨w, ws, hRest⟩ : ∃ w ws, ruleWords opts args = w :: ws :=
        List.exists_cons_of_ne_nil (by simp [ruleWords])
      have hMore : lineOf (ruleWords opts args) ≠ [] := by
        have hFirst := isWord_of_mem_ruleWords hOthers hArgs (hRest ▸ List.mem_cons_self ..)
        cases ws with
        | nil => simpa [hRest, lineOf] using hFirst.nonempty
        | cons v vs => simp [hRest, lineOf_cons]
      have hFind : findFlag (lineOf (ruleWords (o :: opts) args)) =
          some (o.name.toList, o.value.toList, ' ' :: lineOf (ruleWords opts args)) := by
        have hWords : ruleWords (o :: opts) args = o.flag :: o.value :: ruleWords opts args := rfl
        have hLine := newline_notMem_lineOf
          (fun w hw => isWord_of_mem_ruleWords hOthers hArgs hw)
        rw [hWords, lineOf_cons _ (List.cons_ne_nil _ _), lineOf_cons _ (by simp [hRest])]
        apply findFlag_opt hRead.name hRead.noDash hRead.value
        · intro c hc
          obtain rfl := Option.some.inj hc
          rfl
        · simpa using hLine
      rw [ruleOpts_of_findFlag hFind, String.ofList_toList, String.ofList_toList,
        if_neg (not_or.mpr hRead.noJump), ruleOpts_blank hMore, ih hOthers]
      rfl

/-- The entries of different flags are the options themselves. -/
theorem entries_collect {opts : List Opt} (hNames : (opts.map Opt.name).Nodup) (acc : Opts)
    (hFresh : ∀ o ∈ opts, o.name ∉ acc) :
    (collect opts acc).entries.Perm
      (opts.map (fun o => (⟨o.name, o.value⟩ : Σ _ : String, String)) ++ acc.entries) := by
  induction opts generalizing acc with
  | nil => exact List.Perm.refl _
  | cons o opts ih =>
      rw [List.map_cons, List.nodup_cons] at hNames
      have hNew := hFresh o (List.mem_cons_self ..)
      have hOthers : ∀ o' ∈ opts, o'.name ∉ acc.insert o.name o.value := by
        intro o' ho' hMem
        rcases (AList.mem_insert acc).mp hMem with hEq | hMem
        · exact hNames.1 (hEq ▸ List.mem_map_of_mem ho')
        · exact hFresh o' (List.mem_cons_of_mem _ ho') hMem
      apply (ih hNames.2 _ hOthers).trans
      rw [AList.entries_insert_of_notMem hNew, List.map_cons]
      exact List.perm_middle

/-- The entry texts of a rule whose flags are all different. -/
theorem ruleKey_ruleWords {opts : List Opt} {args : List String} (hOpts : ∀ o ∈ opts, o.Readable)
    (hNames : (opts.map Opt.name).Nodup) (hArgs : ∀ w ∈ args, IsWord w) (hSome : args ≠ []) :
    ∃ m : Opts, ruleKey (" ".intercalate (ruleWords opts args)) =
        some (Str.mapAsString MapOrder.stored m) ∧
      m.entries.Perm (⟨"j", " ".intercalate args⟩ ::
        opts.map (fun o => (⟨o.name, o.value⟩ : Σ _ : String, String))) := by
  have hParse := ruleOpts_ruleWords hOpts hArgs hSome ∅
  rw [lineOf] at hParse
  refine ⟨_, by rw [ruleKey, hParse, Option.map_some], ?_⟩
  have hEntries := entries_collect hNames ∅ (fun o _ => AList.notMem_empty _)
  rw [AList.empty_entries, List.append_nil] at hEntries
  rw [AList.entries_insert_of_notMem]
  · exact hEntries.cons _
  · intro hMem
    obtain ⟨e, he, hEq⟩ := List.mem_map.mp (AList.mem_keys.mp hMem)
    obtain ⟨o, ho, rfl⟩ := List.mem_map.mp (hEntries.mem_iff.mp he)
    exact (hOpts o ho).noJump.1 hEq

/-- Rules with the same options have the same key. -/
theorem Reorders.ruleKey_eq {opts : List Opt} {args : List String} (hOpts : ∀ o ∈ opts, o.Valid)
    (hNames : (opts.map Opt.name).Nodup) (hArgs : ∀ w ∈ args, IsWord w) (hSome : args ≠ [])
    {rule rule' : String} (hRule : Text.words rule' = ruleWords opts args)
    (h : Reorders rule rule') : ruleKey rule = ruleKey rule' := by
  obtain ⟨opts', hPerm, rfl⟩ := h.exists_opts hOpts hRule
  have hOpts' : ∀ o ∈ opts', o.Valid := fun o ho => hOpts o (hPerm.mem_iff.mp ho)
  have hNames' : (opts'.map Opt.name).Nodup := (hPerm.map Opt.name).nodup_iff.mpr hNames
  rw [← Text.intercalate_words rule', hRule]
  obtain ⟨m, hKey, hEntries⟩ :=
    ruleKey_ruleWords (fun o ho => (hOpts o ho).readable) hNames hArgs hSome
  obtain ⟨m', hKey', hEntries'⟩ :=
    ruleKey_ruleWords (fun o ho => (hOpts' o ho).readable) hNames' hArgs hSome
  rw [hKey, hKey', Str.mapAsString_perm MapOrder.stored MapOrder.stored]
  exact hEntries'.trans (((hPerm.map _).cons _).trans hEntries.symm)

end Parsed

section Targets

def dnatOpts (publicInterface protocol : String) (port : Int) : List Opt :=
  [⟨false, "i", publicInterface⟩, ⟨false, "p", protocol⟩, ⟨false, "m", protocol⟩,
    ⟨true, "dport", port.repr⟩]

def dnatArgs (port : Int) (ip : String) : List String :=
  ["DNAT", "--to-destination", ip ++ ":" ++ port.repr]

def masqueradeOpts (publicInterface protocol : String) (port : Int) (ip : String) : List Opt :=
  [⟨false, "s", ip ++ "/32"⟩, ⟨false, "p", protocol⟩, ⟨false, "m", protocol⟩,
    ⟨true, "dport", port.repr⟩, ⟨false, "o", publicInterface⟩]

def masqueradeArgs : List String := ["MASQUERADE"]

theorem dnatRule_words (publicInterface protocol : String) (port : Int) (ip : String) :
    dnatRule publicInterface protocol port ip =
      " ".intercalate (ruleWords (dnatOpts publicInterface protocol port) (dnatArgs port ip)) := by
  have hI : "-i " = "-" ++ ("i" ++ " ") := rfl
  have hP : " -p " = " " ++ ("-" ++ ("p" ++ " ")) := rfl
  have hM : " -m " = " " ++ ("-" ++ ("m" ++ " ")) := rfl
  have hD : " --dport " = " " ++ ("--" ++ ("dport" ++ " ")) := rfl
  have hJ : " -j DNAT --to-destination " =
      " " ++ ("-j" ++ (" " ++ ("DNAT" ++ (" " ++ ("--to-destination" ++ " "))))) := by
    rfl
  delta dnatRule
  rw [hI, hP, hM, hD, hJ]
  simp only [ruleWords, dnatOpts, dnatArgs, Opt.words, Opt.flag, List.flatMap_cons,
    List.flatMap_nil, List.cons_append, List.nil_append, String.intercalate_cons_cons,
    String.intercalate_singleton, String.append_assoc, -String.reduceAppend, if_true,
    Bool.false_eq_true, if_false]

theorem masqueradeRule_words (publicInterface protocol : String) (port : Int) (ip : String) :
    masqueradeRule publicInterface protocol port ip =
      " ".intercalate
        (ruleWords (masqueradeOpts publicInterface protocol port ip) masqueradeArgs) := by
  have hS : "-s " = "-" ++ ("s" ++ " ") := rfl
  have hP : "/32 -p " = "/32" ++ (" " ++ ("-" ++ ("p" ++ " "))) := rfl
  have hM : " -m " = " " ++ ("-" ++ ("m" ++ " ")) := rfl
  have hD : " --dport " = " " ++ ("--" ++ ("dport" ++ " ")) := rfl
  have hO : " -o " = " " ++ ("-" ++ ("o" ++ " ")) := rfl
  have hJ : " -j MASQUERADE" = " " ++ ("-j" ++ (" " ++ "MASQUERADE")) := rfl
  delta masqueradeRule
  rw [hS, hP, hM, hD, hO, hJ]
  simp only [ruleWords, masqueradeOpts, masqueradeArgs, Opt.words, Opt.flag, List.flatMap_cons,
    List.flatMap_nil, List.cons_append, List.nil_append, String.intercalate_cons_cons,
    String.intercalate_singleton, String.append_assoc, -String.reduceAppend, if_true,
    Bool.false_eq_true, if_false]

theorem isValue_protocol : ∀ protocol ∈ protocols, IsValue protocol := by
  intro protocol hMem
  simp only [protocols, List.mem_cons, List.not_mem_nil, or_false] at hMem
  rcases hMem with rfl | rfl <;>
    exact ⟨IsWord.of_all (by simp [isSpace]), by simp [isFlag]⟩

theorem isSpace_digit {c : Char} (h : c.isDigit = true) : isSpace c = false := by
  rw [← Bool.not_eq_true]
  intro hSpace
  simp only [isSpace, decide_eq_true_eq] at hSpace
  rcases hSpace with rfl | rfl | rfl | rfl | rfl <;> cases h

/-- A dash in front of a number is its sign. -/
theorem isFlag_port (port : Int) : isFlag port.repr = false := by
  rw [Int.repr_eq_if]
  split_ifs with hSign
  · obtain ⟨c, cs, hRepr⟩ := List.exists_cons_of_ne_nil (Text.repr_ne_nil port.toNat)
    have hDigit : c.isDigit = true :=
      Text.isDigit_of_mem_repr (n := port.toNat) (hRepr ▸ List.mem_cons_self ..)
    have hDash : c ≠ '-' := by
      rintro rfl
      cases hDigit
    rw [isFlag, hRepr]
    split
    · next hEq => exact (hDash (List.cons.inj hEq).1).elim
    · rfl
  · obtain ⟨c, cs, hRepr⟩ := List.exists_cons_of_ne_nil (Text.repr_ne_nil (-port).toNat)
    have hDigit : c.isDigit = true :=
      Text.isDigit_of_mem_repr (n := (-port).toNat) (hRepr ▸ List.mem_cons_self ..)
    have hText : ("-" ++ (-port).toNat.repr).toList = '-' :: c :: cs := by
      rw [String.toList_append, hRepr]
      rfl
    simp only [isFlag, hText, hDigit, Bool.not_true]

theorem isValue_port (port : Int) : IsValue port.repr := by
  refine ⟨⟨?_, ?_⟩, isFlag_port port, ?_⟩
  · intro hEmpty
    have hRead := Text.readInt_repr port
    rw [hEmpty] at hRead
    cases hRead
  · intro c hc
    rcases Text.isDigit_of_mem_int_repr hc with hDigit | rfl
    · exact isSpace_digit hDigit
    · rfl
  · intro hBang
    have hMem : '!' ∈ port.repr.toList := hBang ▸ by decide
    exact notMem_port rfl (by decide) hMem

/-- An address without blanks, which may be followed by a mask or a port. -/
def IsAddress (ip : String) : Prop := IsValue (ip ++ "/32")

theorem IsAddress.isWord_port {ip : String} (h : IsAddress ip) (port : Int) :
    IsWord (ip ++ ":" ++ port.repr) := by
  constructor
  · intro hEmpty
    have hMem : ':' ∈ (ip ++ ":" ++ port.repr).toList := by simp
    rw [hEmpty] at hMem
    cases hMem
  · intro c hc
    simp only [String.toList_append, List.mem_append] at hc
    rcases hc with (hc | hc) | hc
    · exact h.word.noSpace c (by simp [hc])
    · obtain rfl : c = ':' := by simpa using hc
      rfl
    · exact (isValue_port port).word.noSpace c hc

/-- A flag by its name alone. -/
theorem Opt.Valid.of_name {long : Bool} {name value : String} (hValue : IsValue value)
    (h : (name ≠ "" ∧ name.toList.all (!isSpace ·) = true) ∧ name.toList.head? ≠ some '-' ∧
      (name ≠ "j" ∧ name ≠ "jump") ∧ isFlag ((if long then "--" else "-") ++ name) = true ∧
      isJump ((if long then "--" else "-") ++ name) = false) :
    Opt.Valid ⟨long, name, value⟩ :=
  ⟨IsWord.of_all h.1, h.2.1, h.2.2.1, h.2.2.2, hValue⟩

section Valid

variable {publicInterface protocol ip : String} {port : Int}

theorem valid_dnatOpts (hInterface : IsValue publicInterface) (hProtocol : protocol ∈ protocols) :
    ∀ o ∈ dnatOpts publicInterface protocol port, o.Valid := by
  have hValue := isValue_protocol protocol hProtocol
  intro o ho
  simp only [dnatOpts, List.mem_cons, List.not_mem_nil, or_false] at ho
  rcases ho with rfl | rfl | rfl | rfl
  · exact Opt.Valid.of_name hInterface (by simp [isSpace, isFlag, isJump])
  · exact Opt.Valid.of_name hValue (by simp [isSpace, isFlag, isJump])
  · exact Opt.Valid.of_name hValue (by simp [isSpace, isFlag, isJump])
  · exact Opt.Valid.of_name (isValue_port port) (by simp [isSpace, isFlag, isJump])

theorem valid_masqueradeOpts (hInterface : IsValue publicInterface)
    (hProtocol : protocol ∈ protocols) (hIP : IsAddress ip) :
    ∀ o ∈ masqueradeOpts publicInterface protocol port ip, o.Valid := by
  have hValue := isValue_protocol protocol hProtocol
  intro o ho
  simp only [masqueradeOpts, List.mem_cons, List.not_mem_nil, or_false] at ho
  rcases ho with rfl | rfl | rfl | rfl | rfl
  · exact Opt.Valid.of_name hIP (by simp [isSpace, isFlag, isJump])
  · exact Opt.Valid.of_name hValue (by simp [isSpace, isFlag, isJump])
  · exact Opt.Valid.of_name hValue (by simp [isSpace, isFlag, isJump])
  · exact Opt.Valid.of_name (isValue_port port) (by simp [isSpace, isFlag, isJump])
  · exact Opt.Valid.of_name hInterface (by simp [isSpace, isFlag, isJump])

theorem isWord_dnatArgs (hIP : IsAddress ip) : ∀ w ∈ dnatArgs port ip, IsWord w := by
  intro w hw
  simp only [dnatArgs, List.mem_cons, List.not_mem_nil, or_false] at hw
  rcases hw with rfl | rfl | rfl
  · exact IsWord.of_all (by simp [isSpace])
  · exact IsWord.of_all (by simp [isSpace])
  · exact hIP.isWord_port port

theorem isWord_masqueradeArgs : ∀ w ∈ masqueradeArgs, IsWord w := by
  intro w hw
  rw [masqueradeArgs, List.mem_singleton] at hw
  rw [hw]
  exact IsWord.of_all (by simp [isSpace])

end Valid

/-- The first letter of one name is smaller than that of the other. -/
def firstBelow (name name' : String) : Bool :=
  match name.toList, name'.toList with
  | c :: _, c' :: _ => c < c'
  | _, _ => false

theorem entryText_le {e e' : Σ _ : String, String} (h : firstBelow e.1 e'.1 = true) :
    Str.entryText e ≤ Str.entryText e' := by
  rw [firstBelow] at h
  split at h
  · next c l c' l' hName hName' =>
      apply le_of_lt
      rw [String.lt_iff_toList_lt, Str.entryText, Str.entryText]
      simp only [String.toList_append, hName, hName', List.cons_append]
      exact List.Lex.rel (of_decide_eq_true h)
  · cases h

/-- The key of a rule whose flags start with different letters. -/
theorem ruleKey_sorted {opts : List Opt} {args : List String} (hOpts : ∀ o ∈ opts, o.Valid)
    (hNames : (opts.map Opt.name).Nodup) (hArgs : ∀ w ∈ args, IsWord w) (hSome : args ≠ [])
    {es : List (Σ _ : String, String)}
    (hPerm : ((⟨"j", " ".intercalate args⟩ : Σ _ : String, String) ::
      opts.map (fun o => ⟨o.name, o.value⟩)).Perm es)
    (hSorted : (es.map Sigma.fst).Pairwise (fun name name' => firstBelow name name' = true)) :
    ruleKey (" ".intercalate (ruleWords opts args)) =
      some ("[" ++ (" ".intercalate (es.map Str.entryText) ++ "]")) := by
  have hRead : ∀ o ∈ opts, o.Readable := fun o ho => (hOpts o ho).readable
  obtain ⟨m, hKey, hEntries⟩ := ruleKey_ruleWords hRead hNames hArgs hSome
  have hTexts : (es.map Str.entryText).Pairwise (· ≤ ·) := by
    rw [List.pairwise_map] at hSorted ⊢
    exact hSorted.imp entryText_le
  rw [hKey, Str.mapAsString_eq MapOrder.stored ((hEntries.trans hPerm).map Str.entryText) hTexts,
    String.append_assoc]

section Keys

variable {publicInterface protocol protocol' ip ip' : String} {port port' : Int}

theorem ruleKey_dnatRule (hInterface : IsValue publicInterface) (hProtocol : protocol ∈ protocols)
    (hIP : IsAddress ip) :
    ruleKey (dnatRule publicInterface protocol port ip) = some ("[" ++ (" ".intercalate
      ([⟨"dport", port.repr⟩, ⟨"i", publicInterface⟩, ⟨"j", " ".intercalate (dnatArgs port ip)⟩,
        ⟨"m", protocol⟩, ⟨"p", protocol⟩].map Str.entryText) ++ "]")) := by
  rw [dnatRule_words]
  apply ruleKey_sorted (valid_dnatOpts hInterface hProtocol) _ (isWord_dnatArgs hIP)
    (List.cons_ne_nil _ _)
  · refine List.perm_iff_count.mpr (fun e => ?_)
    simp only [dnatOpts, List.map_cons, List.map_nil, List.count_cons, List.count_nil]
    omega
  · change ["dport", "i", "j", "m", "p"].Pairwise _
    simp [firstBelow]
  · change ["i", "p", "m", "dport"].Nodup
    simp

theorem ruleKey_masqueradeRule (hInterface : IsValue publicInterface)
    (hProtocol : protocol ∈ protocols) (hIP : IsAddress ip) :
    ruleKey (masqueradeRule publicInterface protocol port ip) = some ("[" ++ (" ".intercalate
      ([⟨"dport", port.repr⟩, ⟨"j", " ".intercalate masqueradeArgs⟩, ⟨"m", protocol⟩,
        ⟨"o", publicInterface⟩, ⟨"p", protocol⟩, ⟨"s", ip ++ "/32"⟩].map Str.entryText) ++
        "]")) := by
  rw [masqueradeRule_words]
  apply ruleKey_sorted (valid_masqueradeOpts hInterface hProtocol hIP) _ isWord_masqueradeArgs
    (List.cons_ne_nil _ _)
  · refine List.perm_iff_count.mpr (fun e => ?_)
    simp only [masqueradeOpts, List.map_cons, List.map_nil, List.count_cons, List.count_nil]
    omega
  · change ["dport", "j", "m", "o", "p", "s"].Pairwise _
    simp [firstBelow]
  · change ["s", "p", "m", "dport", "o"].Nodup
    simp

/-- The keys tell the forwarding rules of one interface apart. -/
theorem dnatRule_key_inj (hInterface : IsValue publicInterface) (hProtocol : protocol ∈ protocols)
    (hProtocol' : protocol' ∈ protocols) (hIP : IsAddress ip) (hIP' : IsAddress ip')
    (h : ruleKey (dnatRule publicInterface protocol port ip) =
      ruleKey (dnatRule publicInterface protocol' port' ip')) :
    dnatRule publicInterface protocol port ip = dnatRule publicInterface protocol' port' ip' := by
  rw [ruleKey_dnatRule hInterface hProtocol hIP, ruleKey_dnatRule hInterface hProtocol' hIP',
    Option.some.injEq] at h
  simp only [List.map_cons, List.map_nil, Str.entryText, dnatArgs, String.intercalate_cons_cons,
    String.intercalate_singleton, String.append_assoc, String.append_right_inj,
    -String.reduceAppend] at h
  obtain ⟨hPort, h⟩ := Text.string_append_sep_inj (c := ' ') (notMem_port rfl (by decide))
    (notMem_port rfl (by decide)) h
  obtain rfl := Int.repr_inj.mp hPort
  simp only [String.append_right_inj] at h
  have hWord := (hIP.isWord_port port).blank_notMem
  have hWord' := (hIP'.isWord_port port).blank_notMem
  have hAssoc : ∀ ip rest : String, ip ++ (":" ++ (port.repr ++ rest)) =
      ip ++ ":" ++ port.repr ++ rest :=
    fun ip rest => by simp only [String.append_assoc]
  rw [hAssoc, hAssoc] at h
  obtain ⟨hDestination, h⟩ := Text.string_append_sep_inj (c := ' ') hWord hWord' h
  rw [String.append_left_inj, String.append_left_inj] at hDestination
  simp only [String.append_right_inj] at h
  obtain ⟨rfl, -⟩ := Text.string_append_sep_inj (c := ' ')
    (space_notMem_protocol protocol hProtocol) (space_notMem_protocol protocol' hProtocol') h
  rw [hDestination]

/-- The keys tell the masquerading rules of one interface apart. -/
theorem masqueradeRule_key_inj (hInterface : IsValue publicInterface)
    (hProtocol : protocol ∈ protocols) (hProtocol' : protocol' ∈ protocols)
    (hIP : IsAddress ip) (hIP' : IsAddress ip')
    (h : ruleKey (masqueradeRule publicInterface protocol port ip) =
      ruleKey (masqueradeRule publicInterface protocol' port' ip')) :
    masqueradeRule publicInterface protocol port ip =
      masqueradeRule publicInterface protocol' port' ip' := by
  rw [ruleKey_masqueradeRule hInterface hProtocol hIP,
    ruleKey_masqueradeRule hInterface hProtocol' hIP', Option.some.injEq] at h
  simp only [List.map_cons, List.map_nil, Str.entryText, masqueradeArgs,
    String.intercalate_cons_cons, String.intercalate_singleton, String.append_assoc,
    String.append_right_inj, -String.reduceAppend] at h
  obtain ⟨hPort, h⟩ := Text.string_append_sep_inj (c := ' ') (notMem_port rfl (by decide))
    (notMem_port rfl (by decide)) h
  obtain rfl := Int.repr_inj.mp hPort
  simp only [String.append_right_inj] at h
  obtain ⟨rfl, h⟩ := Text.string_append_sep_inj (c := ' ')
    (space_notMem_protocol protocol hProtocol) (space_notMem_protocol protocol' hProtocol') h
  simp only [String.append_right_inj, String.append_left_inj] at h
  rw [h]

end Keys

/-- The rules that one chain is to hold for an interface, by the form in which
`preroutingRules` and `postroutingRules` write them. -/
def IsTargetRule (rule : String → Int → String → String) (text : String) : Prop :=
  ∃ protocol ∈ protocols, ∃ port ip, IsAddress ip ∧ text = rule protocol port ip

/-- A list of rules as `preroutingRules` or `postroutingRules` makes one. -/
inductive IsTarget (publicInterface : String) (target : List String) : Prop where
  | prerouting (h : ∀ text ∈ target, IsTargetRule (dnatRule publicInterface) text)
  | postrouting (h : ∀ text ∈ target, IsTargetRule (masqueradeRule publicInterface) text)

theorem isTargetRule_of_mem {rule : String → Int → String → String} {ords : Nat → MapOrder}
    {containers : List DB.Container} {ports : HostPorts}
    (hIPs : ∀ dbc ∈ containers, IsAddress dbc.ip) :
    ∀ text ∈ containerRules rule ords containers ports, IsTargetRule rule text := by
  intro text hText
  obtain ⟨dbc, hMem, port, -, protocol, hProtocol, rfl⟩ := mem_containerRules.mp hText
  exact ⟨protocol, hProtocol, port, dbc.ip, hIPs dbc hMem, rfl⟩

section Target

variable {publicInterface : String} {target : List String}

theorem isTarget_preroutingRules (ords : Nat → MapOrder) {containers : List DB.Container}
    (hIPs : ∀ dbc ∈ containers, IsAddress dbc.ip) (connections : List DB.Connection) :
    IsTarget publicInterface (preroutingRules ords publicInterface containers connections) :=
  IsTarget.prerouting (isTargetRule_of_mem hIPs)

theorem isTarget_postroutingRules (ords : Nat → MapOrder) {containers : List DB.Container}
    (hIPs : ∀ dbc ∈ containers, IsAddress dbc.ip) (connections : List DB.Connection) :
    IsTarget publicInterface (postroutingRules ords publicInterface containers connections) :=
  IsTarget.postrouting (isTargetRule_of_mem hIPs)

/-- Different rules of a target have different keys. -/
theorem IsTarget.key_inj (hInterface : IsValue publicInterface)
    (hTarget : IsTarget publicInterface target) {t t' : String} (ht : t ∈ target)
    (ht' : t' ∈ target) (h : ruleKey t = ruleKey t') : t = t' := by
  cases hTarget with
  | prerouting hForm =>
      obtain ⟨protocol, hProtocol, port, ip, hIP, rfl⟩ := hForm t ht
      obtain ⟨protocol', hProtocol', port', ip', hIP', rfl⟩ := hForm t' ht'
      exact dnatRule_key_inj hInterface hProtocol hProtocol' hIP hIP' h
  | postrouting hForm =>
      obtain ⟨protocol, hProtocol, port, ip, hIP, rfl⟩ := hForm t ht
      obtain ⟨protocol', hProtocol', port', ip', hIP', rfl⟩ := hForm t' ht'
      exact masqueradeRule_key_inj hInterface hProtocol hProtocol' hIP hIP' h

/-- A rule with the options of a rule of a target has its key. -/
theorem IsTarget.key_of_reorders (hInterface : IsValue publicInterface)
    (hTarget : IsTarget publicInterface target) {r t : String} (ht : t ∈ target)
    (h : Reorders r t) : ruleKey r = ruleKey t := by
  have hSimple : ∃ opts args, (∀ o ∈ opts, Opt.Valid o) ∧ (opts.map Opt.name).Nodup ∧
      (∀ w ∈ args, IsWord w) ∧ args ≠ [] ∧ t = " ".intercalate (ruleWords opts args) := by
    cases hTarget with
    | prerouting hForm =>
        obtain ⟨protocol, hProtocol, port, ip, hIP, rfl⟩ := hForm t ht
        exact ⟨_, _, valid_dnatOpts hInterface hProtocol, by simp [dnatOpts],
          isWord_dnatArgs hIP, List.cons_ne_nil _ _, dnatRule_words ..⟩
    | postrouting hForm =>
        obtain ⟨protocol, hProtocol, port, ip, hIP, rfl⟩ := hForm t ht
        exact ⟨_, _, valid_masqueradeOpts hInterface hProtocol hIP, by simp [masqueradeOpts],
          isWord_masqueradeArgs, List.cons_ne_nil _ _, masqueradeRule_words ..⟩
  obtain ⟨opts, args, hOpts, hNames, hArgs, hSome, rfl⟩ := hSimple
  apply h.ruleKey_eq hOpts hNames hArgs hSome
  apply Text.words_intercalate
  · have hRead : ∀ o ∈ opts, o.Readable := fun o ho => (hOpts o ho).readable
    exact fun w hw => (isWord_of_mem_ruleWords hRead hArgs hw).blank_notMem
  · simp [ruleWords]

end Target

end Targets

end Kelda.Network.NAT
