import Kelda.Network.RuleKey

/-! What the key of a rule tells about the rule. The key is one text: the entries
of a map, sorted and joined by blanks, while the value of the jump has blanks of
its own. A word with an equals sign starts an entry, and no other word does. -/
namespace Kelda.Network.NAT

section Groups

variable {α : Type} {p : α → Bool}

/-- A group starts with a mark, and has no other. -/
def Marked (p : α → Bool) : List α → Prop
  | [] => False
  | x :: xs => p x = true ∧ ∀ y ∈ xs, p y = false

theorem takeWhile_flatten {xs : List α} (hx : ∀ y ∈ xs, p y = false) {gs : List (List α)}
    (hg : ∀ g ∈ gs, Marked p g) :
    (xs ++ gs.flatten).takeWhile (!p ·) = xs ∧
      (xs ++ gs.flatten).dropWhile (!p ·) = gs.flatten := by
  have hxs : ∀ y ∈ xs, (!p y) = true := fun y hy => by rw [hx y hy]; rfl
  rw [List.takeWhile_append_of_pos hxs, List.dropWhile_append_of_pos hxs]
  cases gs with
  | nil => simp
  | cons g gs =>
      have hMark := hg g List.mem_cons_self
      cases g with
      | nil => exact hMark.elim
      | cons x g => simp [hMark.1]

/-- Marked groups can be told apart in their concatenation. -/
theorem flatten_inj_of_marked {gs gs' : List (List α)} (hg : ∀ g ∈ gs, Marked p g)
    (hg' : ∀ g ∈ gs', Marked p g) (h : gs.flatten = gs'.flatten) : gs = gs' := by
  induction gs generalizing gs' with
  | nil =>
      cases gs' with
      | nil => rfl
      | cons g' gs' =>
          have hMark := hg' g' List.mem_cons_self
          cases g' with
          | nil => exact hMark.elim
          | cons x g' => simp at h
  | cons g gs ih =>
      have hMark := hg g List.mem_cons_self
      have hRest : ∀ g ∈ gs, Marked p g := fun g hm => hg g (List.mem_cons_of_mem _ hm)
      cases g with
      | nil => exact hMark.elim
      | cons x xs =>
          cases gs' with
          | nil => simp at h
          | cons g' gs' =>
              have hMark' := hg' g' List.mem_cons_self
              have hRest' : ∀ g ∈ gs', Marked p g := fun g hm => hg' g (List.mem_cons_of_mem _ hm)
              cases g' with
              | nil => exact hMark'.elim
              | cons x' xs' =>
                  simp only [List.flatten_cons, List.cons_append, List.cons.injEq] at h
                  obtain ⟨rfl, h⟩ := h
                  have hTake := takeWhile_flatten hMark.2 hRest
                  have hTake' := takeWhile_flatten hMark'.2 hRest'
                  rw [h] at hTake
                  have hxs : xs = xs' := hTake.1.symm.trans hTake'.1
                  have hgs : gs.flatten = gs'.flatten := hTake.2.symm.trans hTake'.2
                  rw [hxs, ih hRest hRest' hgs]

end Groups

section Joined

/-- The text of an entry: only its first word has an equals sign. -/
def IsEntry (text : String) : Prop :=
  Marked (fun w : String => decide ('=' ∈ w.toList)) (Text.words text)

theorem words_ne_nil (text : String) : Text.words text ≠ [] := Text.split_ne_nil ' ' text

theorem words_injective : Function.Injective Text.words := by
  intro t t' h
  rw [← Text.intercalate_words t, h, Text.intercalate_words]

/-- The words of joined texts are the words of the texts. -/
theorem words_intercalate_flatten {ts : List String} (hne : ts ≠ []) :
    Text.words (" ".intercalate ts) = (ts.map Text.words).flatten := by
  have hJoin : " ".intercalate ts = " ".intercalate (ts.map Text.words).flatten := by
    clear hne
    induction ts with
    | nil => rfl
    | cons t ts ih =>
        by_cases hts : ts = []
        · subst hts
          simp [Text.intercalate_words]
        · have hRest : (ts.map Text.words).flatten ≠ [] := by
            obtain ⟨t', ts', rfl⟩ := List.exists_cons_of_ne_nil hts
            simp [words_ne_nil]
          rw [String.intercalate_cons_of_ne_nil hts, List.map_cons, List.flatten_cons,
            String.intercalate_append_of_ne_nil (words_ne_nil t) hRest, Text.intercalate_words, ih]
  rw [hJoin]
  apply Text.words_intercalate
  · intro w hw
    obtain ⟨ws, hws, hw⟩ := List.mem_flatten.mp hw
    obtain ⟨t, -, rfl⟩ := List.mem_map.mp hws
    exact Text.notMem_of_mem_split hw
  · obtain ⟨t, ts, rfl⟩ := List.exists_cons_of_ne_nil hne
    simp [words_ne_nil]

/-- The texts of entries can be told apart when they are joined. -/
theorem intercalate_entries_inj {ts ts' : List String} (hs : ∀ t ∈ ts, IsEntry t)
    (hs' : ∀ t ∈ ts', IsEntry t) (hne : ts ≠ []) (hne' : ts' ≠ [])
    (h : " ".intercalate ts = " ".intercalate ts') : ts = ts' := by
  have hWords := congrArg Text.words h
  rw [words_intercalate_flatten hne, words_intercalate_flatten hne'] at hWords
  have hGroups := flatten_inj_of_marked (by simpa [IsEntry] using hs) (by simpa [IsEntry] using hs')
    hWords
  exact List.map_injective_iff.mpr words_injective hGroups

end Joined

section Rules

/-- A rule of the form `-k1 v1 ... -kn vn -j TARGET rest`. -/
structure Rule where
  opts : List Opt
  target : String
  rest : List String

namespace Rule

/-- The words of the rule, with single blanks between them. -/
def text (r : Rule) : String := " ".intercalate (ruleWords r.opts (r.target :: r.rest))

/-- The flags of the rule with their values. -/
def pairs (r : Rule) : List (String × String) := r.opts.map (fun o => (o.name, o.value))

/-- The names of the flags are different, and none of them is the jump; where a
name or a word behind the target had an equals sign, or a word had a blank, the
text of the key could be read in two ways. -/
structure WellFormed (r : Rule) : Prop where
  readable : ∀ o ∈ r.opts, o.Readable
  names : (r.opts.map Opt.name).Nodup
  noEquals : ∀ o ∈ r.opts, '=' ∉ o.name.toList
  target : IsWord r.target
  rest : ∀ w ∈ r.rest, IsWord w ∧ '=' ∉ w.toList

/-- What the jump takes as its value. -/
def jump (r : Rule) : String := " ".intercalate (r.target :: r.rest)

/-- The entries of the map that `ruleKey` builds. -/
def entries (r : Rule) : List (Σ _ : String, String) :=
  ⟨"j", r.jump⟩ :: r.opts.map (fun o => ⟨o.name, o.value⟩)

variable {r r' : Rule}

theorem WellFormed.isWord_args (h : r.WellFormed) : ∀ w ∈ r.target :: r.rest, IsWord w := by
  intro w hw
  rcases List.mem_cons.mp hw with rfl | hw
  · exact h.target
  · exact (h.rest w hw).1

/-- The key of a well-formed rule is the text of its entries. -/
theorem WellFormed.ruleKey_eq (h : r.WellFormed) :
    ruleKey r.text = some ("[" ++ " ".intercalate
      ((r.entries.map Str.entryText).insertionSort (· ≤ ·)) ++ "]") := by
  obtain ⟨m, hKey, hEntries⟩ :=
    ruleKey_ruleWords h.readable h.names h.isWord_args (List.cons_ne_nil _ _)
  have hTexts := (hEntries.map Str.entryText).trans (List.perm_insertionSort (· ≤ ·) _).symm
  rw [text, hKey, Str.mapAsString_eq .stored hTexts (List.pairwise_insertionSort (· ≤ ·) _)]
  rfl

/-- The value of the jump has words of its own, but no further equals sign. -/
theorem WellFormed.isEntry (h : r.WellFormed) {e : Σ _ : String, String} (he : e ∈ r.entries) :
    IsEntry (Str.entryText e) := by
  rcases List.mem_cons.mp he with rfl | he
  · have hText : Str.entryText ⟨"j", r.jump⟩ = " ".intercalate (("j=" ++ r.target) :: r.rest) := by
      cases hRest : r.rest with
      | nil => simp [Str.entryText, jump, hRest]
      | cons w ws =>
          simp only [Str.entryText, jump, hRest, String.intercalate_cons_cons]
          simp only [← String.append_assoc]
          rfl
    have hWords : Text.words (Str.entryText ⟨"j", r.jump⟩) = ("j=" ++ r.target) :: r.rest := by
      rw [hText]
      apply Text.words_intercalate _ (List.cons_ne_nil _ _)
      intro w hw
      rcases List.mem_cons.mp hw with rfl | hw
      · simpa using h.target.blank_notMem
      · exact (h.rest w hw).1.blank_notMem
    rw [IsEntry, hWords]
    exact ⟨by simp, fun w hw => by simpa using (h.rest w hw).2⟩
  · obtain ⟨o, ho, rfl⟩ := List.mem_map.mp he
    have hRead := h.readable o ho
    have hBlank : ∀ w ∈ [o.name ++ "=" ++ o.value], ' ' ∉ w.toList := by
      intro w hw
      rw [List.mem_singleton.mp hw]
      simpa using ⟨hRead.name.blank_notMem, hRead.value.blank_notMem⟩
    have hWords := Text.words_intercalate hBlank (List.cons_ne_nil _ _)
    rw [String.intercalate_singleton] at hWords
    rw [IsEntry, Str.entryText, hWords]
    exact ⟨by simp, by simp⟩

theorem WellFormed.equals_notMem (h : r.WellFormed) {e : Σ _ : String, String}
    (he : e ∈ r.entries) : '=' ∉ e.1.toList := by
  rcases List.mem_cons.mp he with rfl | he
  · simp
  · obtain ⟨o, ho, rfl⟩ := List.mem_map.mp he
    exact h.noEquals o ho

/-- The sorted texts of the entries, as the key lists them. -/
def sortedTexts (r : Rule) : List String := (r.entries.map Str.entryText).insertionSort (· ≤ ·)

theorem mem_sortedTexts {t : String} :
    t ∈ r.sortedTexts ↔ ∃ e ∈ r.entries, Str.entryText e = t := by
  simp [sortedTexts]

/-- Rules with the same key have the same entries. -/
theorem WellFormed.mem_entries (h : r.WellFormed) (h' : r'.WellFormed)
    (hKey : ruleKey r.text = ruleKey r'.text) {e : Σ _ : String, String} (he : e ∈ r.entries) :
    e ∈ r'.entries := by
  have hEntry : ∀ {s : Rule}, s.WellFormed → ∀ t ∈ s.sortedTexts, IsEntry t := by
    intro s hs t ht
    obtain ⟨e, he, rfl⟩ := mem_sortedTexts.mp ht
    exact hs.isEntry he
  have hSome : ∀ s : Rule, s.sortedTexts ≠ [] := by
    intro s hNil
    have hMem : Str.entryText ⟨"j", s.jump⟩ ∈ s.sortedTexts :=
      mem_sortedTexts.mpr ⟨_, List.mem_cons_self, rfl⟩
    rw [hNil] at hMem
    cases hMem
  rw [h.ruleKey_eq, h'.ruleKey_eq, Option.some.injEq] at hKey
  have hJoined : " ".intercalate r.sortedTexts = " ".intercalate r'.sortedTexts :=
    (String.append_right_inj _).mp ((String.append_left_inj _).mp hKey)
  have hTexts := intercalate_entries_inj (hEntry h) (hEntry h') (hSome r) (hSome r') hJoined
  have hMem : Str.entryText e ∈ r'.sortedTexts := hTexts ▸ mem_sortedTexts.mpr ⟨e, he, rfl⟩
  obtain ⟨e', he', hText⟩ := mem_sortedTexts.mp hMem
  have hSplit : e'.1 ++ (String.singleton '=' ++ e'.2) = e.1 ++ (String.singleton '=' ++ e.2) := by
    simpa [Str.entryText, String.append_assoc] using hText
  obtain ⟨hName, hValue⟩ :=
    Text.string_append_sep_inj (h'.equals_notMem he') (h.equals_notMem he) hSplit
  obtain ⟨name, value⟩ := e
  obtain ⟨name', value'⟩ := e'
  cases hName
  cases hValue
  exact he'

theorem WellFormed.jump_eq (h : r.WellFormed) (h' : r'.WellFormed)
    (hKey : ruleKey r.text = ruleKey r'.text) : r.jump = r'.jump := by
  rcases List.mem_cons.mp (h.mem_entries h' hKey List.mem_cons_self) with hEq | hMem
  · exact eq_of_heq (Sigma.mk.inj hEq).2
  · obtain ⟨o, ho, hEq⟩ := List.mem_map.mp hMem
    exact absurd (congrArg Sigma.fst hEq) (h'.readable o ho).noJump.1

theorem WellFormed.mem_pairs (h : r.WellFormed) (h' : r'.WellFormed)
    (hKey : ruleKey r.text = ruleKey r'.text) {name value : String}
    (hp : (name, value) ∈ r.pairs) : (name, value) ∈ r'.pairs := by
  obtain ⟨o, ho, hEq⟩ := List.mem_map.mp hp
  cases hEq
  have he : (⟨o.name, o.value⟩ : Σ _ : String, String) ∈ r.entries :=
    List.mem_cons_of_mem _ (List.mem_map_of_mem ho)
  rcases List.mem_cons.mp (h.mem_entries h' hKey he) with hEq | hMem
  · exact absurd (congrArg Sigma.fst hEq) (h.readable o ho).noJump.1
  · obtain ⟨o', ho', hEq⟩ := List.mem_map.mp hMem
    refine List.mem_map.mpr ⟨o', ho', ?_⟩
    rw [Sigma.mk.injEq] at hEq
    rw [hEq.1, eq_of_heq hEq.2]

theorem entries_eq (r : Rule) :
    r.entries = ⟨"j", r.jump⟩ :: r.pairs.map (fun p => (⟨p.1, p.2⟩ : Σ _ : String, String)) := by
  simp [entries, pairs, Function.comp_def]

theorem WellFormed.nodup_pairs (h : r.WellFormed) : r.pairs.Nodup := by
  apply List.Nodup.of_map Prod.fst
  simpa [pairs, Function.comp_def] using h.names

/-- Every well-formed rule has a key, and two of them have the same one exactly
when they have the same target, the same words behind it and the same flags with
the same values, in whatever order and with however many dashes. -/
theorem ruleKey_complete (h : r.WellFormed) (h' : r'.WellFormed) :
    (ruleKey r.text).isSome ∧
      (ruleKey r.text = ruleKey r'.text ↔ r.target = r'.target ∧ r.rest = r'.rest ∧
        ∀ name value, (name, value) ∈ r.pairs ↔ (name, value) ∈ r'.pairs) := by
  refine ⟨by rw [h.ruleKey_eq]; rfl, ?_, ?_⟩
  · intro hKey
    have hArgs : r.target :: r.rest = r'.target :: r'.rest := by
      rw [← Text.words_intercalate (fun w hw => (h.isWord_args w hw).blank_notMem)
        (List.cons_ne_nil _ _), ← Text.words_intercalate
        (fun w hw => (h'.isWord_args w hw).blank_notMem) (List.cons_ne_nil _ _)]
      exact congrArg Text.words (h.jump_eq h' hKey)
    obtain ⟨hTarget, hRest⟩ := List.cons.inj hArgs
    exact ⟨hTarget, hRest, fun _ _ => ⟨h.mem_pairs h' hKey, h'.mem_pairs h hKey.symm⟩⟩
  · rintro ⟨hTarget, hRest, hPairs⟩
    have hPerm : r.pairs.Perm r'.pairs :=
      (List.perm_ext_iff_of_nodup h.nodup_pairs h'.nodup_pairs).mpr (fun p => hPairs p.1 p.2)
    have hEntries : r.entries.Perm r'.entries := by
      rw [entries_eq, entries_eq, jump, jump, hTarget, hRest]
      exact (hPerm.map _).cons _
    rw [h.ruleKey_eq, h'.ruleKey_eq, Str.insertionSort_eq
      ((hEntries.map Str.entryText).trans (List.perm_insertionSort (· ≤ ·) _).symm)
      (List.pairwise_insertionSort (· ≤ ·) _)]

/-- A rule of the chain PREROUTING. -/
def sample : Rule :=
  ⟨[⟨false, "i", "eth0"⟩, ⟨true, "dport", "80"⟩], "DNAT", ["--to-destination", "10.0.0.2:80"]⟩

/-- The same flags in the other order. -/
def reordered : Rule := { sample with opts := [⟨true, "dport", "80"⟩, ⟨false, "i", "eth0"⟩] }

/-- The conditions of a well-formed rule, as they can be computed. -/
theorem WellFormed.of_all (hOpts : r.opts.all (fun o =>
      o.name ≠ "" ∧ o.name.toList.all (!isSpace ·) ∧ o.name.toList.head? ≠ some '-' ∧
      (o.name ≠ "j" ∧ o.name ≠ "jump") ∧ '=' ∉ o.name.toList ∧
      o.value ≠ "" ∧ o.value.toList.all (!isSpace ·)) = true)
    (hNames : (r.opts.map Opt.name).Nodup)
    (hTarget : r.target ≠ "" ∧ r.target.toList.all (!isSpace ·) = true)
    (hRest : r.rest.all (fun w => w ≠ "" ∧ w.toList.all (!isSpace ·) ∧ '=' ∉ w.toList) = true) :
    r.WellFormed := by
  have hOpt := fun o ho => of_decide_eq_true (List.all_eq_true.mp hOpts o ho)
  have hWord := fun w hw => of_decide_eq_true (List.all_eq_true.mp hRest w hw)
  constructor
  · intro o ho
    obtain ⟨hName, hChars, hDash, hJump, -, hValue, hChars'⟩ := hOpt o ho
    exact ⟨.of_all ⟨hName, hChars⟩, hDash, hJump, .of_all ⟨hValue, hChars'⟩⟩
  · exact hNames
  · exact fun o ho => (hOpt o ho).2.2.2.2.1
  · exact .of_all hTarget
  · exact fun w hw => ⟨.of_all ⟨(hWord w hw).1, (hWord w hw).2.1⟩, (hWord w hw).2.2⟩

theorem ruleKey_complete_reordered :
    sample.WellFormed ∧ reordered.WellFormed ∧ ruleKey sample.text = ruleKey reordered.text := by
  have hSample : sample.WellFormed :=
    .of_all (by decide +kernel) (by decide) (by decide +kernel) (by decide +kernel)
  have hReordered : reordered.WellFormed :=
    .of_all (by decide +kernel) (by decide) (by decide +kernel) (by decide +kernel)
  refine ⟨hSample, hReordered, (ruleKey_complete hSample hReordered).2.mpr ⟨rfl, rfl, ?_⟩⟩
  intro name value
  simp [pairs, sample, reordered, or_comm]

end Rule

end Rules

end Kelda.Network.NAT
