import Kelda.DB.Loops
import Kelda.Join.HashJoin
import Kelda.Network.RuleKey

/-! The synchronisation of an iptables chain with the rules it is to hold. The
chain is joined with its target by the keys of the rules; what is left over on
the one side is deleted, what is left over on the other side is appended. -/
namespace Kelda.Network.NAT

open Join

section Chain

/-- The chains of the table `nat` that are kept in sync. -/
inductive Chain where
  | prerouting
  | postrouting

def Chain.name : Chain → String
  | .prerouting => "PREROUTING"
  | .postrouting => "POSTROUTING"

/-- A chain with its rules, and the outcomes of the calls to come: an error, or
none if the call succeeds. A call beyond them succeeds. -/
structure IPTables where
  rules : List String
  faults : List (Option String)
deriving DecidableEq

namespace IPTables

def call (ipt : IPTables) : Except String IPTables :=
  match ipt.faults with
  | some err :: _ => .error err
  | none :: faults => .ok { ipt with faults }
  | [] => .ok ipt

/-- The line of a rule. A rule without options has no blank after the chain. -/
def line (chain : Chain) (rule : String) : String :=
  if rule = "" then "-A " ++ chain.name else "-A " ++ (chain.name ++ (" " ++ rule))

/-- The policy of the chain and its rules. -/
def list (ipt : IPTables) (chain : Chain) : Except String (List String × IPTables) := do
  let ipt ← ipt.call
  .ok (("-P " ++ chain.name ++ " ACCEPT") :: ipt.rules.map (line chain), ipt)

/-- Remove the first rule with the given words. -/
def delete (ipt : IPTables) (ruleBlueprint : List String) : Except String IPTables := do
  let ipt ← ipt.call
  let rule := " ".intercalate ruleBlueprint
  if rule ∈ ipt.rules then .ok { ipt with rules := ipt.rules.erase rule }
  else .error "iptables: Bad rule (does a matching rule exist in that chain?)."

def append (ipt : IPTables) (ruleBlueprint : List String) : Except String IPTables := do
  let ipt ← ipt.call
  .ok { ipt with rules := ipt.rules ++ [" ".intercalate ruleBlueprint] }

end IPTables

/-- The rule of a line, which comes after the command and the chain. Other
commands are skipped. -/
def addRawRule (rules : List String) (r : String) : Except String (List String) :=
  if "-A".toList.isPrefixOf r.toList then
    match Text.splitN ' ' 3 r.toList with
    | [_, _, rule] => .ok (rules ++ [String.ofList rule])
    | _ => .error ("malformed rule: " ++ r)
  else .ok rules

def getRules (ipt : IPTables) (chain : Chain) : Except String (List String × IPTables) := do
  let (rawRules, ipt) ← ipt.list chain
  let rules ← rawRules.foldlM addRawRule []
  .ok (rules, ipt)

/-- The error is that of the first call that fails. -/
def syncChain (ord : MapOrder) (ipt : IPTables) (chain : Chain) (target : List String) :
    Except String IPTables := do
  let (curr, ipt) ← (getRules ipt chain).mapError ("iptables get: " ++ ·)
  let joined := hashJoin ord curr target ruleKey ruleKey
  let ipt ← joined.lonelyLefts.foldlM
    (fun ipt r => (ipt.delete (Text.words r)).mapError ("iptables delete: " ++ ·)) ipt
  joined.lonelyRights.foldlM
    (fun ipt r => (ipt.append (Text.words r)).mapError ("iptables append: " ++ ·)) ipt

end Chain

section Run

theorem mapError_eq_ok {α : Type} {f : String → String} {x : Except String α} {a : α} :
    x.mapError f = .ok a ↔ x = .ok a := by
  cases x <;> simp [Except.mapError]

theorem call_rules {ipt ipt' : IPTables} (h : ipt.call = .ok ipt') : ipt'.rules = ipt.rules := by
  rw [IPTables.call] at h
  split at h
  · cases h
  · cases h
    rfl
  · cases h
    rfl

theorem blank_notMem_name (chain : Chain) : ' ' ∉ chain.name.toList := by
  cases chain <;> simp [Chain.name]

/-- A line is split into its rule. One without options cannot be split. -/
theorem addRawRule_line {chain : Chain} {rules rules' : List String} {rule : String}
    (h : addRawRule rules (IPTables.line chain rule) = .ok rules') : rules' = rules ++ [rule] := by
  have hCommand : "-A ".toList = "-A".toList ++ [' '] := by simp
  rw [IPTables.line] at h
  split_ifs at h with hEmpty
  · have hSplit : Text.splitN ' ' 3 ("-A " ++ chain.name).toList =
        ["-A".toList, chain.name.toList] := by
      rw [String.toList_append, hCommand, List.append_assoc, List.singleton_append,
        Text.splitN_append 1 (by simp), Text.splitN]
      have hAll : chain.name.toList.dropWhile (· ≠ ' ') = [] := by
        rw [List.dropWhile_eq_nil_iff]
        exact fun c hc => decide_eq_true (fun hEq => blank_notMem_name chain (hEq ▸ hc))
      rw [hAll]
    have hFirst : "-A".toList.isPrefixOf ("-A " ++ chain.name).toList = true := by simp
    rw [addRawRule, if_pos hFirst, hSplit] at h
    cases h
  · have hSplit : Text.splitN ' ' 3 ("-A " ++ (chain.name ++ (" " ++ rule))).toList =
        ["-A".toList, chain.name.toList, rule.toList] := by
      have hBlank : (" " ++ rule).toList = ' ' :: rule.toList := by simp
      rw [String.toList_append, hCommand, List.append_assoc, List.singleton_append,
        Text.splitN_append 1 (by simp), String.toList_append, hBlank,
        Text.splitN_append 0 (blank_notMem_name chain), Text.splitN]
    have hFirst : "-A".toList.isPrefixOf ("-A " ++ (chain.name ++ (" " ++ rule))).toList = true := by
      simp
    rw [addRawRule, if_pos hFirst, hSplit] at h
    cases h
    rw [String.ofList_toList]

/-- What is read back is what the chain holds. -/
theorem getRules_rules {ipt ipt' : IPTables} {chain : Chain} {rules : List String}
    (h : getRules ipt chain = .ok (rules, ipt')) : rules = ipt.rules ∧ ipt'.rules = ipt.rules := by
  obtain ⟨⟨raw, ipt₁⟩, hList, h⟩ := Except.exists_of_bind_eq_ok h
  obtain ⟨ipt₂, hCall, hList⟩ := Except.exists_of_bind_eq_ok hList
  cases hList
  obtain ⟨rules, hLoop, h⟩ := Except.exists_of_bind_eq_ok h
  cases h
  have hPolicy : addRawRule [] ("-P " ++ chain.name ++ " ACCEPT") = .ok [] := by
    simp [addRawRule]
  have hLines : ∀ (rs acc res : List String),
      (rs.map (IPTables.line chain)).foldlM addRawRule acc = .ok res → res = acc ++ rs := by
    intro rs
    induction rs with
    | nil =>
        intro acc res hRes
        cases hRes
        simp
    | cons r rs ih =>
        intro acc res hRes
        obtain ⟨acc', hLine, hRes⟩ := Except.exists_of_bind_eq_ok hRes
        rw [ih acc' res hRes, addRawRule_line hLine, List.append_assoc, List.singleton_append]
  rw [List.foldlM_cons, hPolicy] at hLoop
  rw [hLines _ _ _ hLoop, List.nil_append, call_rules hCall]
  exact ⟨rfl, rfl⟩

theorem deleteAll_perm {rs : List String} {ipt ipt' : IPTables}
    (h : rs.foldlM (fun (ipt : IPTables) r =>
      (ipt.delete (Text.words r)).mapError ("iptables delete: " ++ ·)) ipt = .ok ipt') :
    ipt.rules.Perm (rs ++ ipt'.rules) := by
  induction rs generalizing ipt with
  | nil =>
      cases h
      exact List.Perm.refl _
  | cons r rs ih =>
      obtain ⟨ipt₁, hDelete, h⟩ := Except.exists_of_bind_eq_ok h
      obtain ⟨ipt₂, hCall, hDelete⟩ := Except.exists_of_bind_eq_ok (mapError_eq_ok.mp hDelete)
      simp only [Text.intercalate_words, call_rules hCall] at hDelete
      split_ifs at hDelete with hMem
      cases hDelete
      exact (List.perm_cons_erase hMem).trans ((ih h).cons r)

theorem appendAll_rules {rs : List String} {ipt ipt' : IPTables}
    (h : rs.foldlM (fun (ipt : IPTables) r =>
      (ipt.append (Text.words r)).mapError ("iptables append: " ++ ·)) ipt = .ok ipt') :
    ipt'.rules = ipt.rules ++ rs := by
  induction rs generalizing ipt with
  | nil =>
      cases h
      simp
  | cons r rs ih =>
      obtain ⟨ipt₁, hAppend, h⟩ := Except.exists_of_bind_eq_ok h
      obtain ⟨ipt₂, hCall, hAppend⟩ := Except.exists_of_bind_eq_ok (mapError_eq_ok.mp hAppend)
      cases hAppend
      rw [ih h]
      simp [call_rules hCall, Text.intercalate_words]

/-- A run that succeeds deletes the lonely rules of the chain and appends those
of the target. -/
theorem syncChain_rules {ord : MapOrder} {ipt ipt' : IPTables} {chain : Chain}
    {target : List String} (h : syncChain ord ipt chain target = .ok ipt') :
    ∃ kept, ipt.rules.Perm ((hashJoin ord ipt.rules target ruleKey ruleKey).lonelyLefts ++ kept) ∧
      ipt'.rules = kept ++ (hashJoin ord ipt.rules target ruleKey ruleKey).lonelyRights := by
  obtain ⟨⟨curr, ipt₁⟩, hGet, h⟩ := Except.exists_of_bind_eq_ok h
  obtain ⟨rfl, hRules⟩ := getRules_rules (mapError_eq_ok.mp hGet)
  obtain ⟨ipt₂, hDelete, h⟩ := Except.exists_of_bind_eq_ok h
  have hKept := deleteAll_perm hDelete
  rw [hRules] at hKept
  exact ⟨ipt₂.rules, hKept, appendAll_rules h⟩

end Run

section Synced

/-- The chain holds a rule for each rule of the target, up to the order of the
options, exactly one, and nothing else. -/
def Synced (target rules : List String) : Prop :=
  (∀ r ∈ rules, ∃ t ∈ target, Reorders r t) ∧
    ∀ t ∈ target, rules.countP (fun r => Reorders r t) = 1

/-- What the keys have to tell apart: the rules of the chain among themselves,
those of the target among themselves, and a rule of the chain from one of the
target that it is no reordering of. -/
structure Separated (target rules : List String) : Prop where
  chain : (rules.map ruleKey).Nodup
  wanted : target.Nodup
  across : ∀ r ∈ rules, ∀ t ∈ target, ruleKey r = ruleKey t → Reorders r t

theorem countP_eq_one {α : Type} {p : α → Bool} {l : List α} {x : α} (hNodup : l.Nodup)
    (hMem : x ∈ l) (hx : p x = true) (hOnly : ∀ y ∈ l, p y = true → y = x) : l.countP p = 1 := by
  have hPerm : (l.filter p).Perm [x] := by
    rw [List.perm_ext_iff_of_nodup (hNodup.filter p) (List.nodup_singleton x)]
    intro y
    rw [List.mem_filter, List.mem_singleton]
    constructor
    · exact fun hy => hOnly y hy.1 hy.2
    · rintro rfl
      exact ⟨hMem, hx⟩
  rw [List.countP_eq_length_filter, hPerm.length_eq, List.length_singleton]

variable {publicInterface : String} {target curr kept : List String}
  {joined : Result String String}

/-- The keys of a synced chain are those of the target, each once. -/
theorem Synced.nodup_keys (hInterface : IsValue publicInterface)
    (hTarget : IsTarget publicInterface target) {rules : List String} (h : Synced target rules) :
    (rules.map ruleKey).Nodup := by
  rw [List.nodup_iff_count_le_one]
  intro k
  rw [List.count, List.countP_map]
  by_cases hSome : ∃ r ∈ rules, ruleKey r = k
  · obtain ⟨r, hr, rfl⟩ := hSome
    obtain ⟨t, ht, hReorders⟩ := h.1 r hr
    rw [← h.2 t ht]
    apply List.countP_mono_left
    intro r' hr' hKey
    -- a rule with this key reorders some rule of the target, which has the key as well
    obtain ⟨t', ht', hReorders'⟩ := h.1 r' hr'
    have hSame : ruleKey t' = ruleKey t := by
      rw [← hTarget.key_of_reorders hInterface ht' hReorders',
        ← hTarget.key_of_reorders hInterface ht hReorders]
      simpa using hKey
    rw [← hTarget.key_inj hInterface ht' ht hSame]
    exact decide_eq_true hReorders'
  · rw [List.countP_eq_zero.mpr]
    · omega
    · intro r hr hKey
      exact hSome ⟨r, hr, by simpa using hKey⟩

theorem Separated.of_synced (hInterface : IsValue publicInterface)
    (hTarget : IsTarget publicInterface target)
    (hJoin : Reconciles curr target ruleKey ruleKey joined)
    (hKept : curr.Perm (joined.lonelyLefts ++ kept))
    (h : Synced target (kept ++ joined.lonelyRights)) : Separated target curr := by
  have hKeys := h.nodup_keys hInterface hTarget
  rw [List.map_append, List.nodup_append] at hKeys
  obtain ⟨hKeptKeys, hRightKeys, hApart⟩ := hKeys
  have hStays : ∀ r ∈ curr, ∀ t ∈ target, ruleKey r = ruleKey t → r ∈ kept := by
    intro r hr t ht hKey
    rcases List.mem_append.mp (hKept.mem_iff.mp hr) with hLonely | hr
    · exact (hJoin.unmatched r hLonely t ht hKey).elim
    · exact hr
  have hTargetKey : ∀ r ∈ kept, ∃ t ∈ target, ruleKey r = ruleKey t ∧ Reorders r t := by
    intro r hr
    obtain ⟨t, ht, hReorders⟩ := h.1 r (List.mem_append_left _ hr)
    exact ⟨t, ht, hTarget.key_of_reorders hInterface ht hReorders, hReorders⟩
  constructor
  · rw [(hKept.map ruleKey).nodup_iff, List.map_append, List.nodup_append]
    refine ⟨?_, hKeptKeys, ?_⟩
    · have hLefts := hJoin.leftKeys
      rw [List.map_append, List.nodup_append] at hLefts
      exact hLefts.2.1
    · intro k hk k' hk'
      obtain ⟨l, hl, rfl⟩ := List.mem_map.mp hk
      obtain ⟨r, hr, rfl⟩ := List.mem_map.mp hk'
      obtain ⟨t, ht, hKey, -⟩ := hTargetKey r hr
      rw [hKey]
      exact hJoin.unmatched l hl t ht
  · have hRights : ((joined.pairs.map Pair.R ++ joined.lonelyRights).map ruleKey).Nodup := by
      have hPairs : (joined.pairs.map Pair.R).map ruleKey =
          (joined.pairs.map Pair.L).map ruleKey := by
        rw [List.map_map, List.map_map]
        exact List.map_congr_left (fun p hp => (hJoin.sameKey p hp).symm)
      have hLefts := hJoin.leftKeys
      rw [List.map_append, List.nodup_append] at hLefts
      rw [List.map_append, List.nodup_append, hPairs]
      refine ⟨hLefts.1, hRightKeys, ?_⟩
      intro k hk k' hk'
      obtain ⟨l, hl, rfl⟩ := List.mem_map.mp hk
      obtain ⟨p, hp, rfl⟩ := List.mem_map.mp hl
      have hMem : p.L ∈ kept := by
        apply hStays p.L (hJoin.lefts (List.mem_append_left _ hl)) p.R _ (hJoin.sameKey p hp)
        exact hJoin.rights.mem_iff.mp (List.mem_append_left _ (List.mem_map_of_mem hp))
      exact hApart _ (List.mem_map_of_mem hMem) k' hk'
    exact hJoin.rights.nodup_iff.mp (hRights.of_map _)
  · intro r hr t ht hKey
    obtain ⟨t', ht', hKey', hReorders⟩ := hTargetKey r (hStays r hr t ht hKey)
    rw [hTarget.key_inj hInterface ht ht' (hKey.symm.trans hKey')]
    exact hReorders

theorem Separated.synced (hInterface : IsValue publicInterface)
    (hTarget : IsTarget publicInterface target)
    (hJoin : Reconciles curr target ruleKey ruleKey joined)
    (hKept : curr.Perm (joined.lonelyLefts ++ kept)) (h : Separated target curr) :
    Synced target (kept ++ joined.lonelyRights) := by
  have hCurr := (hKept.map ruleKey).nodup_iff.mp h.chain
  rw [List.map_append, List.nodup_append] at hCurr
  have hWanted : ((joined.pairs.map Pair.R ++ joined.lonelyRights).map ruleKey).Nodup := by
    rw [(hJoin.rights.map ruleKey).nodup_iff]
    exact h.wanted.map_on (fun t ht t' ht' hKey => hTarget.key_inj hInterface ht ht' hKey)
  rw [List.map_append, List.nodup_append] at hWanted
  have hRight : ∀ r ∈ joined.lonelyRights, r ∈ target :=
    fun r hr => hJoin.rights.mem_iff.mp (List.mem_append_right _ hr)
  have hPair : ∀ p ∈ joined.pairs, p.R ∈ target := fun p hp =>
    hJoin.rights.mem_iff.mp (List.mem_append_left _ (List.mem_map_of_mem hp))
  have hPaired : ∀ r ∈ kept, ∃ p ∈ joined.pairs, p.L = r := by
    intro r hr
    have hr' := hKept.mem_iff.mpr (List.mem_append_right _ hr)
    obtain ⟨l, hl, hKey⟩ := hJoin.covers r hr'
    obtain rfl := List.inj_on_of_nodup_map h.chain (hJoin.lefts hl) hr' hKey
    rcases List.mem_append.mp hl with hl | hl
    · exact List.mem_map.mp hl
    · exact (hCurr.2.2 _ (List.mem_map_of_mem hl) _ (List.mem_map_of_mem hr) rfl).elim
  have hKeys : ((kept ++ joined.lonelyRights).map ruleKey).Nodup := by
    rw [List.map_append, List.nodup_append]
    refine ⟨hCurr.2.1, hWanted.2.1, ?_⟩
    intro k hk k' hk'
    obtain ⟨r, hr, rfl⟩ := List.mem_map.mp hk
    obtain ⟨p, hp, rfl⟩ := hPaired r hr
    rw [hJoin.sameKey p hp]
    exact hWanted.2.2 _ (List.mem_map_of_mem (List.mem_map_of_mem hp)) k' hk'
  constructor
  · intro r hr
    rcases List.mem_append.mp hr with hr | hr
    · obtain ⟨p, hp, rfl⟩ := hPaired r hr
      refine ⟨p.R, hPair p hp, h.across _ ?_ _ (hPair p hp) (hJoin.sameKey p hp)⟩
      exact hKept.mem_iff.mpr (List.mem_append_right _ hr)
    · exact ⟨r, hRight r hr, Reorders.refl r⟩
  · intro t ht
    obtain ⟨r, hr, hReorders⟩ : ∃ r ∈ kept ++ joined.lonelyRights, Reorders r t := by
      rcases List.mem_append.mp (hJoin.rights.mem_iff.mpr ht) with hMatched | hr
      · obtain ⟨p, hp, rfl⟩ := List.mem_map.mp hMatched
        have hLeft := hJoin.lefts (List.mem_append_left _ (List.mem_map_of_mem hp))
        refine ⟨p.L, List.mem_append_left _ ?_, h.across _ hLeft _ ht (hJoin.sameKey p hp)⟩
        rcases List.mem_append.mp (hKept.mem_iff.mp hLeft) with hLonely | hMem
        · exact (hJoin.unmatched _ hLonely _ ht (hJoin.sameKey p hp)).elim
        · exact hMem
      · exact ⟨t, List.mem_append_right _ hr, Reorders.refl t⟩
    apply countP_eq_one (hKeys.of_map _) hr (decide_eq_true hReorders)
    intro r' hr' hReorders'
    apply List.inj_on_of_nodup_map hKeys hr' hr
    rw [hTarget.key_of_reorders hInterface ht (of_decide_eq_true hReorders'),
      hTarget.key_of_reorders hInterface ht hReorders]

/-- A chain of one forwarding rule, which is to be exchanged for another one. -/
def sampleChain : IPTables := ⟨[dnatRule "eth0" "tcp" 80 "10.0.0.2"], []⟩

/-- A run that returns no error syncs the chain exactly if the keys tell apart
what they have to. -/
theorem syncChain_synced_iff (ord : MapOrder) {ipt ipt' : IPTables} {chain : Chain}
    (hInterface : IsValue publicInterface) (hTarget : IsTarget publicInterface target)
    (hRun : syncChain ord ipt chain target = .ok ipt') :
    Synced target ipt'.rules ↔ Separated target ipt.rules := by
  obtain ⟨kept, hKept, hRules⟩ := syncChain_rules hRun
  have hJoin := hashJoin_reconciles ord ipt.rules target ruleKey ruleKey
  rw [hRules]
  exact ⟨fun h => Separated.of_synced hInterface hTarget hJoin hKept h,
    fun h => h.synced hInterface hTarget hJoin hKept⟩

/-- A rule of another container is exchanged. -/
theorem syncChain_synced_exchange :
    ∃ ipt', syncChain MapOrder.stored sampleChain .prerouting
        [dnatRule "eth0" "tcp" 80 "10.0.0.3"] = .ok ipt' ∧
      Synced [dnatRule "eth0" "tcp" 80 "10.0.0.3"] ipt'.rules := by
  have hRun : syncChain MapOrder.stored sampleChain .prerouting
      [dnatRule "eth0" "tcp" 80 "10.0.0.3"] =
      .ok ⟨[dnatRule "eth0" "tcp" 80 "10.0.0.3"], []⟩ := by decide +kernel
  have hInterface : IsValue "eth0" := ⟨IsWord.of_all (by simp [isSpace]), by simp [isFlag]⟩
  have hIP : IsAddress "10.0.0.3" := ⟨IsWord.of_all (by simp [isSpace]), by simp [isFlag]⟩
  have hTarget : IsTarget "eth0" [dnatRule "eth0" "tcp" 80 "10.0.0.3"] := by
    apply IsTarget.prerouting
    intro text hText
    exact ⟨"tcp", by simp [protocols], 80, "10.0.0.3", hIP, List.mem_singleton.mp hText⟩
  refine ⟨_, hRun, (syncChain_synced_iff MapOrder.stored hInterface hTarget hRun).mpr ?_⟩
  refine ⟨by simp [sampleChain], by simp, ?_⟩
  intro r hr t ht
  obtain rfl := List.mem_singleton.mp hr
  obtain rfl := List.mem_singleton.mp ht
  decide +kernel

/-- A rule that the chain holds twice is deleted once only. A rule with a
negation has the key of the rule without it, and stays in its place. -/
theorem syncChain_stale :
    (∃ ipt', syncChain MapOrder.stored
        ⟨[dnatRule "eth0" "tcp" 80 "10.0.0.2", dnatRule "eth0" "tcp" 80 "10.0.0.2"], []⟩
        .prerouting [] = .ok ipt' ∧ ¬Synced [] ipt'.rules) ∧
      ∃ ipt', syncChain MapOrder.stored
          ⟨["! " ++ dnatRule "eth0" "tcp" 80 "10.0.0.2"], []⟩ .prerouting
          [dnatRule "eth0" "tcp" 80 "10.0.0.2"] = .ok ipt' ∧
        ¬Synced [dnatRule "eth0" "tcp" 80 "10.0.0.2"] ipt'.rules := by
  have hTwice : syncChain MapOrder.stored
      ⟨[dnatRule "eth0" "tcp" 80 "10.0.0.2", dnatRule "eth0" "tcp" 80 "10.0.0.2"], []⟩
      .prerouting [] = .ok ⟨[dnatRule "eth0" "tcp" 80 "10.0.0.2"], []⟩ := by decide +kernel
  have hNegated : syncChain MapOrder.stored
      ⟨["! " ++ dnatRule "eth0" "tcp" 80 "10.0.0.2"], []⟩ .prerouting
      [dnatRule "eth0" "tcp" 80 "10.0.0.2"] =
      .ok ⟨["! " ++ dnatRule "eth0" "tcp" 80 "10.0.0.2"], []⟩ := by decide +kernel
  refine ⟨⟨_, hTwice, fun hSynced => ?_⟩, ⟨_, hNegated, fun hSynced => ?_⟩⟩
  · obtain ⟨t, ht, -⟩ := hSynced.1 _ (List.mem_singleton_self _)
    cases ht
  · have hCount := hSynced.2 _ (List.mem_singleton_self _)
    revert hCount
    decide +kernel

end Synced

end Kelda.Network.NAT
