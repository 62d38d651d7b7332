import Kelda.Cloud.Firewall

/-! One update of the firewall on DigitalOcean, from any rules that are stored in
it. The rules that are removed are those of the listing. -/
namespace Kelda.DigitalOcean.Firewall

open Join Acl

section Step

variable {prvdr : Provider} {acls : List ACL} {stored : List InboundRule}
  {res : Result InboundRule InboundRule}

/-- The rules that a join leaves in the firewall. -/
def updated (stored : List InboundRule) (res : Result InboundRule InboundRule) : Rules :=
  removeRules (addRules stored.toFinset res.lonelyLefts) res.lonelyRights

theorem mem_updated {rule : InboundRule} : rule ∈ updated stored res ↔
    (rule ∈ stored ∨ rule ∈ res.lonelyLefts) ∧ rule ∉ res.lonelyRights := by
  simp [updated, addRules, removeRules]

/-- What the rules before the update must be like, by their keys. -/
structure Recoverable (prvdr : Provider) (acls : List ACL) (stored : List InboundRule) : Prop where
  ports : ∀ a ∈ acls, a.maxPort ≠ 0
  sources : ∀ rule ∈ stored, ∀ d ∈ desiredRules prvdr acls,
    ruleKey (fixed rule) = ruleKey d → fixed rule = d
  spelled : ∀ rule ∈ stored, fixed rule ≠ rule →
    rule.protocol = "icmp" ∧ fixed rule ∈ desiredRules prvdr acls
  once : ∀ rule ∈ stored, ∀ rule' ∈ stored, fixed rule ≠ rule → fixed rule' ≠ rule' →
    fixed rule = fixed rule' → rule = rule'

theorem fixed_desired (hWell : ∀ a ∈ acls, WellFormed a) (hPorts : ∀ a ∈ acls, a.maxPort ≠ 0)
    {d : InboundRule} (hd : d ∈ desiredRules prvdr acls) : fixed d = d := by
  rcases mem_desiredRules.mp hd with ⟨a, ha, t, rfl⟩ | ⟨a, ha, rfl⟩ | ⟨t, rfl⟩
  · refine fixed_eq_self t.name_ne_icmp (fun hZero => ?_)
    exact hPorts a ha ((aclPortRange_eq_zero_iff (hWell a ha)).mp hZero)
  · rw [fixed_eq]
    rfl
  · exact fixed_eq_self t.name_ne_icmp (show "all" ≠ "0" by decide)

variable (hJoin : Reconciles (desiredRules prvdr acls) (stored.map fixed) ruleKey ruleKey res)

include hJoin

/-- Only rules in their fixed spelling are removed. -/
theorem fixed_of_removed {rule : InboundRule} (h : rule ∈ res.lonelyRights) :
    fixed rule = rule ∧ ∃ rule' ∈ stored, fixed rule' = rule := by
  have hMem := hJoin.rights.mem_iff.mp (List.mem_append_right _ h)
  obtain ⟨rule', hRule', rfl⟩ := List.mem_map.mp hMem
  exact ⟨fixed_fixed rule', rule', hRule', rfl⟩

theorem mem_updated_of_ne {rule : InboundRule} (hRule : rule ∈ stored) (h : fixed rule ≠ rule) :
    rule ∈ updated stored res :=
  mem_updated.mpr ⟨Or.inl hRule, fun hRemoved => h (fixed_of_removed hJoin hRemoved).1⟩

/-- The rule that was listed with a desired key is not all removed. -/
theorem mem_pairs_rights {d : InboundRule} (hd : d ∈ desiredRules prvdr acls)
    {rule : InboundRule} (hRule : rule ∈ stored) (hKey : ruleKey (fixed rule) = ruleKey d) :
    ∃ p ∈ res.pairs, ruleKey p.R = ruleKey d := by
  obtain ⟨d', hd', hSame⟩ := hJoin.covers d hd
  rcases List.mem_append.mp hd' with hPair | hLonely
  · obtain ⟨p, hp, rfl⟩ := List.mem_map.mp hPair
    exact ⟨p, hp, (hJoin.sameKey p hp).symm.trans hSame⟩
  · refine absurd (hSame.trans hKey.symm) (hJoin.unmatched d' hLonely _ ?_)
    exact List.mem_map_of_mem hRule

/-- A rule that is listed twice is removed once. -/
theorem removed_of_duplicate {rule rule' : InboundRule} (hRule : rule ∈ stored)
    (hRule' : rule' ∈ stored) (hNe : rule' ≠ rule) (hSame : fixed rule' = fixed rule) :
    fixed rule ∈ res.lonelyRights := by
  have hListing : (stored.map fixed).Perm (fixed rule :: (stored.erase rule).map fixed) :=
    (List.perm_cons_erase hRule).map fixed
  have hTwice : fixed rule ∈ (stored.erase rule).map fixed :=
    hSame ▸ List.mem_map_of_mem ((List.mem_erase_of_ne hNe).mpr hRule')
  by_contra hKept
  have hCount := (hJoin.rights.trans hListing).count_eq (fixed rule)
  rw [List.count_append, List.count_eq_zero.mpr hKept, List.count_cons_self] at hCount
  have hOnce := List.nodup_iff_count_le_one.mp (hJoin.pairs_keys_nodup.of_map _) (fixed rule)
  have hPos := List.count_pos_iff.mpr hTwice
  omega

/-- A rule that is listed once and has been paired is kept. -/
theorem notMem_removed {rule : InboundRule} (hNodup : stored.Nodup) (hRule : rule ∈ stored)
    (hOnce : ∀ rule' ∈ stored, fixed rule' = fixed rule → rule' = rule)
    (hPair : fixed rule ∈ res.pairs.map Pair.R) : fixed rule ∉ res.lonelyRights := by
  intro hRemoved
  have hListing : (stored.map fixed).Perm (fixed rule :: (stored.erase rule).map fixed) :=
    (List.perm_cons_erase hRule).map fixed
  have hNone : fixed rule ∉ (stored.erase rule).map fixed := by
    intro hMem
    obtain ⟨rule', hRule', hSame⟩ := List.mem_map.mp hMem
    obtain ⟨hNe, hRule'⟩ := (hNodup.mem_erase_iff).mp hRule'
    exact hNe (hOnce rule' hRule' hSame)
  have hCount := (hJoin.rights.trans hListing).count_eq (fixed rule)
  rw [List.count_append, List.count_cons_self, List.count_eq_zero.mpr hNone] at hCount
  have hPos := List.count_pos_iff.mpr hPair
  have hPos' := List.count_pos_iff.mpr hRemoved
  omega

theorem added_desired {rule : InboundRule} (h : rule ∈ res.lonelyLefts) :
    rule ∈ desiredRules prvdr acls := hJoin.lefts (List.mem_append_right _ h)

/-- A rule in the fixed spelling gives way to one that is listed like it. -/
theorem notMem_updated {rule rule' : InboundRule} (hRule' : rule' ∈ stored)
    (hNe : fixed rule' ≠ rule') (hSame : fixed rule' = rule) : rule ∉ updated stored res := by
  intro hRule
  have hSpelled : fixed rule = rule := by rw [← hSame, fixed_fixed]
  obtain ⟨hOld | hNew, hKept⟩ := mem_updated.mp hRule
  · apply hKept
    have hRemoved := removed_of_duplicate hJoin hOld hRule' (fun hEq => hNe (hSame.trans hEq.symm))
      (hSame.trans hSpelled.symm)
    rwa [hSpelled] at hRemoved
  · refine hJoin.unmatched rule hNew (fixed rule') (List.mem_map_of_mem hRule') ?_
    rw [hSame]

namespace Recoverable

variable (h : Recoverable prvdr acls stored) (hWell : ∀ a ∈ acls, WellFormed a)

include h

/-- A kept rule without a desired key would have been removed. -/
theorem fixed_mem_desired {rule : InboundRule} (hRule : rule ∈ stored)
    (hKept : rule ∉ res.lonelyRights) : fixed rule ∈ desiredRules prvdr acls := by
  by_cases hSpelled : fixed rule = rule
  · have hMem : rule ∈ stored.map fixed := by
      rw [← hSpelled]
      exact List.mem_map_of_mem hRule
    rcases List.mem_append.mp (hJoin.rights.mem_iff.mpr hMem) with hPair | hLonely
    · obtain ⟨p, hp, hEq⟩ := List.mem_map.mp hPair
      have hKey : ruleKey (fixed rule) = ruleKey p.L := by
        rw [hJoin.sameKey p hp, hEq, hSpelled]
      rw [h.sources rule hRule p.L (hJoin.left_mem hp) hKey]
      exact hJoin.left_mem hp
    · exact absurd hLonely hKept
  · exact (h.spelled rule hRule hSpelled).2

/-- Every desired rule is there, kept or added. -/
theorem exists_updated (hNodup : stored.Nodup) (hFixed : ∀ d ∈ desiredRules prvdr acls, fixed d = d)
    {d : InboundRule} (hd : d ∈ desiredRules prvdr acls) :
    ∃ rule ∈ updated stored res, fixed rule = d := by
  by_cases hListed : ∃ rule ∈ stored, ruleKey (fixed rule) = ruleKey d
  · obtain ⟨rule, hRule, hKey⟩ := hListed
    obtain rfl := h.sources rule hRule d hd hKey
    by_cases hOther : ∃ rule' ∈ stored, fixed rule' = fixed rule ∧ fixed rule' ≠ rule'
    · obtain ⟨rule', hRule', hSame, hNe⟩ := hOther
      exact ⟨rule', mem_updated_of_ne hJoin hRule' hNe, hSame⟩
    · have hSelf : ∀ rule' ∈ stored, fixed rule' = fixed rule → rule' = fixed rule := by
        intro rule' hRule' hSame
        by_contra hNe
        exact hOther ⟨rule', hRule', hSame, fun hEq => hNe (hEq.symm.trans hSame)⟩
      have hRuleEq := hSelf rule hRule rfl
      obtain ⟨p, hp, hPairKey⟩ := mem_pairs_rights hJoin hd hRule rfl
      obtain ⟨rule', hRule', hRight⟩ := List.mem_map.mp (hJoin.right_mem hp)
      have hSame := h.sources rule' hRule' _ hd (by rw [hRight, hPairKey])
      have hPair : fixed rule ∈ res.pairs.map Pair.R :=
        hSame ▸ hRight ▸ List.mem_map_of_mem hp
      refine ⟨rule, mem_updated.mpr ⟨Or.inl hRule, ?_⟩, rfl⟩
      have hKept := notMem_removed hJoin hNodup hRule
        (fun rule' hRule' hSame => (hSelf rule' hRule' hSame).trans hRuleEq.symm) hPair
      rwa [← hRuleEq] at hKept
  · obtain ⟨d', hd', hSame⟩ := hJoin.covers d hd
    have hLonely : d ∈ res.lonelyLefts := by
      rcases List.mem_append.mp hd' with hPair | hLonely
      · obtain ⟨p, hp, rfl⟩ := List.mem_map.mp hPair
        obtain ⟨rule, hRule, hRight⟩ := List.mem_map.mp (hJoin.right_mem hp)
        exact absurd ⟨rule, hRule, by rw [hRight, ← hJoin.sameKey p hp, hSame]⟩ hListed
      · rwa [← eq_of_ruleKey (added_desired hJoin hLonely) hd hSame]
    refine ⟨d, mem_updated.mpr ⟨Or.inr hLonely, fun hRemoved => ?_⟩, hFixed d hd⟩
    obtain ⟨-, rule, hRule, hEq⟩ := fixed_of_removed hJoin hRemoved
    exact hListed ⟨rule, hRule, congrArg ruleKey hEq⟩

include hWell

/-- After the update the rules are the desired ones. -/
theorem settled (hNodup : stored.Nodup) : Settled prvdr acls (updated stored res) := by
  have hFixed : ∀ d ∈ desiredRules prvdr acls, fixed d = d :=
    fun d hd => fixed_desired hWell h.ports hd
  have hStored : ∀ rule ∈ updated stored res, fixed rule ≠ rule → rule ∈ stored := by
    intro rule hRule hNe
    obtain ⟨hOld | hNew, -⟩ := mem_updated.mp hRule
    · exact hOld
    · exact absurd (hFixed rule (added_desired hJoin hNew)) hNe
  constructor
  · exact h.ports
  · intro rule hRule
    obtain ⟨hOld | hNew, hKept⟩ := mem_updated.mp hRule
    · exact h.fixed_mem_desired hJoin hOld hKept
    · rw [hFixed rule (added_desired hJoin hNew)]
      exact added_desired hJoin hNew
  · exact fun d hd => h.exists_updated hJoin hNodup hFixed hd
  · intro rule hRule rule' hRule' hSame
    by_cases hNe : fixed rule = rule <;> by_cases hNe' : fixed rule' = rule'
    · rw [← hNe, hSame, hNe']
    · exact absurd hRule
        (notMem_updated hJoin (hStored rule' hRule' hNe') hNe' (hSame.symm.trans hNe))
    · exact absurd hRule'
        (notMem_updated hJoin (hStored rule hRule hNe) hNe (hSame.trans hNe'))
    · exact h.once rule (hStored rule hRule hNe) rule' (hStored rule' hRule' hNe') hNe hNe' hSame
  · exact fun rule hRule hNe => (h.spelled rule (hStored rule hRule hNe) hNe).1

end Recoverable

end Step

section Converse

variable {prvdr : Provider} {acls : List ACL} {fw : Rules}

theorem setACLs_eq (ord : MapOrder) (stored : List InboundRule) :
    setACLs ord prvdr acls stored.toFinset (stored.map listed) =
      updated stored
        (hashJoin ord (desiredRules prvdr acls) (stored.map fixed) ruleKey ruleKey) := by
  rw [setACLs, fixRulesPortRange_listed]
  rfl

variable (h : ∀ ord listing, Lists fw listing →
    Settled prvdr acls (setACLs ord prvdr acls fw listing))

include h

theorem settled_updated {stored : List InboundRule} (hNodup : stored.Nodup)
    (hStored : stored.toFinset = fw) :
    Settled prvdr acls (updated stored
      (hashJoin .stored (desiredRules prvdr acls) (stored.map fixed) ruleKey ruleKey)) := by
  rw [← setACLs_eq, hStored]
  exact h .stored _ ⟨stored, hNodup, hStored, rfl⟩

/-- The listing may begin with any rule, which is then paired before the others
of its key. -/
theorem eq_desired_of_key {rule d : InboundRule} (hRule : rule ∈ fw)
    (hd : d ∈ desiredRules prvdr acls) (hKey : ruleKey (fixed rule) = ruleKey d) :
    fixed rule = d := by
  have hNodup : (rule :: (fw.erase rule).toList).Nodup :=
    List.nodup_cons.mpr ⟨by simp, Finset.nodup_toList _⟩
  have hStored : (rule :: (fw.erase rule).toList).toFinset = fw := by
    rw [List.toFinset_cons, Finset.toList_toFinset, Finset.insert_erase hRule]
  have hSettled := settled_updated h hNodup hStored
  have hHead : rule ∈ rule :: (fw.erase rule).toList := List.mem_cons_self ..
  generalize hTail : (fw.erase rule).toList = tail at hNodup hSettled hHead
  have hJoin := hashJoin_reconciles .stored (desiredRules prvdr acls)
    ((rule :: tail).map fixed) ruleKey ruleKey
  have hDesired : fixed rule ∈ desiredRules prvdr acls := by
    obtain ⟨p, hp, hPairKey⟩ := mem_pairs_rights hJoin hd hHead hKey
    have hFirst : p.R = fixed rule := by
      rcases first_of_mem_pairs _ hp with hNone | ⟨-, hFind⟩
      · cases hNone
      · rw [List.map_cons, List.find?_cons_of_pos (by simp [hPairKey, hKey])] at hFind
        exact (Option.some.inj hFind).symm
    by_cases hOther : ∃ rule' ∈ rule :: tail, fixed rule' = fixed rule ∧ fixed rule' ≠ rule'
    · obtain ⟨rule', hRule', hSame, hNe⟩ := hOther
      rw [← hSame]
      exact hSettled.desired rule' (mem_updated_of_ne hJoin hRule' hNe)
    · have hSelf : ∀ rule' ∈ rule :: tail, fixed rule' = fixed rule → rule' = rule := by
        intro rule' hRule' hSame
        have hSpelled : ∀ r ∈ rule :: tail, fixed r = fixed rule → fixed r = r := by
          intro r hr hSame
          by_contra hNe
          exact hOther ⟨r, hr, hSame, hNe⟩
        rw [← hSpelled rule' hRule' hSame, hSame, hSpelled rule hHead rfl]
      have hKept := notMem_removed hJoin hNodup hHead hSelf
        (hFirst ▸ List.mem_map_of_mem hp)
      have hSpelled : fixed rule = rule := by
        by_contra hNe
        exact hOther ⟨rule, hHead, rfl, hNe⟩
      rw [hSpelled] at hKept
      exact hSettled.desired rule (mem_updated.mpr ⟨Or.inl hHead, hKept⟩)
  exact eq_of_ruleKey hDesired hd hKey

theorem recoverable : Recoverable prvdr acls fw.toList := by
  have hSettled := settled_updated h fw.nodup_toList fw.toList_toFinset
  have hJoin := hashJoin_reconciles .stored (desiredRules prvdr acls) (fw.toList.map fixed)
    ruleKey ruleKey
  have hSurvives : ∀ rule ∈ fw.toList, fixed rule ≠ rule → rule ∈ updated fw.toList _ :=
    fun rule hRule hNe => mem_updated_of_ne hJoin hRule hNe
  constructor
  · exact hSettled.ports
  · intro rule hRule d hd hKey
    exact eq_desired_of_key h (Finset.mem_toList.mp hRule) hd hKey
  · intro rule hRule hNe
    have hMem := hSurvives rule hRule hNe
    exact ⟨hSettled.spelled rule hMem hNe, hSettled.desired rule hMem⟩
  · intro rule hRule rule' hRule' hNe hNe' hSame
    exact hSettled.inj rule (hSurvives rule hRule hNe) rule' (hSurvives rule' hRule' hNe') hSame

end Converse

section Condition

variable {prvdr : Provider} {acls : List ACL} {fw : Rules}

/-- The rules are alike to the key, which joins the sources and knows neither
droplets nor load balancers. The ports of ICMP are not listed. -/
structure Alike (rule d : InboundRule) : Prop where
  protocol : rule.protocol = d.protocol
  portRange : rule.protocol = "icmp" ∨ rule.portRange = d.portRange
  addresses : ",".intercalate rule.sources.addresses = ",".intercalate d.sources.addresses
  tags : ",".intercalate rule.sources.tags = ",".intercalate d.sources.tags

/-- The rules and ACLs for which one update is enough: no rule is for the port 0
alone, no rule is alike to a desired one with other sources, and ICMP rules with
ports are for desired addresses, one for each. -/
structure Orderly (prvdr : Provider) (acls : List ACL) (fw : Rules) : Prop where
  ports : ∀ a ∈ acls, a.maxPort ≠ 0
  zero : ∀ rule ∈ fw, rule.protocol ≠ "icmp" → rule.portRange ≠ "0"
  sources : ∀ rule ∈ fw, ∀ d, Desired prvdr acls d → Alike rule d → rule.sources = d.sources
  icmp : ∀ rule ∈ fw, rule.protocol = "icmp" → rule.portRange ≠ "" →
    ∃ a ∈ acls, rule.sources = { addresses := [a.cidrIP] }
  once : ∀ rule ∈ fw, ∀ rule' ∈ fw, rule.protocol = "icmp" → rule'.protocol = "icmp" →
    rule.portRange ≠ "" → rule'.portRange ≠ "" → rule.sources = rule'.sources → rule = rule'

theorem fixed_icmp {rule : InboundRule} (h : rule.protocol = "icmp") :
    fixed rule = ⟨"icmp", "", rule.sources⟩ := by
  rw [fixed_eq, if_pos h, h]

theorem fixed_ne_iff_of_icmp {rule : InboundRule} (h : rule.protocol = "icmp") :
    fixed rule ≠ rule ↔ rule.portRange ≠ "" := by
  rw [fixed_icmp h]
  obtain ⟨protocol, portRange, sources⟩ := rule
  simp_all [eq_comm]

theorem desired_icmp {d : InboundRule} (hd : Desired prvdr acls d) (h : d.protocol = "icmp") :
    ∃ a ∈ acls, d = icmpRule a := by
  rcases hd with ⟨a, -, t, rfl⟩ | hIcmp | ⟨t, rfl⟩
  · exact absurd h t.name_ne_icmp
  · exact hIcmp
  · exact absurd h t.name_ne_icmp

/-- The keys are equal if the rules are alike. -/
theorem ruleKey_eq_iff (hZero : ∀ rule ∈ fw, rule.protocol ≠ "icmp" → rule.portRange ≠ "0")
    {rule d : InboundRule} (hRule : rule ∈ fw) (hd : Desired prvdr acls d) :
    ruleKey (fixed rule) = ruleKey d ↔ Alike rule d := by
  by_cases hIcmp : rule.protocol = "icmp"
  · rw [fixed_icmp hIcmp]
    constructor
    · intro hKey
      exact ⟨hIcmp.trans (congrArg RuleKey.protocol hKey), Or.inl hIcmp,
        congrArg RuleKey.addresses hKey, congrArg RuleKey.tags hKey⟩
    · intro hAlike
      obtain ⟨a, -, rfl⟩ := desired_icmp hd (hAlike.protocol.symm.trans hIcmp)
      rw [ruleKey, ruleKey, hAlike.addresses, hAlike.tags]
      rfl
  · rw [fixed_eq_self hIcmp (hZero rule hRule hIcmp)]
    constructor
    · intro hKey
      exact ⟨congrArg RuleKey.protocol hKey, Or.inr (congrArg RuleKey.portRange hKey),
        congrArg RuleKey.addresses hKey, congrArg RuleKey.tags hKey⟩
    · intro hAlike
      have hRange := hAlike.portRange.resolve_left hIcmp
      rw [ruleKey, ruleKey, hAlike.protocol, hRange, hAlike.addresses, hAlike.tags]

theorem recoverable_iff : Recoverable prvdr acls fw.toList ↔ Orderly prvdr acls fw := by
  constructor
  · intro h
    have hZero : ∀ rule ∈ fw, rule.protocol ≠ "icmp" → rule.portRange ≠ "0" := by
      intro rule hRule hIcmp hText
      refine hIcmp (h.spelled rule (Finset.mem_toList.mpr hRule) (fun hEq => ?_)).1
      apply (portRange_of_fixed hIcmp).1
      rw [hEq, hText]
    constructor
    · exact h.ports
    · exact hZero
    · intro rule hRule d hd hAlike
      have hKey := (ruleKey_eq_iff hZero hRule hd).mpr hAlike
      rw [← h.sources rule (Finset.mem_toList.mpr hRule) d (mem_desiredRules.mpr hd) hKey,
        fixed_sources]
    · intro rule hRule hIcmp hText
      have hDesired := (h.spelled rule (Finset.mem_toList.mpr hRule)
        ((fixed_ne_iff_of_icmp hIcmp).mpr hText)).2
      obtain ⟨a, ha, hEq⟩ := desired_icmp (mem_desiredRules.mp hDesired)
        ((fixed_protocol rule).trans hIcmp)
      exact ⟨a, ha, (fixed_sources rule).symm.trans (congrArg InboundRule.sources hEq)⟩
    · intro rule hRule rule' hRule' hIcmp hIcmp' hText hText' hSources
      refine h.once rule (Finset.mem_toList.mpr hRule) rule' (Finset.mem_toList.mpr hRule')
        ((fixed_ne_iff_of_icmp hIcmp).mpr hText) ((fixed_ne_iff_of_icmp hIcmp').mpr hText') ?_
      rw [fixed_icmp hIcmp, fixed_icmp hIcmp', hSources]
  · intro h
    have hSpelled : ∀ rule ∈ fw.toList, fixed rule ≠ rule →
        rule.protocol = "icmp" ∧ rule.portRange ≠ "" := by
      intro rule hRule hNe
      have hIcmp : rule.protocol = "icmp" := by
        by_contra hIcmp
        exact hNe (fixed_eq_self hIcmp (h.zero rule (Finset.mem_toList.mp hRule) hIcmp))
      exact ⟨hIcmp, (fixed_ne_iff_of_icmp hIcmp).mp hNe⟩
    constructor
    · exact h.ports
    · intro rule hRule d hd hKey
      have hRule := Finset.mem_toList.mp hRule
      have hd := mem_desiredRules.mp hd
      apply eq_of_key_sources hKey
      rw [fixed_sources]
      exact h.sources rule hRule d hd ((ruleKey_eq_iff h.zero hRule hd).mp hKey)
    · intro rule hRule hNe
      obtain ⟨hIcmp, hText⟩ := hSpelled rule hRule hNe
      obtain ⟨a, ha, hSources⟩ := h.icmp rule (Finset.mem_toList.mp hRule) hIcmp hText
      rw [fixed_icmp hIcmp, hSources]
      exact ⟨hIcmp, mem_desiredRules.mpr (Or.inr (Or.inl ⟨a, ha, rfl⟩))⟩
    · intro rule hRule rule' hRule' hNe hNe' hSame
      obtain ⟨hIcmp, hText⟩ := hSpelled rule hRule hNe
      obtain ⟨hIcmp', hText'⟩ := hSpelled rule' hRule' hNe'
      have hSources : rule.sources = rule'.sources := by
        rw [← fixed_sources, hSame, fixed_sources]
      exact h.once rule (Finset.mem_toList.mp hRule) rule' (Finset.mem_toList.mp hRule') hIcmp
        hIcmp' hText hText' hSources

/-- One update reaches the desired ACLs exactly from the orderly rules. -/
theorem setACLs_converges_iff (hWell : ∀ a ∈ acls, WellFormed a) :
    (∀ ord listing, Lists fw listing →
      Converged prvdr acls (setACLs ord prvdr acls fw listing)) ↔ Orderly prvdr acls fw := by
  rw [← recoverable_iff]
  constructor
  · exact fun h => recoverable (fun ord listing hLists => (h ord listing hLists).settled hWell)
  · rintro h ord listing ⟨stored, hNodup, rfl, rfl⟩
    have hSame : ∀ rule, rule ∈ stored.toFinset.toList ↔ rule ∈ stored := by simp
    have hStored : Recoverable prvdr acls stored := by
      obtain ⟨hPorts, hSources, hSpelled, hOnce⟩ := h
      simp only [hSame] at hSources hSpelled hOnce
      exact ⟨hPorts, hSources, hSpelled, hOnce⟩
    rw [setACLs_eq]
    exact (hStored.settled (hashJoin_reconciles ..) hWell hNodup).converged hWell

end Condition

def testProvider : Provider := ⟨"ns", "sfo1"⟩

/-- A rule that no ACL asks for. -/
def strayRule : InboundRule := ⟨"tcp", "22", { addresses := ["5.6.7.8/32"] }⟩

theorem setACLs_converges_stray :
    (∀ a ∈ [(⟨"1.2.3.4/32", 80, 90⟩ : ACL)], WellFormed a) ∧
      ∀ ord listing, Lists {strayRule} listing →
        Converged testProvider [⟨"1.2.3.4/32", 80, 90⟩]
          (setACLs ord testProvider [⟨"1.2.3.4/32", 80, 90⟩] {strayRule} listing) := by
  have hWell : ∀ a ∈ [(⟨"1.2.3.4/32", 80, 90⟩ : ACL)], WellFormed a := by
    intro a ha
    obtain rfl := List.mem_singleton.mp ha
    exact ⟨⟨_, rfl⟩, by decide, by decide, by decide⟩
  refine ⟨hWell, (setACLs_converges_iff hWell).mpr ⟨by decide, by decide, ?_, by decide, by decide⟩⟩
  intro rule hRule d hd hAlike
  obtain rfl := Finset.mem_singleton.mp hRule
  have hOther : ",".intercalate ["5.6.7.8/32"] ≠ ",".intercalate ["1.2.3.4/32"] := by
    decide +kernel
  have hNone : ",".intercalate ["5.6.7.8/32"] ≠ ",".intercalate [] := by decide +kernel
  rcases hd with ⟨a, ha, t, rfl⟩ | ⟨a, ha, rfl⟩ | ⟨t, rfl⟩
  · obtain rfl := List.mem_singleton.mp ha
    exact absurd hAlike.addresses hOther
  · obtain rfl := List.mem_singleton.mp ha
    exact absurd hAlike.addresses hOther
  · exact absurd hAlike.addresses hNone

/-- The rule for the port 0 is listed like one for all ports, which is never
desired. -/
theorem port_zero_never_converges :
    WellFormed ⟨"1.2.3.4/32", 0, 0⟩ ∧ Lists ∅ [] ∧
      ¬Converged testProvider [⟨"1.2.3.4/32", 0, 0⟩]
        (setACLs .stored testProvider [⟨"1.2.3.4/32", 0, 0⟩] ∅ []) := by
  have hWell : WellFormed ⟨"1.2.3.4/32", 0, 0⟩ :=
    ⟨⟨_, rfl⟩, by decide, by decide, by decide⟩
  refine ⟨hWell, ⟨[], List.nodup_nil, rfl, rfl⟩, fun h => ?_⟩
  refine h.ports ?_ _ (List.mem_singleton_self _) rfl
  intro a ha
  obtain rfl := List.mem_singleton.mp ha
  exact hWell

end Kelda.DigitalOcean.Firewall
