import Kelda.Cloud.Acl
import Kelda.Cloud.FloatingIPs
import Kelda.Join.HashJoin
import Kelda.Lib.NetIP

/-! The firewall on DigitalOcean. Its rules are listed in another spelling than
the one they are added and removed in. -/
namespace Kelda.DigitalOcean.Firewall

open Join Acl

@[ext]
structure Sources where
  addresses : List String := []
  tags : List String := []
  dropletIDs : List Int := []
  loadBalancerUIDs : List String := []
deriving DecidableEq

structure InboundRule where
  protocol : String
  portRange : String
  sources : Sources
deriving DecidableEq

def protocols : List String := ["tcp", "udp", "icmp"]

section Functions

/-- One pass of the loop of `fixRulesPortRange`. -/
def fixPortRange (rule : InboundRule) : InboundRule :=
  if rule.portRange = "0" then
    if rule.protocol = "icmp" then { rule with portRange := "" }
    else { rule with portRange := "all" }
  else rule

def fixRulesPortRange (rules : List InboundRule) : List InboundRule := rules.map fixPortRange

/-- A single port is not written as a range. -/
def aclPortRange (acl : ACL) : String :=
  if acl.minPort = acl.maxPort then acl.minPort.repr else portRange acl

/-- The rules so far, with the addresses that have one for ICMP. -/
def toRule (acl : ACL) (st : List InboundRule × Finset String) (proto : String) :
    List InboundRule × Finset String :=
  if proto = "icmp" then
    if acl.cidrIP ∈ st.2 then st
    else (st.1 ++ [⟨proto, "", { addresses := [acl.cidrIP] }⟩], insert acl.cidrIP st.2)
  else (st.1 ++ [⟨proto, aclPortRange acl, { addresses := [acl.cidrIP] }⟩], st.2)

def toRules (acls : List ACL) : List InboundRule :=
  (acls.foldl (fun st acl => protocols.foldl (toRule acl) st) ([], ∅)).1

structure RuleKey where
  portRange : String
  protocol : String
  addresses : String
  tags : String
deriving DecidableEq

def ruleKey (rule : InboundRule) : RuleKey where
  portRange := rule.portRange
  protocol := rule.protocol
  addresses := ",".intercalate rule.sources.addresses
  tags := ",".intercalate rule.sources.tags

/-- The droplets of the provider may speak with each other. -/
def internalRule (prvdr : Provider) (proto : String) : InboundRule :=
  ⟨proto, "all", { tags := [prvdr.getTag] }⟩

def desiredRules (prvdr : Provider) (desired : List ACL) : List InboundRule :=
  toRules desired ++ [internalRule prvdr "tcp", internalRule prvdr "udp"]

/-- The rules to add and the rules to remove. -/
def syncACLs (ord : MapOrder) (prvdr : Provider) (desired : List ACL)
    (current : List InboundRule) : List InboundRule × List InboundRule :=
  let res := hashJoin ord (desiredRules prvdr desired) current ruleKey ruleKey
  (res.lonelyLefts, res.lonelyRights)

end Functions

section Service

/-- The rules of a firewall, as they have been added. -/
abbrev Rules := Finset InboundRule

def addRules (fw : Rules) (rules : List InboundRule) : Rules := fw ∪ rules.toFinset

def removeRules (fw : Rules) (rules : List InboundRule) : Rules := fw \ rules.toFinset

/-- How the service lists a rule. All ports of a protocol, and the absent ports of
ICMP, are both shown as 0. -/
def listed (rule : InboundRule) : InboundRule :=
  if rule.protocol = "icmp" ∨ (rule.protocol = "tcp" ∨ rule.protocol = "udp") ∧
    rule.portRange = "all" then { rule with portRange := "0" }
  else rule

/-- The listing shows every rule once, in some order. -/
def Lists (fw : Rules) (listing : List InboundRule) : Prop :=
  ∃ stored : List InboundRule, stored.Nodup ∧ stored.toFinset = fw ∧ listing = stored.map listed

/-- The rules after `SetACLs`, which has read the listing. -/
def setACLs (ord : MapOrder) (prvdr : Provider) (acls : List ACL) (fw : Rules)
    (listing : List InboundRule) : Rules :=
  let (add, remove) := syncACLs ord prvdr acls (fixRulesPortRange listing)
  removeRules (addRules fw add) remove

inductive Source where
  | address (cidrIP : String)
  | tag (tag : String)
  | droplet (id : Int)
  | loadBalancer (uid : String)

inductive Transport where
  | tcp
  | udp

def Transport.name : Transport → String
  | .tcp => "tcp"
  | .udp => "udp"

inductive Traffic where
  | port (proto : Transport) (port : Fin 65536)
  | icmp

/-- The text stands for the port, or for a range with it. -/
def InRange (text : String) (port : Nat) : Prop :=
  text = "all" ∨ text = port.repr ∨
    ∃ low high : Nat, text = low.repr ++ "-" ++ high.repr ∧ low ≤ port ∧ port ≤ high

def InboundRule.Covers (rule : InboundRule) : Traffic → Prop
  | .port proto port => rule.protocol = proto.name ∧ InRange rule.portRange port
  | .icmp => rule.protocol = "icmp"

def Sources.Has (sources : Sources) : Source → Prop
  | .address cidrIP => cidrIP ∈ sources.addresses
  | .tag tag => tag ∈ sources.tags
  | .droplet id => id ∈ sources.dropletIDs
  | .loadBalancer uid => uid ∈ sources.loadBalancerUIDs

def Admits (fw : Rules) (traffic : Traffic) (source : Source) : Prop :=
  ∃ rule ∈ fw, rule.Covers traffic ∧ rule.sources.Has source

/-- The traffic that the ACLs ask for. -/
def Wanted (prvdr : Provider) (acls : List ACL) : Traffic → Source → Prop
  | .port _ port, .address cidrIP =>
    ∃ a ∈ acls, a.cidrIP = cidrIP ∧ a.minPort ≤ port.val ∧ port.val ≤ a.maxPort
  | .icmp, .address cidrIP => ∃ a ∈ acls, a.cidrIP = cidrIP
  | .port _ _, .tag tag => tag = prvdr.getTag
  | _, _ => False

/-- Nothing is left to do, and the traffic is exactly the desired one. -/
structure Converged (prvdr : Provider) (acls : List ACL) (fw : Rules) : Prop where
  idle : ∀ ord listing, Lists fw listing →
    syncACLs ord prvdr acls (fixRulesPortRange listing) = ([], [])
  exact : ∀ traffic source, Admits fw traffic source ↔ Wanted prvdr acls traffic source

end Service

structure WellFormed (a : ACL) : Prop where
  cidr : ∃ n, Net.parseCIDR a.cidrIP = .ok n
  nonneg : 0 ≤ a.minPort
  le : a.minPort ≤ a.maxPort
  max : a.maxPort ≤ 65535

section Texts

variable {a : ACL}

theorem dash_notMem_nat (n : Nat) : '-' ∉ n.repr.toList :=
  fun h => absurd (Text.isDigit_of_mem_repr h) (by decide)

theorem dash_mem_range (low high : String) : '-' ∈ (low ++ "-" ++ high).toList := by simp

theorem repr_ne_all (n : Nat) : n.repr ≠ "all" := by
  intro h
  have hMem : 'a' ∈ n.repr.toList := h ▸ by decide
  exact absurd (Text.isDigit_of_mem_repr hMem) (by decide)

theorem inRange_repr {n port : Nat} : InRange n.repr port ↔ n = port := by
  constructor
  · rintro (hAll | hPort | ⟨low, high, hText, -, -⟩)
    · exact absurd hAll (repr_ne_all n)
    · exact Nat.repr_inj.mp hPort
    · exact absurd (hText ▸ dash_mem_range _ _) (dash_notMem_nat n)
  · rintro rfl
    exact Or.inr (Or.inl rfl)

theorem inRange_range {low high port : Nat} :
    InRange (low.repr ++ "-" ++ high.repr) port ↔ low ≤ port ∧ port ≤ high := by
  constructor
  · rintro (hAll | hPort | ⟨low', high', hText, hRange⟩)
    · exact absurd (hAll ▸ dash_mem_range _ _) (by decide)
    · exact absurd (hPort ▸ dash_mem_range _ _) (dash_notMem_nat port)
    · rw [String.append_assoc, String.append_assoc] at hText
      obtain ⟨hLow, hHigh⟩ := Text.string_append_sep_inj (c := '-') (dash_notMem_nat low)
        (dash_notMem_nat low') hText
      rwa [Nat.repr_inj.mp hLow, Nat.repr_inj.mp hHigh]
  · exact fun hRange => Or.inr (Or.inr ⟨low, high, rfl, hRange⟩)

/-- The ports of an ACL, and the texts that they can be. -/
theorem aclPortRange_cases (h : WellFormed a) :
    ∃ low high : Nat, a.minPort = low ∧ a.maxPort = high ∧ low ≤ high ∧ high ≤ 65535 ∧
      aclPortRange a = if low = high then low.repr else low.repr ++ "-" ++ high.repr := by
  obtain ⟨low, hLow⟩ := Int.eq_ofNat_of_zero_le h.nonneg
  obtain ⟨high, hHigh⟩ := Int.eq_ofNat_of_zero_le (h.nonneg.trans h.le)
  have hLe := h.le
  have hMax := h.max
  refine ⟨low, high, hLow, hHigh, by omega, by omega, ?_⟩
  simp only [aclPortRange, portRange, hLow, hHigh, Int.natCast_inj]
  rfl

theorem inRange_aclPortRange (h : WellFormed a) (port : Nat) :
    InRange (aclPortRange a) port ↔ a.minPort ≤ port ∧ port ≤ a.maxPort := by
  obtain ⟨low, high, hLow, hHigh, hLe, -, hText⟩ := aclPortRange_cases h
  rw [hText, hLow, hHigh]
  split_ifs with hSame
  · rw [inRange_repr]
    omega
  · rw [inRange_range]
    omega

theorem aclPortRange_ne_all (h : WellFormed a) : aclPortRange a ≠ "all" := by
  obtain ⟨low, high, -, -, -, -, hText⟩ := aclPortRange_cases h
  rw [hText]
  split_ifs
  · exact repr_ne_all low
  · exact fun hAll => absurd (hAll ▸ dash_mem_range _ _) (by decide)

theorem aclPortRange_eq_zero_iff (h : WellFormed a) : aclPortRange a = "0" ↔ a.maxPort = 0 := by
  obtain ⟨low, high, -, hHigh, hLe, -, hText⟩ := aclPortRange_cases h
  rw [hText, hHigh]
  have hZero : (0 : Nat).repr = "0" := by decide
  split_ifs with hSame
  · rw [← hZero, Nat.repr_inj]
    omega
  · constructor
    · exact fun hText => absurd (hText ▸ dash_mem_range _ _) (by decide)
    · intro h
      omega

theorem getTag_ne_empty (prvdr : Provider) : prvdr.getTag ≠ "" := by
  intro h
  have hMem := dash_mem_range prvdr.nameSpace prvdr.region
  rw [show prvdr.nameSpace ++ "-" ++ prvdr.region = "" from h] at hMem
  simp at hMem

theorem cidr_ne_empty (h : WellFormed a) : a.cidrIP ≠ "" ∧ ',' ∉ a.cidrIP.toList := by
  obtain ⟨n, hParse⟩ := h.cidr
  obtain ⟨hNe, hChars⟩ := Net.addressChar_of_parseCIDR hParse
  refine ⟨hNe, fun hComma => ?_⟩
  rcases hChars ',' hComma with (hHex | hDot | hColon) | hSlash
  · exact absurd hHex (by decide)
  · exact absurd hDot (by decide)
  · exact absurd hColon (by decide)
  · exact absurd hSlash (by decide)

theorem comma_mem_join (x y : String) (xs : List String) :
    ',' ∈ (",".intercalate (x :: y :: xs)).toList := by
  rw [String.intercalate_cons_cons]
  simp

theorem eq_empty_of_join {xs : List String} (h : ",".intercalate xs = "") :
    ∀ x ∈ xs, x = "" := by
  match xs with
  | [] => exact fun x hx => absurd hx List.not_mem_nil
  | [x] => simpa using h
  | x :: y :: xs => exact absurd (h ▸ comma_mem_join x y xs) (by decide)

/-- Without a comma, a joined list has one element. -/
theorem eq_singleton_of_join {xs : List String} {c : String} (h : ",".intercalate xs = c)
    (hNe : c ≠ "") (hComma : ',' ∉ c.toList) : xs = [c] := by
  match xs with
  | [] => exact absurd h.symm hNe
  | [x] => rw [← h, String.intercalate_singleton]
  | x :: y :: xs => exact absurd (h ▸ comma_mem_join x y xs) hComma

end Texts

section Rules

variable {prvdr : Provider} {acls : List ACL}

theorem Transport.name_ne_icmp (t : Transport) : t.name ≠ "icmp" := by cases t <;> decide

def portRule (a : ACL) (t : Transport) : InboundRule :=
  ⟨t.name, aclPortRange a, { addresses := [a.cidrIP] }⟩

def icmpRule (a : ACL) : InboundRule := ⟨"icmp", "", { addresses := [a.cidrIP] }⟩

theorem foldl_protocols (a : ACL) (rules : List InboundRule) (seen : Finset String) :
    protocols.foldl (toRule a) (rules, seen) =
      (rules ++ [portRule a .tcp, portRule a .udp] ++
        (if a.cidrIP ∈ seen then [] else [icmpRule a]), insert a.cidrIP seen) := by
  by_cases hSeen : a.cidrIP ∈ seen
  · simp [protocols, toRule, hSeen, portRule, Transport.name, Finset.insert_eq_of_mem]
  · simp [protocols, toRule, hSeen, portRule, Transport.name, icmpRule]

/-- What the loop has collected: the rules of the ACLs, and their addresses. -/
structure Collected (acls : List ACL) (st : List InboundRule × Finset String) : Prop where
  rules : ∀ rule, rule ∈ st.1 ↔
    ∃ a ∈ acls, rule = icmpRule a ∨ rule = portRule a .tcp ∨ rule = portRule a .udp
  seen : ∀ cidrIP, cidrIP ∈ st.2 ↔ ∃ a ∈ acls, a.cidrIP = cidrIP

theorem Collected.step {st : List InboundRule × Finset String} (h : Collected acls st) (a : ACL) :
    Collected (acls ++ [a]) (protocols.foldl (toRule a) st) := by
  obtain ⟨rules, seen⟩ := st
  rw [foldl_protocols]
  constructor
  · intro rule
    by_cases hSeen : a.cidrIP ∈ seen
    · obtain ⟨a', ha', hCidr⟩ := (h.seen a.cidrIP).mp hSeen
      have hIcmp : icmpRule a = icmpRule a' := by rw [icmpRule, icmpRule, hCidr]
      have hOld : icmpRule a ∈ rules := (h.rules _).mpr ⟨a', ha', Or.inl hIcmp⟩
      simp only [hSeen, if_true, List.append_nil, List.mem_append, List.mem_cons,
        List.not_mem_nil, or_false, or_and_right, exists_or, exists_eq_left]
      rw [h.rules]
      constructor
      · rintro (hOld | hPort)
        · exact Or.inl hOld
        · exact Or.inr (Or.inr hPort)
      · rintro (hOld' | rfl | hPort)
        · exact Or.inl hOld'
        · exact Or.inl ((h.rules _).mp hOld)
        · exact Or.inr hPort
    · simp only [hSeen, if_false, List.mem_append, List.mem_cons, List.not_mem_nil, or_false,
        or_and_right, exists_or, exists_eq_left]
      rw [h.rules]
      exact or_assoc.trans (or_congr_right or_comm)
  · intro cidrIP
    simp only [Finset.mem_insert, h.seen, List.mem_append, List.mem_singleton, or_and_right,
      exists_or, exists_eq_left]
    rw [or_comm, eq_comm]

theorem collected (acls : List ACL) :
    Collected acls (acls.foldl (fun st acl => protocols.foldl (toRule acl) st) ([], ∅)) := by
  induction acls using List.reverseRecOn with
  | nil => exact ⟨by simp, by simp⟩
  | append_singleton acls a ih =>
      rw [List.foldl_append, List.foldl_cons, List.foldl_nil]
      exact ih.step a

/-- A rule that the provider or one of the ACLs asks for. -/
def Desired (prvdr : Provider) (acls : List ACL) (rule : InboundRule) : Prop :=
  (∃ a ∈ acls, ∃ t, rule = portRule a t) ∨ (∃ a ∈ acls, rule = icmpRule a) ∨
    ∃ t : Transport, rule = internalRule prvdr t.name

theorem mem_desiredRules {rule : InboundRule} :
    rule ∈ desiredRules prvdr acls ↔ Desired prvdr acls rule := by
  have hTransport : ∀ P : Transport → Prop, (∃ t, P t) ↔ P .tcp ∨ P .udp := by
    intro P
    constructor
    · rintro ⟨t, h⟩
      cases t
      · exact Or.inl h
      · exact Or.inr h
    · rintro (h | h) <;> exact ⟨_, h⟩
  rw [desiredRules, List.mem_append, toRules, (collected acls).rules, Desired]
  simp only [hTransport, List.mem_cons, List.not_mem_nil, or_false, Transport.name, and_or_left,
    exists_or]
  exact or_assoc.trans or_left_comm

/-- A desired rule has one address or the tag for its source. -/
theorem sources_of_desired {rule : InboundRule} (h : rule ∈ desiredRules prvdr acls) :
    (∃ a ∈ acls, rule.sources = { addresses := [a.cidrIP] }) ∨
      rule.sources = { tags := [prvdr.getTag] } := by
  rcases mem_desiredRules.mp h with ⟨a, ha, t, rfl⟩ | ⟨a, ha, rfl⟩ | ⟨t, rfl⟩
  · exact Or.inl ⟨a, ha, rfl⟩
  · exact Or.inl ⟨a, ha, rfl⟩
  · exact Or.inr rfl

theorem eq_of_key_sources {rule rule' : InboundRule} (hKey : ruleKey rule = ruleKey rule')
    (hSources : rule.sources = rule'.sources) : rule = rule' := by
  obtain ⟨protocol, portRange, sources⟩ := rule
  obtain ⟨protocol', portRange', sources'⟩ := rule'
  obtain rfl : protocol = protocol' := congrArg RuleKey.protocol hKey
  obtain rfl : portRange = portRange' := congrArg RuleKey.portRange hKey
  rw [show sources = sources' from hSources]

/-- Desired rules are told apart by their keys. -/
theorem eq_of_ruleKey {rule rule' : InboundRule} (h : rule ∈ desiredRules prvdr acls)
    (h' : rule' ∈ desiredRules prvdr acls) (hKey : ruleKey rule = ruleKey rule') :
    rule = rule' := by
  have hSources : rule.sources = rule'.sources := by
    have hAddresses := congrArg RuleKey.addresses hKey
    have hTags := congrArg RuleKey.tags hKey
    simp only [ruleKey] at hAddresses hTags
    rcases sources_of_desired h with ⟨a, -, hEq⟩ | hEq <;>
      rcases sources_of_desired h' with ⟨a', -, hEq'⟩ | hEq' <;>
      simp only [hEq, hEq', String.intercalate_singleton, String.intercalate_nil]
        at hAddresses hTags
    · rw [hEq, hEq', hAddresses]
    · exact absurd hTags.symm (getTag_ne_empty prvdr)
    · exact absurd hTags (getTag_ne_empty prvdr)
    · rw [hEq, hEq']
  exact eq_of_key_sources hKey hSources

/-- The desired rules stand for the desired traffic. -/
theorem covers_desired_iff (hWell : ∀ a ∈ acls, WellFormed a) (traffic : Traffic)
    (source : Source) :
    (∃ rule ∈ desiredRules prvdr acls, rule.Covers traffic ∧ rule.sources.Has source) ↔
      Wanted prvdr acls traffic source := by
  constructor
  · rintro ⟨rule, hRule, hCovers, hHas⟩
    rcases mem_desiredRules.mp hRule with ⟨a, ha, t, rfl⟩ | ⟨a, ha, rfl⟩ | ⟨t, rfl⟩
    · cases traffic with
      | icmp => exact absurd hCovers t.name_ne_icmp
      | port proto port =>
          cases source with
          | address cidrIP =>
              have hRange := (inRange_aclPortRange (hWell a ha) port).mp hCovers.2
              exact ⟨a, ha, (List.mem_singleton.mp hHas).symm, hRange⟩
          | tag | droplet | loadBalancer => exact absurd hHas List.not_mem_nil
    · cases traffic with
      | port proto port => exact absurd hCovers.1.symm proto.name_ne_icmp
      | icmp =>
          cases source with
          | address cidrIP => exact ⟨a, ha, (List.mem_singleton.mp hHas).symm⟩
          | tag | droplet | loadBalancer => exact absurd hHas List.not_mem_nil
    · cases traffic with
      | icmp => exact absurd hCovers t.name_ne_icmp
      | port proto port =>
          cases source with
          | tag => exact List.mem_singleton.mp hHas
          | address | droplet | loadBalancer => exact absurd hHas List.not_mem_nil
  · intro hWanted
    cases traffic with
    | port proto port =>
        cases source with
        | address cidrIP =>
            obtain ⟨a, ha, rfl, hRange⟩ := hWanted
            exact ⟨portRule a proto, mem_desiredRules.mpr (Or.inl ⟨a, ha, proto, rfl⟩),
              ⟨rfl, (inRange_aclPortRange (hWell a ha) port).mpr hRange⟩,
              List.mem_singleton_self _⟩
        | tag =>
            exact ⟨internalRule prvdr proto.name,
              mem_desiredRules.mpr (Or.inr (Or.inr ⟨proto, rfl⟩)), ⟨rfl, Or.inl rfl⟩,
              List.mem_singleton.mpr hWanted⟩
        | droplet | loadBalancer => exact hWanted.elim
    | icmp =>
        cases source with
        | address cidrIP =>
            obtain ⟨a, ha, rfl⟩ := hWanted
            exact ⟨icmpRule a, mem_desiredRules.mpr (Or.inr (Or.inl ⟨a, ha, rfl⟩)), rfl,
              List.mem_singleton_self _⟩
        | tag | droplet | loadBalancer => exact hWanted.elim

end Rules

section Spelling

/-- A rule that has been listed and fixed. -/
def fixed (rule : InboundRule) : InboundRule := fixPortRange (listed rule)

theorem fixed_eq (rule : InboundRule) : fixed rule =
    { rule with portRange := if rule.protocol = "icmp" then ""
        else if rule.portRange = "0" then "all" else rule.portRange } := by
  obtain ⟨protocol, portRange, sources⟩ := rule
  by_cases hIcmp : protocol = "icmp"
  · simp [fixed, listed, fixPortRange, hIcmp]
  · by_cases hAll : portRange = "all"
    · by_cases hProto : protocol = "tcp" ∨ protocol = "udp" <;>
        simp [fixed, listed, fixPortRange, hIcmp, hAll, hProto]
    · by_cases hZero : portRange = "0" <;>
        simp [fixed, listed, fixPortRange, hIcmp, hAll, hZero]

@[simp] theorem fixed_protocol (rule : InboundRule) : (fixed rule).protocol = rule.protocol := by
  rw [fixed_eq]

@[simp] theorem fixed_sources (rule : InboundRule) : (fixed rule).sources = rule.sources := by
  rw [fixed_eq]

theorem fixed_eq_self {rule : InboundRule} (hIcmp : rule.protocol ≠ "icmp")
    (hZero : rule.portRange ≠ "0") : fixed rule = rule := by
  rw [fixed_eq, if_neg hIcmp, if_neg hZero]

theorem fixed_fixed (rule : InboundRule) : fixed (fixed rule) = fixed rule := by
  rw [fixed_eq (fixed rule), fixed_eq rule]
  by_cases hIcmp : rule.protocol = "icmp"
  · simp [hIcmp]
  · by_cases hZero : rule.portRange = "0" <;> simp [hIcmp, hZero]

end Spelling

section Settled

variable {prvdr : Provider} {acls : List ACL} {fw : Rules}

theorem fixRulesPortRange_listed (stored : List InboundRule) :
    fixRulesPortRange (stored.map listed) = stored.map fixed := by
  rw [fixRulesPortRange, List.map_map]
  rfl

/-- The keys of the listing are those of the desired rules. -/
structure Matched (prvdr : Provider) (acls : List ACL) (fw : Rules) : Prop where
  covers : ∀ d ∈ desiredRules prvdr acls, ∃ rule ∈ fw, ruleKey (fixed rule) = ruleKey d
  known : ∀ rule ∈ fw, ∃ d ∈ desiredRules prvdr acls, ruleKey d = ruleKey (fixed rule)
  inj : ∀ rule ∈ fw, ∀ rule' ∈ fw, ruleKey (fixed rule) = ruleKey (fixed rule') → rule = rule'

/-- A second update has nothing to do if each key is listed once. -/
theorem idle_iff : (∀ ord listing, Lists fw listing →
    syncACLs ord prvdr acls (fixRulesPortRange listing) = ([], [])) ↔ Matched prvdr acls fw := by
  constructor
  · intro hIdle
    have hSync := hIdle .stored _ ⟨fw.toList, fw.nodup_toList, fw.toList_toFinset, rfl⟩
    rw [fixRulesPortRange_listed] at hSync
    have hJoin := hashJoin_reconciles .stored (desiredRules prvdr acls) (fw.toList.map fixed)
      ruleKey ruleKey
    have hCovers := hJoin.lonelyLefts_eq_nil_iff.mp (congrArg Prod.fst hSync)
    obtain ⟨hNodup, hKnown⟩ := hJoin.lonelyRights_eq_nil_iff.mp (congrArg Prod.snd hSync)
    constructor
    · intro d hd
      obtain ⟨r, hr, hKey⟩ := hCovers d hd
      obtain ⟨rule, hRule, rfl⟩ := List.mem_map.mp hr
      exact ⟨rule, Finset.mem_toList.mp hRule, hKey⟩
    · intro rule hRule
      exact hKnown _ (List.mem_map_of_mem (Finset.mem_toList.mpr hRule))
    · intro rule hRule rule' hRule' hKey
      rw [List.map_map] at hNodup
      exact List.inj_on_of_nodup_map hNodup (Finset.mem_toList.mpr hRule)
        (Finset.mem_toList.mpr hRule') hKey
  · rintro h ord listing ⟨stored, hNodup, rfl, rfl⟩
    rw [fixRulesPortRange_listed]
    have hJoin := hashJoin_reconciles ord (desiredRules prvdr acls) (stored.map fixed)
      ruleKey ruleKey
    refine Prod.ext (hJoin.lonelyLefts_eq_nil_iff.mpr ?_)
      (hJoin.lonelyRights_eq_nil_iff.mpr ⟨?_, ?_⟩)
    · intro d hd
      obtain ⟨rule, hRule, hKey⟩ := h.covers d hd
      exact ⟨fixed rule, List.mem_map_of_mem (List.mem_toFinset.mp hRule), hKey⟩
    · rw [List.map_map]
      exact hNodup.map_on (fun rule hRule rule' hRule' hKey =>
        h.inj rule (List.mem_toFinset.mpr hRule) rule' (List.mem_toFinset.mpr hRule') hKey)
    · intro r hr
      obtain ⟨rule, hRule, rfl⟩ := List.mem_map.mp hr
      exact h.known rule (List.mem_toFinset.mpr hRule)

/-- The rules are the desired ones, though an ICMP rule may be spelled with
ports. -/
structure Settled (prvdr : Provider) (acls : List ACL) (fw : Rules) : Prop where
  ports : ∀ a ∈ acls, a.maxPort ≠ 0
  desired : ∀ rule ∈ fw, fixed rule ∈ desiredRules prvdr acls
  covers : ∀ d ∈ desiredRules prvdr acls, ∃ rule ∈ fw, fixed rule = d
  inj : ∀ rule ∈ fw, ∀ rule' ∈ fw, fixed rule = fixed rule' → rule = rule'
  spelled : ∀ rule ∈ fw, fixed rule ≠ rule → rule.protocol = "icmp"

theorem covers_fixed_iff {rule : InboundRule} (h : fixed rule ≠ rule → rule.protocol = "icmp")
    (traffic : Traffic) : (fixed rule).Covers traffic ↔ rule.Covers traffic := by
  by_cases hFixed : fixed rule = rule
  · rw [hFixed]
  · have hIcmp := h hFixed
    cases traffic with
    | icmp => simp [InboundRule.Covers]
    | port proto port => simp [InboundRule.Covers, hIcmp, proto.name_ne_icmp.symm]

theorem Settled.converged (h : Settled prvdr acls fw) (hWell : ∀ a ∈ acls, WellFormed a) :
    Converged prvdr acls fw := by
  constructor
  · refine idle_iff.mpr ⟨?_, ?_, ?_⟩
    · intro d hd
      obtain ⟨rule, hRule, hFixed⟩ := h.covers d hd
      exact ⟨rule, hRule, congrArg ruleKey hFixed⟩
    · exact fun rule hRule => ⟨fixed rule, h.desired rule hRule, rfl⟩
    · intro rule hRule rule' hRule' hKey
      exact h.inj rule hRule rule' hRule'
        (eq_of_ruleKey (h.desired rule hRule) (h.desired rule' hRule') hKey)
  · intro traffic source
    rw [← covers_desired_iff hWell]
    constructor
    · rintro ⟨rule, hRule, hCovers, hHas⟩
      refine ⟨fixed rule, h.desired rule hRule, ?_, ?_⟩
      · exact (covers_fixed_iff (h.spelled rule hRule) traffic).mpr hCovers
      · rwa [fixed_sources]
    · rintro ⟨d, hd, hCovers, hHas⟩
      obtain ⟨rule, hRule, rfl⟩ := h.covers d hd
      refine ⟨rule, hRule, ?_, ?_⟩
      · exact (covers_fixed_iff (h.spelled rule hRule) traffic).mp hCovers
      · rwa [fixed_sources] at hHas

/-- Nothing but the port 0 and all ports is written as all ports. -/
theorem portRange_of_fixed {rule : InboundRule} (h : rule.protocol ≠ "icmp") :
    (fixed rule).portRange ≠ "0" ∧ ((fixed rule).portRange ≠ "all" → fixed rule = rule) ∧
      ((fixed rule).portRange = "all" → rule.portRange = "all" ∨ rule.portRange = "0") := by
  rw [fixed_eq]
  obtain ⟨protocol, portRange, sources⟩ := rule
  by_cases hZero : portRange = "0" <;> simp_all

theorem eq_singleton_of_repeated {xs : List String} {tag : String} (hAll : ∀ x ∈ xs, x = tag)
    (hNe : tag ≠ "") (h : ",".intercalate xs = tag) : xs = [tag] := by
  match xs with
  | [] => exact absurd h.symm hNe
  | [x] => rw [hAll x (List.mem_singleton_self x)]
  | x :: y :: xs =>
      rw [String.intercalate_cons_cons, hAll x (List.mem_cons_self ..)] at h
      have hLength := congrArg String.length h
      simp only [String.length_append] at hLength
      have hComma : (",").length = 1 := by decide
      omega

namespace Converged

variable (h : Converged prvdr acls fw) (hWell : ∀ a ∈ acls, WellFormed a)

include h

theorem matched : Matched prvdr acls fw := idle_iff.mp h.idle

theorem wanted_of_has {rule : InboundRule} (hRule : rule ∈ fw) {traffic : Traffic}
    (hCovers : rule.Covers traffic) {source : Source} (hHas : rule.sources.Has source) :
    Wanted prvdr acls traffic source :=
  (h.exact traffic source).mp ⟨rule, hRule, hCovers, hHas⟩

theorem no_other_sources {rule : InboundRule} (hRule : rule ∈ fw) {traffic : Traffic}
    (hCovers : rule.Covers traffic) :
    rule.sources.dropletIDs = [] ∧ rule.sources.loadBalancerUIDs = [] := by
  constructor
  · refine List.eq_nil_iff_forall_not_mem.mpr (fun id hID => ?_)
    have hWanted : Wanted prvdr acls traffic (.droplet id) := h.wanted_of_has hRule hCovers hID
    cases traffic <;> exact hWanted
  · refine List.eq_nil_iff_forall_not_mem.mpr (fun uid hUID => ?_)
    have hWanted : Wanted prvdr acls traffic (.loadBalancer uid) :=
      h.wanted_of_has hRule hCovers hUID
    cases traffic <;> exact hWanted

/-- All ports are open to the own droplets, so the rule with this key is not the
one for the port 0. -/
theorem portRange_internal {rule : InboundRule} (hRule : rule ∈ fw) {t : Transport}
    (hKey : ruleKey (internalRule prvdr t.name) = ruleKey (fixed rule)) :
    rule.portRange = "all" := by
  have hWanted : Wanted prvdr acls (.port t 80) (.tag prvdr.getTag) := rfl
  obtain ⟨rule', hRule', ⟨hProtocol, hRange⟩, hHas⟩ := (h.exact _ _).mpr hWanted
  obtain ⟨d, hd, hKey'⟩ := h.matched.known rule' hRule'
  have hNoTag : ",".intercalate rule'.sources.tags ≠ "" := fun hEmpty =>
    getTag_ne_empty prvdr (eq_empty_of_join hEmpty _ hHas)
  have hTags : (ruleKey d).tags = ",".intercalate rule'.sources.tags := by
    rw [hKey', ruleKey, fixed_sources]
  have hSame : rule' = rule := by
    rcases mem_desiredRules.mp hd with ⟨a, -, t', rfl⟩ | ⟨a, -, rfl⟩ | ⟨t', rfl⟩
    · exact absurd hTags.symm hNoTag
    · exact absurd hTags.symm hNoTag
    · have hName : t'.name = t.name :=
        ((congrArg RuleKey.protocol hKey').trans (fixed_protocol rule')).trans hProtocol
      rw [hName] at hKey'
      exact h.matched.inj rule' hRule' rule hRule (hKey'.symm.trans hKey)
  rw [hSame] at hRange
  have hIcmp : rule.protocol ≠ "icmp" := by
    rw [← hSame, hProtocol]
    exact t.name_ne_icmp
  have hAll : (fixed rule).portRange = "all" := (congrArg RuleKey.portRange hKey).symm
  rcases (portRange_of_fixed hIcmp).2.2 hAll with hText | hText
  · exact hText
  · rw [hText, show "0" = (0 : Nat).repr by decide, inRange_repr] at hRange
    exact absurd hRange (by decide)

include hWell

/-- The key of a rule for the port 0 is never listed. -/
theorem ports : ∀ a ∈ acls, a.maxPort ≠ 0 := by
  intro a ha hZero
  have hText := (aclPortRange_eq_zero_iff (hWell a ha)).mpr hZero
  obtain ⟨rule, -, hKey⟩ := h.matched.covers (portRule a .tcp)
    (mem_desiredRules.mpr (Or.inl ⟨a, ha, .tcp, rfl⟩))
  have hProtocol : rule.protocol = "tcp" :=
    (fixed_protocol rule).symm.trans (congrArg RuleKey.protocol hKey)
  have hRange : (fixed rule).portRange = "0" := (congrArg RuleKey.portRange hKey).trans hText
  exact (portRange_of_fixed (by rw [hProtocol]; decide)).1 hRange

/-- A rule with the key of a rule for one address. -/
theorem sources_address {rule : InboundRule} (hRule : rule ∈ fw) {traffic : Traffic}
    (hCovers : rule.Covers traffic) {a : ACL} (ha : a ∈ acls)
    (hAddresses : ",".intercalate rule.sources.addresses = a.cidrIP)
    (hTags : ",".intercalate rule.sources.tags = "") :
    rule.sources = { addresses := [a.cidrIP] } := by
  obtain ⟨hDroplets, hBalancers⟩ := h.no_other_sources hRule hCovers
  obtain ⟨hNe, hComma⟩ := cidr_ne_empty (hWell a ha)
  have hNoTags : rule.sources.tags = [] := by
    refine List.eq_nil_iff_forall_not_mem.mpr (fun tag hTag => ?_)
    have hWanted : Wanted prvdr acls traffic (.tag tag) := h.wanted_of_has hRule hCovers hTag
    cases traffic with
    | icmp => exact hWanted
    | port proto port =>
        exact getTag_ne_empty prvdr (hWanted.symm.trans (eq_empty_of_join hTags tag hTag))
  exact Sources.ext (eq_singleton_of_join hAddresses hNe hComma) hNoTags hDroplets hBalancers

/-- A rule with the key of the rule for the own droplets. -/
theorem sources_tag {rule : InboundRule} (hRule : rule ∈ fw) {t : Transport}
    (hCovers : rule.Covers (.port t 0))
    (hAddresses : ",".intercalate rule.sources.addresses = "")
    (hTags : ",".intercalate rule.sources.tags = prvdr.getTag) :
    rule.sources = { tags := [prvdr.getTag] } := by
  obtain ⟨hDroplets, hBalancers⟩ := h.no_other_sources hRule hCovers
  have hNoAddresses : rule.sources.addresses = [] := by
    refine List.eq_nil_iff_forall_not_mem.mpr (fun cidrIP hCidr => ?_)
    have hWanted : Wanted prvdr acls (.port t 0) (.address cidrIP) :=
      h.wanted_of_has hRule hCovers hCidr
    obtain ⟨a, ha, hEq, -⟩ := hWanted
    exact (cidr_ne_empty (hWell a ha)).1 (hEq.trans (eq_empty_of_join hAddresses cidrIP hCidr))
  have hOwn : ∀ tag ∈ rule.sources.tags, tag = prvdr.getTag := by
    intro tag hTag
    have hWanted : Wanted prvdr acls (.port t 0) (.tag tag) :=
      h.wanted_of_has hRule hCovers hTag
    exact hWanted
  exact Sources.ext hNoAddresses (eq_singleton_of_repeated hOwn (getTag_ne_empty prvdr) hTags)
    hDroplets hBalancers

/-- Whatever has the key of a desired rule is this rule. -/
theorem eq_desired {rule : InboundRule} (hRule : rule ∈ fw) {d : InboundRule}
    (hd : d ∈ desiredRules prvdr acls) (hKey : ruleKey d = ruleKey (fixed rule)) :
    fixed rule = d ∧ (fixed rule ≠ rule → rule.protocol = "icmp") := by
  have hProtocol : d.protocol = rule.protocol :=
    (congrArg RuleKey.protocol hKey).trans (fixed_protocol rule)
  have hAddresses : ",".intercalate rule.sources.addresses =
      ",".intercalate d.sources.addresses := by
    rw [← fixed_sources]
    exact (congrArg RuleKey.addresses hKey).symm
  have hTags : ",".intercalate rule.sources.tags = ",".intercalate d.sources.tags := by
    rw [← fixed_sources]
    exact (congrArg RuleKey.tags hKey).symm
  have hEq : rule.sources = d.sources → fixed rule = d := fun hSources =>
    eq_of_key_sources hKey.symm ((fixed_sources rule).trans hSources)
  rcases mem_desiredRules.mp hd with ⟨a, ha, t, rfl⟩ | ⟨a, ha, rfl⟩ | ⟨t, rfl⟩
  · have hIcmp : rule.protocol ≠ "icmp" := hProtocol ▸ t.name_ne_icmp
    have hRange : (fixed rule).portRange = aclPortRange a :=
      (congrArg RuleKey.portRange hKey).symm
    have hFixed : fixed rule = rule :=
      (portRange_of_fixed hIcmp).2.1 (hRange ▸ aclPortRange_ne_all (hWell a ha))
    rw [hFixed] at hRange
    obtain ⟨low, high, hLow, hHigh, hLe, hMax, -⟩ := aclPortRange_cases (hWell a ha)
    have hCovers : rule.Covers (.port t ⟨low, by omega⟩) := by
      refine ⟨hProtocol.symm, ?_⟩
      rw [hRange, inRange_aclPortRange (hWell a ha)]
      simp only
      omega
    rw [portRule, String.intercalate_singleton] at hAddresses
    exact ⟨hEq (h.sources_address hWell hRule hCovers ha hAddresses hTags),
      fun hNe => absurd hFixed hNe⟩
  · rw [icmpRule, String.intercalate_singleton] at hAddresses
    have hCovers : rule.Covers .icmp := hProtocol.symm
    exact ⟨hEq (h.sources_address hWell hRule hCovers ha hAddresses hTags),
      fun _ => hProtocol.symm⟩
  · have hRange := h.portRange_internal hRule hKey
    have hCovers : rule.Covers (.port t 0) := ⟨hProtocol.symm, Or.inl hRange⟩
    have hFixed : fixed rule = rule :=
      fixed_eq_self (hProtocol ▸ t.name_ne_icmp) (by rw [hRange]; decide)
    rw [internalRule, String.intercalate_singleton] at hTags
    exact ⟨hEq (h.sources_tag hWell hRule hCovers hAddresses hTags), fun hNe => absurd hFixed hNe⟩

theorem settled : Settled prvdr acls fw := by
  have hDesired : ∀ rule ∈ fw, fixed rule ∈ desiredRules prvdr acls := by
    intro rule hRule
    obtain ⟨d, hd, hKey⟩ := h.matched.known rule hRule
    rwa [(h.eq_desired hWell hRule hd hKey).1]
  constructor
  · exact h.ports hWell
  · exact hDesired
  · intro d hd
    obtain ⟨rule, hRule, hKey⟩ := h.matched.covers d hd
    exact ⟨rule, hRule, eq_of_ruleKey (hDesired rule hRule) hd hKey⟩
  · intro rule hRule rule' hRule' hSame
    exact h.matched.inj rule hRule rule' hRule' (congrArg ruleKey hSame)
  · intro rule hRule hNe
    obtain ⟨d, hd, hKey⟩ := h.matched.known rule hRule
    exact (h.eq_desired hWell hRule hd hKey).2 hNe

end Converged

end Settled

end Kelda.DigitalOcean.Firewall
