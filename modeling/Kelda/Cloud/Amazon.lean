import Kelda.Cloud.Acl
import Kelda.Join.HashJoin

/-! The ingress rules of the security group on Amazon. A permission lists many
address ranges and many groups; it is flattened before it is joined with the
rules of the desired ACLs. -/
namespace Kelda.Amazon

open Join Acl

structure IpRange where
  cidrIp : Option String
deriving DecidableEq

structure UserIdGroupPair where
  groupId : String
deriving DecidableEq

structure IpPermission where
  ipProtocol : Option String := none
  fromPort : Option Int := none
  toPort : Option Int := none
  ipRanges : List IpRange := []
  userIdGroupPairs : List UserIdGroupPair := []
deriving DecidableEq

structure IpPermissionKey where
  protocol : String := ""
  ipRange : String := ""
  minPort : Int := 0
  maxPort : Int := 0
deriving DecidableEq

/-- A rule of a permission is one of its ranges. Absent fields have the zero
value. -/
def ruleKey (perm : IpPermission) (ipRange : IpRange) : IpPermissionKey where
  protocol := perm.ipProtocol.getD ""
  ipRange := ipRange.cidrIp.getD ""
  minPort := perm.fromPort.getD 0
  maxPort := perm.toPort.getD 0

/-- The key of the first range. A permission that is joined has exactly one. -/
def permToACLKey (perm : IpPermission) : IpPermissionKey :=
  ruleKey perm (perm.ipRanges.headD ⟨none⟩)

/-- The variables of the loop over the current permissions. -/
structure Current where
  currRangeRules : List IpPermission := []
  foundGroup : Bool := false
  toRemove : List IpPermission := []

def rangeRule (perm : IpPermission) (ipRange : IpRange) : IpPermission where
  ipProtocol := perm.ipProtocol
  fromPort := perm.fromPort
  toPort := perm.toPort
  ipRanges := [ipRange]

def pairStep (desiredGroupID : String) (st : Current) (pair : UserIdGroupPair) : Current :=
  if pair.groupId ≠ desiredGroupID then
    { st with toRemove := st.toRemove ++ [{ userIdGroupPairs := [pair] }] }
  else { st with foundGroup := true }

def permStep (desiredGroupID : String) (st : Current) (perm : IpPermission) : Current :=
  perm.userIdGroupPairs.foldl (pairStep desiredGroupID)
    { st with currRangeRules := st.currRangeRules ++ perm.ipRanges.map (rangeRule perm) }

def desiredRangeRule (protocol cidrIP : String) (minPort maxPort : Int) : IpPermission where
  ipProtocol := some protocol
  fromPort := some minPort
  toPort := some maxPort
  ipRanges := [⟨some cidrIP⟩]

/-- The rules of an ACL. The one for ICMP does not depend on the ports. -/
def desiredRangeRules (acl : ACL) : List IpPermission :=
  [desiredRangeRule "tcp" acl.cidrIP acl.minPort acl.maxPort,
    desiredRangeRule "udp" acl.cidrIP acl.minPort acl.maxPort,
    desiredRangeRule "icmp" acl.cidrIP (-1) (-1)]

structure Plan where
  rangesToAdd : List IpPermission
  foundGroup : Bool
  toRemove : List IpPermission

def syncACLs (ord : MapOrder) (desiredACLs : List ACL) (desiredGroupID : String)
    (current : List IpPermission) : Plan :=
  let st := current.foldl (permStep desiredGroupID) {}
  let res := hashJoin ord (desiredACLs.flatMap desiredRangeRules) st.currRangeRules
    permToACLKey permToACLKey
  { rangesToAdd := res.lonelyLefts
    foundGroup := st.foundGroup
    toRemove := st.toRemove ++ res.lonelyRights }

section Flattening

variable (desiredGroupID : String)

/-- The pair is one to remove. -/
def otherGroup (pair : UserIdGroupPair) : Bool :=
  pair.groupId ≠ desiredGroupID

theorem foldl_pairStep (pairs : List UserIdGroupPair) (st : Current) :
    pairs.foldl (pairStep desiredGroupID) st =
      { currRangeRules := st.currRangeRules
        foundGroup := st.foundGroup || pairs.any (fun pair => !otherGroup desiredGroupID pair)
        toRemove := st.toRemove ++ (pairs.filter (otherGroup desiredGroupID)).map
          (fun pair => { userIdGroupPairs := [pair] }) } := by
  induction pairs generalizing st with
  | nil => simp
  | cons pair pairs ih =>
      rw [List.foldl_cons, ih, pairStep]
      by_cases hGroup : pair.groupId = desiredGroupID <;> simp [otherGroup, hGroup]

/-- The loop flattens the ranges and the groups independently. -/
theorem foldl_permStep (current : List IpPermission) (st : Current) :
    current.foldl (permStep desiredGroupID) st =
      { currRangeRules := st.currRangeRules ++
          current.flatMap (fun perm => perm.ipRanges.map (rangeRule perm))
        foundGroup := st.foundGroup || (current.flatMap IpPermission.userIdGroupPairs).any
          (fun pair => !otherGroup desiredGroupID pair)
        toRemove := st.toRemove ++ ((current.flatMap IpPermission.userIdGroupPairs).filter
          (otherGroup desiredGroupID)).map (fun pair => { userIdGroupPairs := [pair] }) } := by
  induction current generalizing st with
  | nil => simp
  | cons perm current ih =>
      rw [List.foldl_cons, ih, permStep, foldl_pairStep]
      simp [List.append_assoc, Bool.or_assoc]

end Flattening

/-- The rules of some permissions. -/
def rules (perms : List IpPermission) : List IpPermissionKey :=
  perms.flatMap (fun perm => perm.ipRanges.map (ruleKey perm))

theorem rules_append (perms perms' : List IpPermission) :
    rules (perms ++ perms') = rules perms ++ rules perms' := List.flatMap_append

/-- A permission with one range has the rule of its key. -/
theorem rules_eq_map {perms : List IpPermission} (h : ∀ perm ∈ perms, perm.ipRanges.length = 1) :
    rules perms = perms.map permToACLKey := by
  induction perms with
  | nil => rfl
  | cons perm perms ih =>
      obtain ⟨ipRange, hRange⟩ := List.length_eq_one_iff.mp (h perm (List.mem_cons_self ..))
      have hKey : permToACLKey perm = ruleKey perm ipRange := by rw [permToACLKey, hRange]; rfl
      rw [List.map_cons, ← ih (fun p hp => h p (List.mem_cons_of_mem _ hp)), hKey, rules,
        List.flatMap_cons, hRange]
      rfl

theorem map_permToACLKey_flatten (current : List IpPermission) :
    (current.flatMap (fun perm => perm.ipRanges.map (rangeRule perm))).map permToACLKey =
      rules current := by
  rw [List.map_flatMap, rules]
  apply List.flatMap_congr
  intro perm _
  rw [List.map_map]
  rfl

/-- The rules that the desired ACLs ask for. -/
def Wanted (desiredACLs : List ACL) (rule : IpPermissionKey) : Prop :=
  ∃ acl ∈ desiredACLs, rule = ⟨"tcp", acl.cidrIP, acl.minPort, acl.maxPort⟩ ∨
    rule = ⟨"udp", acl.cidrIP, acl.minPort, acl.maxPort⟩ ∨ rule = ⟨"icmp", acl.cidrIP, -1, -1⟩

theorem mem_desired_keys {desiredACLs : List ACL} {rule : IpPermissionKey} :
    rule ∈ (desiredACLs.flatMap desiredRangeRules).map permToACLKey ↔ Wanted desiredACLs rule := by
  simp only [List.map_flatMap, List.mem_flatMap, Wanted, desiredRangeRules, List.map_cons,
    List.map_nil, List.mem_cons, List.not_mem_nil, or_false]
  rfl

/-- What is true of a plan for the permissions of a group. -/
structure Exact (desiredACLs : List ACL) (desiredGroupID : String) (current : List IpPermission)
    (plan : Plan) : Prop where
  after : ∀ rule, (rule ∈ rules current ∧ rule ∉ rules plan.toRemove) ∨
    rule ∈ rules plan.rangesToAdd ↔ Wanted desiredACLs rule
  removed : ∀ rule ∈ rules plan.toRemove, rule ∈ rules current ∧ ¬Wanted desiredACLs rule
  added : ∀ rule ∈ rules plan.rangesToAdd, rule ∉ rules current
  disjoint : ∀ rule ∈ rules plan.rangesToAdd, rule ∉ rules plan.toRemove
  nodup : plan.rangesToAdd.Nodup ∧ (rules plan.rangesToAdd).Nodup
  single : ∀ perm ∈ plan.rangesToAdd, perm.ipRanges.length = 1 ∧ perm.userIdGroupPairs = []
  groups : plan.toRemove.flatMap IpPermission.userIdGroupPairs =
    (current.flatMap IpPermission.userIdGroupPairs).filter (otherGroup desiredGroupID)
  found : plan.foundGroup = true ↔
    ∃ perm ∈ current, ∃ pair ∈ perm.userIdGroupPairs, pair.groupId = desiredGroupID

section Plans

variable {desiredACLs : List ACL} {desiredGroupID : String} {current : List IpPermission}

theorem length_ranges_of_desired {perm : IpPermission}
    (h : perm ∈ desiredACLs.flatMap desiredRangeRules) :
    perm.ipRanges.length = 1 ∧ perm.userIdGroupPairs = [] := by
  obtain ⟨acl, -, hPerm⟩ := List.mem_flatMap.mp h
  simp only [desiredRangeRules, List.mem_cons, List.not_mem_nil, or_false] at hPerm
  rcases hPerm with rfl | rfl | rfl <;> exact ⟨rfl, rfl⟩

theorem length_ranges_of_current {perm : IpPermission}
    (h : perm ∈ current.flatMap (fun perm => perm.ipRanges.map (rangeRule perm))) :
    perm.ipRanges.length = 1 ∧ perm.userIdGroupPairs = [] := by
  obtain ⟨perm', -, hPerm⟩ := List.mem_flatMap.mp h
  obtain ⟨ipRange, -, rfl⟩ := List.mem_map.mp hPerm
  exact ⟨rfl, rfl⟩

/-- Permissions that name a group only. -/
theorem rules_groups (pairs : List UserIdGroupPair) :
    rules (pairs.map (fun pair => { userIdGroupPairs := [pair] })) = [] := by
  simp [rules]

theorem groups_of_groups (pairs : List UserIdGroupPair) :
    (pairs.map (fun pair => ({ userIdGroupPairs := [pair] } : IpPermission))).flatMap
      IpPermission.userIdGroupPairs = pairs := by
  simp [List.flatMap_map]

theorem groups_eq_nil {perms : List IpPermission}
    (h : ∀ perm ∈ perms, perm.userIdGroupPairs = []) :
    perms.flatMap IpPermission.userIdGroupPairs = [] := by
  simpa [List.flatMap_eq_nil_iff] using h

/-- The rules of the plan are those of the join. -/
theorem syncACLs_exact (ord : MapOrder) (desiredACLs : List ACL) (desiredGroupID : String)
    (current : List IpPermission) (hCurrent : (rules current).Nodup) :
    Exact desiredACLs desiredGroupID current
      (syncACLs ord desiredACLs desiredGroupID current) := by
  have hState := foldl_permStep desiredGroupID current {}
  simp only [List.nil_append, Bool.false_or] at hState
  rw [syncACLs, hState]
  generalize hRights : current.flatMap (fun perm => perm.ipRanges.map (rangeRule perm)) = rights
  have hJoin := hashJoin_reconciles ord (desiredACLs.flatMap desiredRangeRules) rights
    permToACLKey permToACLKey
  generalize hashJoin ord (desiredACLs.flatMap desiredRangeRules) rights permToACLKey
    permToACLKey = res at hJoin
  have hKeys : rights.map permToACLKey = rules current := by
    rw [← hRights, map_permToACLKey_flatten]
  have hLefts : ∀ perm ∈ res.lonelyLefts,
      perm.ipRanges.length = 1 ∧ perm.userIdGroupPairs = [] := fun perm hPerm =>
    length_ranges_of_desired (hJoin.lefts (List.mem_append_right _ hPerm))
  have hLonely : ∀ perm ∈ res.lonelyRights,
      perm.ipRanges.length = 1 ∧ perm.userIdGroupPairs = [] := by
    intro perm hPerm
    have hMem := hJoin.rights.mem_iff.mp (List.mem_append_right _ hPerm)
    rw [← hRights] at hMem
    exact length_ranges_of_current hMem
  have hAdd : rules res.lonelyLefts = res.lonelyLefts.map permToACLKey :=
    rules_eq_map (fun perm hPerm => (hLefts perm hPerm).1)
  have hAdded : ∀ rule, rule ∈ rules res.lonelyLefts ↔
      Wanted desiredACLs rule ∧ rule ∉ rules current := by
    intro rule
    rw [hAdd, hJoin.mem_lonelyLefts_keys_iff, mem_desired_keys, hKeys]
  have hRemoved : ∀ rule, rule ∈ rules res.lonelyRights ↔
      rule ∈ rules current ∧ ¬Wanted desiredACLs rule := by
    intro rule
    rw [rules_eq_map (fun perm hPerm => (hLonely perm hPerm).1),
      hJoin.mem_lonelyRights_keys_iff (hKeys ▸ hCurrent), mem_desired_keys, hKeys]
  have hNodup : (rules res.lonelyLefts).Nodup := hAdd ▸ hJoin.lonelyLefts_keys_nodup
  constructor
  · intro rule
    rw [rules_append, rules_groups, List.nil_append, hRemoved, hAdded]
    by_cases hIn : rule ∈ rules current <;> by_cases hWanted : Wanted desiredACLs rule <;>
      simp [hIn, hWanted]
  · intro rule hRule
    rw [rules_append, rules_groups, List.nil_append, hRemoved] at hRule
    exact hRule
  · exact fun rule hRule => ((hAdded rule).mp hRule).2
  · intro rule hRule hRem
    rw [rules_append, rules_groups, List.nil_append, hRemoved] at hRem
    exact hRem.2 ((hAdded rule).mp hRule).1
  · exact ⟨(hAdd ▸ hNodup).of_map _, hNodup⟩
  · exact hLefts
  · rw [List.flatMap_append, groups_of_groups,
      groups_eq_nil (fun perm hPerm => (hLonely perm hPerm).2), List.append_nil]
  · simp [otherGroup]

end Plans

/-- A permission with two ranges and two groups. -/
def sharedPermission : IpPermission where
  ipProtocol := some "tcp"
  fromPort := some 80
  toPort := some 80
  ipRanges := [⟨some "1.0.0.0/8"⟩, ⟨some "2.0.0.0/8"⟩]
  userIdGroupPairs := [⟨"sg"⟩, ⟨"sg-other"⟩]

theorem syncACLs_exact_shared :
    (rules [sharedPermission]).Nodup ∧
      Exact [⟨"1.0.0.0/8", 80, 90⟩, ⟨"1.0.0.0/8", 80, 80⟩] "sg" [sharedPermission]
        (syncACLs .stored [⟨"1.0.0.0/8", 80, 90⟩, ⟨"1.0.0.0/8", 80, 80⟩] "sg"
          [sharedPermission]) :=
  ⟨by decide, syncACLs_exact _ _ _ _ (by decide)⟩

end Kelda.Amazon
