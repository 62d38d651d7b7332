import Kelda.Cloud.Acl
import Kelda.Join.HashJoin

/-! The firewalls on Google. An ACL is written into a firewall whose name spells
its addresses and ports, and is parsed from it again. -/
namespace Kelda.Google

open Join Acl Text

structure FirewallAllowed where
  ipProtocol : String
  ports : List String := []
deriving DecidableEq

structure Firewall where
  name : String
  network : String := ""
  description : String := ""
  sourceRanges : List String := []
  allowed : List FirewallAllowed := []
deriving DecidableEq

/-- An ACL with the name of its firewall. -/
structure GACL where
  name : String
  acl : ACL
deriving DecidableEq

structure Provider where
  network : String

def Provider.networkURL (prvdr : Provider) : String := "global/networks/" ++ prvdr.network

section Parse

def malformed : String := "malformed firewall"

def invalidPort (portsStr : String) : String := "invalid port: " ++ portsStr

/-- All protocols but ICMP must have one and the same text. -/
def allowedPorts (portsStr : String) (allowed : FirewallAllowed) : Except String String :=
  if allowed.ipProtocol = "icmp" then .ok portsStr
  else
    match allowed.ports with
    | [ports] =>
      if portsStr = "" then .ok ports
      else if portsStr ≠ ports then .error malformed
      else .ok portsStr
    | _ => .error malformed

def parsePort (portsStr p : String) : Except String Int :=
  match atoi p with
  | some portInt => .ok portInt
  | none => .error (invalidPort portsStr)

/-- One port stands for itself. -/
def parsePorts (portsStr : String) : Except String (Int × Int) := do
  match ← (split '-' portsStr).mapM (parsePort portsStr) with
  | [port] => .ok (port, port)
  | [minPort, maxPort] => .ok (minPort, maxPort)
  | _ => .error (invalidPort portsStr)

def parseACL (fw : Firewall) : Except String GACL :=
  match fw.sourceRanges, fw.allowed.length with
  | [cidrIP], 3 => do
    let portsStr ← fw.allowed.foldlM allowedPorts ""
    let (minPort, maxPort) ← parsePorts portsStr
    .ok ⟨fw.name, ⟨cidrIP, minPort, maxPort⟩⟩
  | _, _ => .error malformed

end Parse

section Plan

variable (prvdr : Provider)

/-- The dots and the slash of an address become dashes. -/
def dashed (cidrIP : String) : String :=
  (cidrIP.map (fun c => if c = '.' then '-' else c)).map (fun c => if c = '/' then '-' else c)

def toGACL (a : ACL) : GACL where
  name := prvdr.network ++ "-" ++ dashed a.cidrIP ++ "-" ++ a.minPort.repr ++ "-" ++ a.maxPort.repr
  acl := a

def toFirewall (a : GACL) : Firewall where
  name := a.name
  network := prvdr.networkURL
  description := prvdr.network
  sourceRanges := [a.acl.cidrIP]
  allowed := [⟨"tcp", [portRange a.acl]⟩, ⟨"udp", [portRange a.acl]⟩, ⟨"icmp", []⟩]

/-- The parsed ACLs and the names of the firewalls that are malformed. -/
def readFirewall (st : List GACL × List String) (fw : Firewall) : List GACL × List String :=
  match parseACL fw with
  | .error _ => (st.1, st.2 ++ [fw.name])
  | .ok acl => (st.1 ++ [acl], st.2)

/-- The firewalls to add and the names of those to remove. -/
def planSetACLs (ord : MapOrder) (cloudFWs : List Firewall) (acls : List ACL) :
    List Firewall × List String :=
  let (cloudACLs, malformedNames) := cloudFWs.foldl readFirewall ([], [])
  let res := hashJoin ord (acls.map (toGACL prvdr)) cloudACLs id id
  (res.lonelyLefts.map (toFirewall prvdr), malformedNames ++ res.lonelyRights.map GACL.name)

end Plan

/-- Dotted decimal addresses and a number of bits, without superfluous zeros. -/
def Canonical (cidrIP : String) : Prop :=
  ∃ (ip : IPv4) (bits : Nat), bits ≤ 32 ∧ cidrIP = ip.text ++ "/" ++ bits.repr

/-- The ACLs that are planned for. The ports are of 64 bits. -/
structure WellFormed (a : ACL) : Prop where
  cidr : Canonical a.cidrIP
  min : 0 ≤ a.minPort ∧ a.minPort < 2 ^ 63
  max : 0 ≤ a.maxPort ∧ a.maxPort < 2 ^ 63

section RoundTrip

variable {prvdr : Provider} {fw : Firewall} {g : GACL} {a b : ACL}

theorem portRange_ne_empty (a : ACL) : portRange a ≠ "" := by
  intro h
  have hDash : '-' ∈ (portRange a).toList := by simp [portRange]
  rw [h] at hDash
  simp at hDash

theorem parsePort_repr {n : Int} (hMin : 0 ≤ n) (hMax : n < 2 ^ 63) (portsStr : String) :
    parsePort portsStr n.repr = .ok n := by
  rw [parsePort, atoi_repr (by omega) hMax]

theorem parsePorts_portRange (h : WellFormed a) :
    parsePorts (portRange a) = .ok (a.minPort, a.maxPort) := by
  rw [parsePorts, split_portRange h.min.1 h.max.1]
  simp [parsePort_repr h.min.1 h.min.2, parsePort_repr h.max.1 h.max.2, bind, Except.bind, pure,
    Except.pure]

/-- Parsing a firewall is the inverse of writing it. -/
theorem parseACL_toFirewall (h : WellFormed g.acl) : parseACL (toFirewall prvdr g) = .ok g := by
  have hPorts : (toFirewall prvdr g).allowed.foldlM allowedPorts "" =
      Except.ok (portRange g.acl) := by
    simp [toFirewall, allowedPorts, portRange_ne_empty, bind, Except.bind, pure, Except.pure]
  change ((toFirewall prvdr g).allowed.foldlM allowedPorts "").bind _ = _
  rw [hPorts]
  change (parsePorts (portRange g.acl)).bind _ = _
  rw [parsePorts_portRange h]
  rfl

/-- What is parsed keeps the name. -/
theorem name_of_parseACL (h : parseACL fw = .ok g) : g.name = fw.name := by
  rw [parseACL] at h
  split at h
  · cases hStr : fw.allowed.foldlM allowedPorts "" with
    | error err =>
        rw [hStr] at h
        cases h
    | ok portsStr =>
        rw [hStr] at h
        cases hPorts : parsePorts portsStr with
        | error err =>
            simp only [bind, Except.bind, hPorts] at h
            cases h
        | ok ports =>
            simp only [bind, Except.bind, hPorts] at h
            cases h
            rfl
  · cases h

theorem map_dash (s : List Char) (h : ∀ c ∈ s, c.isDigit) :
    (s.map (fun c => if c = '.' then '-' else c)).map (fun c => if c = '/' then '-' else c) =
      s := by
  rw [List.map_map]
  refine (List.map_congr_left (fun c hc => ?_)).trans (List.map_id s)
  have hDot : c ≠ '.' := fun hEq => absurd (hEq ▸ h c hc) (by decide)
  have hSlash : c ≠ '/' := fun hEq => absurd (hEq ▸ h c hc) (by decide)
  simp [hDot, hSlash]

/-- The seven numbers of a name, between dashes. -/
theorem name_eq (ip : IPv4) (bits : Nat) (minPort maxPort : Int) :
    (toGACL prvdr ⟨ip.text ++ "/" ++ bits.repr, minPort, maxPort⟩).name =
      prvdr.network ++ "-" ++ (String.singleton '-').intercalate [ip.a.val.repr, ip.b.val.repr,
        ip.c.val.repr, ip.d.val.repr, bits.repr, minPort.repr, maxPort.repr] := by
  have hNat := fun n : Nat => map_dash n.repr.toList (fun c hc => isDigit_of_mem_repr hc)
  apply String.toList_inj.mp
  simp only [toGACL, dashed, String.toList_append, String.toList_map, IPv4.text_toList,
    List.map_append, List.map_cons, hNat, String.toList_intercalate]
  simp [List.intercalate]

/-- The numbers have no dashes, so they can be told apart. -/
theorem split_numbers (octets : List Nat) {minPort maxPort : Int} (hMin : 0 ≤ minPort)
    (hMax : 0 ≤ maxPort) :
    split '-' ((String.singleton '-').intercalate
      (octets.map Nat.repr ++ [minPort.repr, maxPort.repr])) =
        octets.map Nat.repr ++ [minPort.repr, maxPort.repr] := by
  apply split_intercalate
  · intro w hw
    rcases List.mem_append.mp hw with hOctet | hPort
    · obtain ⟨n, -, rfl⟩ := List.mem_map.mp hOctet
      exact fun hDash => absurd (isDigit_of_mem_repr hDash) (by decide)
    · simp only [List.mem_cons, List.not_mem_nil, or_false] at hPort
      rcases hPort with rfl | rfl
      · exact dash_notMem_repr hMin
      · exact dash_notMem_repr hMax
  · simp

theorem toGACL_name_inj (ha : WellFormed a) (hb : WellFormed b)
    (h : (toGACL prvdr a).name = (toGACL prvdr b).name) : a = b := by
  obtain ⟨ip, bits, -, hCidr⟩ := ha.cidr
  obtain ⟨ip', bits', -, hCidr'⟩ := hb.cidr
  obtain ⟨hMin, hMax⟩ := And.intro ha.min.1 ha.max.1
  obtain ⟨hMin', hMax'⟩ := And.intro hb.min.1 hb.max.1
  obtain ⟨_, minPort, maxPort⟩ := a
  obtain ⟨_, minPort', maxPort'⟩ := b
  subst hCidr hCidr'
  rw [name_eq, name_eq, String.append_right_inj] at h
  have hSplit := (split_numbers [ip.a, ip.b, ip.c, ip.d, bits] hMin hMax).symm.trans
    ((congrArg (split '-') h).trans
      (split_numbers [ip'.a, ip'.b, ip'.c, ip'.d, bits'] hMin' hMax'))
  simp only [List.map_cons, List.map_nil, List.cons_append, List.nil_append, List.cons.injEq,
    Nat.repr_inj, Int.repr_inj, Fin.val_inj] at hSplit
  obtain ⟨hA, hB, hC, hD, rfl, rfl, rfl, -⟩ := hSplit
  obtain rfl : ip = ip' := by
    cases ip
    cases ip'
    exact IPv4.mk.injEq .. |>.mpr ⟨hA, hB, hC, hD⟩
  rfl

end RoundTrip

section Planning

variable {prvdr : Provider} {fws : List Firewall} {acls : List ACL}

/-- What the loop over the firewalls collects. -/
theorem foldl_readFirewall (fws : List Firewall) (st : List GACL × List String) :
    fws.foldl readFirewall st =
      (st.1 ++ fws.filterMap (fun fw => (parseACL fw).toOption),
        st.2 ++ (fws.filter (fun fw => (parseACL fw).toOption.isNone)).map Firewall.name) := by
  induction fws generalizing st with
  | nil => simp
  | cons fw fws ih =>
      rw [List.foldl_cons, ih, readFirewall]
      cases hParse : parseACL fw <;> simp [hParse, Except.toOption]

/-- The ACLs of the firewalls. -/
def parsed (fws : List Firewall) : List GACL :=
  fws.filterMap (fun fw => (parseACL fw).toOption)

theorem mem_parsed {g : GACL} : g ∈ parsed fws ↔ ∃ fw ∈ fws, parseACL fw = .ok g := by
  rw [parsed, List.mem_filterMap]
  refine exists_congr (fun fw => and_congr_right (fun _ => ?_))
  cases parseACL fw <;> simp [Except.toOption]

/-- The parsed ACLs have the names of their firewalls. -/
theorem names_parsed_sublist (fws : List Firewall) :
    ((parsed fws).map GACL.name).Sublist (fws.map Firewall.name) := by
  induction fws with
  | nil => exact List.Sublist.slnil
  | cons fw fws ih =>
      rw [parsed, List.filterMap_cons]
      cases hParse : parseACL fw with
      | error err => exact ih.cons _
      | ok g =>
          have hName := name_of_parseACL hParse
          simp only [Except.toOption, List.map_cons, hName]
          exact ih.cons_cons _

theorem nodup_parsed (h : (fws.map Firewall.name).Nodup) : (parsed fws).Nodup :=
  (h.sublist (names_parsed_sublist fws)).of_map _

theorem mapM_parseACL {l : List Firewall} (h : ∀ fw ∈ l, ∃ g, parseACL fw = .ok g) :
    l.mapM parseACL = .ok (parsed l) := by
  induction l with
  | nil => rfl
  | cons fw l ih =>
      obtain ⟨g, hParse⟩ := h fw (List.mem_cons_self ..)
      have hParsed : parsed (fw :: l) = g :: parsed l := by
        rw [parsed, List.filterMap_cons, hParse]
        rfl
      rw [List.mapM_cons, hParse, ih (fun fw' hfw' => h fw' (List.mem_cons_of_mem _ hfw')), hParsed]
      rfl

/-- The names of the firewalls that are malformed. -/
def malformedNames (fws : List Firewall) : List String :=
  (fws.filter (fun fw => (parseACL fw).toOption.isNone)).map Firewall.name

theorem planSetACLs_spec (prvdr : Provider) (ord : MapOrder) (fws : List Firewall)
    (acls : List ACL) :
    ∃ res, Reconciles (acls.map (toGACL prvdr)) (parsed fws) id id res ∧
      planSetACLs prvdr ord fws acls = (res.lonelyLefts.map (toFirewall prvdr),
        malformedNames fws ++ res.lonelyRights.map GACL.name) := by
  refine ⟨_, hashJoin_reconciles ord _ _ id id, ?_⟩
  rw [planSetACLs, foldl_readFirewall]
  rfl

/-- Nothing is planned if each ACL has its firewall, and no other firewall is
there. -/
theorem planSetACLs_settled (ord : MapOrder) (hNames : (fws.map Firewall.name).Nodup)
    (hParse : ∀ fw ∈ fws, ∃ g ∈ acls.map (toGACL prvdr), parseACL fw = .ok g)
    (hAll : ∀ g ∈ acls.map (toGACL prvdr), g ∈ parsed fws) :
    planSetACLs prvdr ord fws acls = ([], []) := by
  obtain ⟨res, hJoin, hPlan⟩ := planSetACLs_spec prvdr ord fws acls
  have hLefts : res.lonelyLefts = [] :=
    hJoin.lonelyLefts_eq_nil_iff.mpr (fun g hg => ⟨g, hAll g hg, rfl⟩)
  have hRights : res.lonelyRights = [] := by
    refine hJoin.lonelyRights_eq_nil_iff.mpr ⟨?_, fun g hg => ?_⟩
    · rw [List.map_id]
      exact nodup_parsed hNames
    · obtain ⟨fw, hfw, hg⟩ := mem_parsed.mp hg
      obtain ⟨g', hg', hSame⟩ := hParse fw hfw
      exact ⟨g', hg', Except.ok.inj (hSame.symm.trans hg)⟩
  have hMalformed : malformedNames fws = [] := by
    rw [malformedNames, List.filter_eq_nil_iff.mpr, List.map_nil]
    intro fw hfw
    obtain ⟨g, -, hg⟩ := hParse fw hfw
    simp [hg, Except.toOption]
  rw [hPlan, hLefts, hRights, hMalformed]
  rfl

/-- The firewalls that are not removed, and the new ones. -/
def apply (fws : List Firewall) (plan : List Firewall × List String) : List Firewall :=
  fws.filter (fun fw => fw.name ∉ plan.2) ++ plan.1

/-- The plan reaches the ACLs in one step, and stays there. -/
structure Converges (prvdr : Provider) (fws : List Firewall) (acls : List ACL)
    (plan : List Firewall × List String) : Prop where
  removed : ∀ name ∈ plan.2, name ∈ fws.map Firewall.name
  names : ((apply fws plan).map Firewall.name).Nodup
  settled : ∀ ord after, after.Perm (apply fws plan) → planSetACLs prvdr ord after acls = ([], [])
  exact : ∃ gacls, (apply fws plan).mapM parseACL = .ok gacls ∧
    (gacls.map GACL.acl).Perm acls.dedup

section Step

variable {res : Result GACL GACL} {plan : List Firewall × List String}
  (hJoin : Reconciles (acls.map (toGACL prvdr)) (parsed fws) id id res)
  (hPlan : plan = (res.lonelyLefts.map (toFirewall prvdr),
    malformedNames fws ++ res.lonelyRights.map GACL.name))

include hJoin

theorem parse_added (hWell : ∀ a ∈ acls, WellFormed a) {g : GACL} (hg : g ∈ res.lonelyLefts) :
    g ∈ acls.map (toGACL prvdr) ∧ parseACL (toFirewall prvdr g) = .ok g := by
  have hMem := hJoin.lefts (List.mem_append_right _ hg)
  obtain ⟨a, ha, rfl⟩ := List.mem_map.mp hMem
  exact ⟨hMem, parseACL_toFirewall (hWell a ha)⟩

theorem mem_lonelyLefts_iff {g : GACL} :
    g ∈ res.lonelyLefts ↔ g ∈ acls.map (toGACL prvdr) ∧ g ∉ parsed fws := by
  have hKeys := hJoin.mem_lonelyLefts_keys_iff (k := g)
  rwa [List.map_id, List.map_id, List.map_id] at hKeys

variable (hNames : (fws.map Firewall.name).Nodup)

include hNames

theorem mem_lonelyRights_iff {g : GACL} :
    g ∈ res.lonelyRights ↔ g ∈ parsed fws ∧ g ∉ acls.map (toGACL prvdr) := by
  have hNodup : ((parsed fws).map id).Nodup := by
    rw [List.map_id]
    exact nodup_parsed hNames
  have hKeys := hJoin.mem_lonelyRights_keys_iff (k := g) hNodup
  rwa [List.map_id, List.map_id, List.map_id] at hKeys

include hPlan

/-- A firewall is kept if it is one of the ACLs under its own name. -/
theorem notMem_removed_iff {fw : Firewall} (hfw : fw ∈ fws) :
    fw.name ∉ plan.2 ↔ ∃ g ∈ acls.map (toGACL prvdr), parseACL fw = .ok g := by
  have hSame : ∀ fw' ∈ fws, fw'.name = fw.name → fw' = fw := fun fw' hfw' hName =>
    List.inj_on_of_nodup_map hNames hfw' hfw hName
  have hLonely := fun g => mem_lonelyRights_iff (g := g) hJoin hNames
  rw [hPlan, List.mem_append, not_or]
  constructor
  · rintro ⟨hFine, hKept⟩
    cases hParse : parseACL fw with
    | error err =>
        refine absurd (List.mem_map_of_mem (List.mem_filter.mpr ⟨hfw, ?_⟩)) hFine
        rw [hParse]
        rfl
    | ok g =>
        refine ⟨g, ?_, rfl⟩
        by_contra hUnwanted
        apply hKept
        rw [← name_of_parseACL hParse]
        exact List.mem_map_of_mem ((hLonely g).mpr ⟨mem_parsed.mpr ⟨fw, hfw, hParse⟩, hUnwanted⟩)
  · rintro ⟨g, hg, hParse⟩
    constructor
    · intro hMem
      obtain ⟨fw', hfw', hName⟩ := List.mem_map.mp hMem
      obtain ⟨hfw', hNone⟩ := List.mem_filter.mp hfw'
      rw [hSame fw' hfw' hName, hParse] at hNone
      cases hNone
    · intro hMem
      obtain ⟨g', hg', hName⟩ := List.mem_map.mp hMem
      obtain ⟨hParsed, hUnwanted⟩ := (hLonely g').mp hg'
      obtain ⟨fw', hfw', hParse'⟩ := mem_parsed.mp hParsed
      obtain rfl := hSame fw' hfw' ((name_of_parseACL hParse').symm.trans hName)
      rw [Except.ok.inj (hParse'.symm.trans hParse)] at hUnwanted
      exact hUnwanted hg

theorem removed_subset : ∀ name ∈ plan.2, name ∈ fws.map Firewall.name := by
  intro name hName
  rw [hPlan] at hName
  rcases List.mem_append.mp hName with hMalformed | hLonely
  · obtain ⟨fw, hfw, rfl⟩ := List.mem_map.mp hMalformed
    exact List.mem_map_of_mem (List.mem_of_mem_filter hfw)
  · obtain ⟨g, hg, rfl⟩ := List.mem_map.mp hLonely
    obtain ⟨fw, hfw, hParse⟩ := mem_parsed.mp ((mem_lonelyRights_iff hJoin hNames).mp hg).1
    rw [name_of_parseACL hParse]
    exact List.mem_map_of_mem hfw

variable (hWell : ∀ a ∈ acls, WellFormed a)

include hWell

/-- Every firewall that is kept or added is one of the ACLs. -/
theorem parse_apply : ∀ fw ∈ apply fws plan,
    ∃ g ∈ acls.map (toGACL prvdr), parseACL fw = .ok g := by
  intro fw hfw
  rcases List.mem_append.mp hfw with hKept | hNew
  · obtain ⟨hfw, hName⟩ := List.mem_filter.mp hKept
    exact (notMem_removed_iff hJoin hPlan hNames hfw).mp (of_decide_eq_true hName)
  · rw [hPlan] at hNew
    obtain ⟨g, hg, rfl⟩ := List.mem_map.mp hNew
    exact ⟨g, parse_added hJoin hWell hg⟩

/-- Every ACL has a firewall. -/
theorem mem_parsed_apply : ∀ g ∈ acls.map (toGACL prvdr), g ∈ parsed (apply fws plan) := by
  intro g hg
  rw [mem_parsed]
  by_cases hCloud : g ∈ parsed fws
  · obtain ⟨fw, hfw, hParse⟩ := mem_parsed.mp hCloud
    have hKept := (notMem_removed_iff hJoin hPlan hNames hfw).mpr ⟨g, hg, hParse⟩
    exact ⟨fw, List.mem_append_left _ (List.mem_filter.mpr ⟨hfw, decide_eq_true hKept⟩), hParse⟩
  · have hLonely := (mem_lonelyLefts_iff hJoin).mpr ⟨hg, hCloud⟩
    refine ⟨toFirewall prvdr g, List.mem_append_right _ ?_, (parse_added hJoin hWell hLonely).2⟩
    rw [hPlan]
    exact List.mem_map_of_mem hLonely

/-- The name of an ACL tells it from all others, so a new firewall has no
namesake among those that are kept. -/
theorem names_apply : ((apply fws plan).map Firewall.name).Nodup := by
  have hInj : ∀ g ∈ acls.map (toGACL prvdr), ∀ g' ∈ acls.map (toGACL prvdr),
      g.name = g'.name → g = g' := by
    intro g hg g' hg' hName
    obtain ⟨a, ha, rfl⟩ := List.mem_map.mp hg
    obtain ⟨a', ha', rfl⟩ := List.mem_map.mp hg'
    rw [toGACL_name_inj (hWell a ha) (hWell a' ha') hName]
  have hNew : plan.1.map Firewall.name = res.lonelyLefts.map GACL.name := by
    rw [hPlan, List.map_map]
    rfl
  rw [apply, List.map_append, hNew]
  refine List.nodup_append'.mpr ⟨hNames.sublist (List.filter_sublist.map _), ?_, ?_⟩
  · have hLefts := hJoin.lonelyLefts_keys_nodup
    rw [List.map_id] at hLefts
    refine hLefts.map_on (fun g hg g' hg' hName => ?_)
    exact hInj g (parse_added hJoin hWell hg).1 g' (parse_added hJoin hWell hg').1 hName
  · intro name hOld hAdded
    obtain ⟨fw, hfw, rfl⟩ := List.mem_map.mp hOld
    obtain ⟨g, hg, hName⟩ := List.mem_map.mp hAdded
    obtain ⟨hfw, hKept⟩ := List.mem_filter.mp hfw
    obtain ⟨g', hg', hParse⟩ :=
      (notMem_removed_iff hJoin hPlan hNames hfw).mp (of_decide_eq_true hKept)
    obtain ⟨hMem, hAbsent⟩ := (mem_lonelyLefts_iff hJoin).mp hg
    obtain rfl := hInj g hMem g' hg' (hName.trans (name_of_parseACL hParse).symm)
    exact hAbsent (mem_parsed.mpr ⟨fw, hfw, hParse⟩)

/-- The firewalls are the distinct ACLs. -/
theorem parsed_apply_perm : ((parsed (apply fws plan)).map GACL.acl).Perm acls.dedup := by
  have hMem : ∀ g, g ∈ parsed (apply fws plan) ↔ g ∈ acls.map (toGACL prvdr) := by
    intro g
    refine ⟨fun hg => ?_, mem_parsed_apply hJoin hPlan hNames hWell g⟩
    obtain ⟨fw, hfw, hParse⟩ := mem_parsed.mp hg
    obtain ⟨g', hg', hSame⟩ := parse_apply hJoin hPlan hNames hWell fw hfw
    rwa [Except.ok.inj (hParse.symm.trans hSame)]
  refine (List.perm_ext_iff_of_nodup ?_ acls.nodup_dedup).mpr (fun a => ?_)
  · have hNodup := nodup_parsed (names_apply hJoin hPlan hNames hWell)
    refine hNodup.map_on (fun g hg g' hg' hSame => ?_)
    obtain ⟨a, -, rfl⟩ := List.mem_map.mp ((hMem g).mp hg)
    obtain ⟨a', -, rfl⟩ := List.mem_map.mp ((hMem g').mp hg')
    exact congrArg (toGACL prvdr) hSame
  · rw [List.mem_dedup, List.mem_map]
    constructor
    · rintro ⟨g, hg, rfl⟩
      obtain ⟨a, ha, rfl⟩ := List.mem_map.mp ((hMem g).mp hg)
      exact ha
    · exact fun ha => ⟨toGACL prvdr a, (hMem _).mpr (List.mem_map_of_mem ha), rfl⟩

end Step

theorem planSetACLs_converges (prvdr : Provider) (ord : MapOrder) (fws : List Firewall)
    (acls : List ACL) (hNames : (fws.map Firewall.name).Nodup)
    (hWell : ∀ a ∈ acls, WellFormed a) :
    Converges prvdr fws acls (planSetACLs prvdr ord fws acls) := by
  obtain ⟨res, hJoin, hPlan⟩ := planSetACLs_spec prvdr ord fws acls
  have hParse := parse_apply hJoin hPlan hNames hWell
  have hAfter := names_apply hJoin hPlan hNames hWell
  constructor
  · exact removed_subset hJoin hPlan hNames
  · exact hAfter
  · intro ord' after hPerm
    apply planSetACLs_settled ord' ((hPerm.map _).nodup_iff.mpr hAfter)
    · exact fun fw hfw => hParse fw (hPerm.mem_iff.mp hfw)
    · intro g hg
      obtain ⟨fw, hfw, hg'⟩ := mem_parsed.mp (mem_parsed_apply hJoin hPlan hNames hWell g hg)
      exact mem_parsed.mpr ⟨fw, hPerm.mem_iff.mpr hfw, hg'⟩
  · refine ⟨parsed _, mapM_parseACL (fun fw hfw => ?_),
      parsed_apply_perm hJoin hPlan hNames hWell⟩
    obtain ⟨g, -, hg⟩ := hParse fw hfw
    exact ⟨g, hg⟩

end Planning

/-- A malformed firewall, and one with an ACL under a name of its own. -/
def strayFirewalls : List Firewall :=
  [{ name := "stray" },
    { name := "other", sourceRanges := ["5.6.7.8/32"],
      allowed := [⟨"icmp", []⟩, ⟨"udp", ["1-2"]⟩, ⟨"tcp", ["1-2"]⟩] }]

theorem planSetACLs_converges_stray :
    Converges ⟨"network"⟩ strayFirewalls [⟨"5.6.7.8/32", 1, 2⟩, ⟨"5.6.7.8/32", 1, 2⟩]
      (planSetACLs ⟨"network"⟩ .stored strayFirewalls
        [⟨"5.6.7.8/32", 1, 2⟩, ⟨"5.6.7.8/32", 1, 2⟩]) := by
  apply planSetACLs_converges
  · decide
  · intro a ha
    obtain rfl : a = ⟨"5.6.7.8/32", 1, 2⟩ := by simpa using ha
    exact ⟨⟨⟨5, 6, 7, 8⟩, 32, by decide, by decide +kernel⟩, by decide, by decide⟩

end Kelda.Google
