import Kelda.Lib.Priority
import Kelda.Network.AddressSets

/-! What the ACLs let through. OVN picks a matching ACL of highest priority in
each direction; the packets that pass are those that the connections allow. -/
namespace Kelda.Network

open DB OVN Net

/-- The addresses of a set, by its name. -/
def lookupSet (sets : List AddressSet) (name : String) : List IPv4 :=
  match sets.find? (fun set => set.name = name) with
  | some set => set.addresses.filterMap IPv4.parse
  | none => []

/-- Whether the ACL matches a packet. A text that OVN cannot read matches nothing. -/
def ACLCore.matchesPacket (sets : List AddressSet) (pkt : Packet) (acl : ACLCore) : Bool :=
  match OVN.parse acl.matchText with
  | some e => e.eval (lookupSet sets) pkt
  | none => false

theorem matchesPacket_of_parse {sets : List AddressSet} {pkt : Packet} {matchText : String}
    {e : Expr} (h : OVN.parse matchText = some e) (priority : Int) (dir : Direction)
    (action : Action) :
    ACLCore.matchesPacket sets pkt ⟨priority, dir, matchText, action⟩ =
      e.eval (lookupSet sets) pkt := by
  simp only [ACLCore.matchesPacket, h]

/-- The ACLs that OVN may pick for a packet in one direction. -/
def picked (acls : List ACLCore) (sets : List AddressSet) (dir : Direction) (pkt : Packet) :
    List ACLCore :=
  Priority.best ACLCore.priority
    (acls.filter (fun acl => acl.direction = dir ∧ acl.matchesPacket sets pkt))

/-- Whichever ACLs OVN picks, the packet passes in both directions. -/
def Allowed (acls : List ACLCore) (sets : List AddressSet) (pkt : Packet) : Prop :=
  ∀ dir, picked acls sets dir pkt ≠ [] ∧ ∀ acl ∈ picked acls sets dir pkt, acl.action ≠ .drop

/-- Whichever ACLs OVN picks, the packet is dropped in both directions. -/
def Dropped (acls : List ACLCore) (sets : List AddressSet) (pkt : Packet) : Prop :=
  ∀ dir, picked acls sets dir pkt ≠ [] ∧ ∀ acl ∈ picked acls sets dir pkt, acl.action = .drop

/-- The connections let the packet pass, as a request or as a response. -/
def Permits (dbConns : List Connection) (hostnameToIP : String → Option String) (src dst : IPv4)
    (sport dport : Nat) : Prop :=
  ∃ c ∈ dbConns, ∃ f ∈ c.fromHosts, ∃ t ∈ c.toHosts,
    f ≠ Blueprint.publicInternetLabel ∧ t ≠ Blueprint.publicInternetLabel ∧
    ((hostnameToIP f = some src.text ∧ hostnameToIP t = some dst.text ∧
        c.minPort ≤ dport ∧ dport ≤ c.maxPort) ∨
      (hostnameToIP t = some src.text ∧ hostnameToIP f = some dst.text ∧
        c.minPort ≤ sport ∧ sport ≤ c.maxPort))

instance (dbConns : List Connection) (hostnameToIP : String → Option String) (src dst : IPv4)
    (sport dport : Nat) : Decidable (Permits dbConns hostnameToIP src dst sport dport) :=
  inferInstanceAs (Decidable (∃ c ∈ dbConns, ∃ f ∈ c.fromHosts, ∃ t ∈ c.toHosts, _))

section Matches

variable (sets : String → List IPv4)

/-- The field of a side. -/
def sideField : Side → String
  | .src => "ip4.src"
  | .dst => "ip4.dst"

theorem tokens_sideField (side : Side) : tokens (sideField side) = some [.addrField side] := by
  cases side <;> decide

/-- An endpoint stands for some addresses: a test against it is read by OVN and
is true of exactly these. -/
def StandsFor (endpoint : String) (members : List String) : Prop :=
  ∀ side, ∃ e, ReadsAs (sideField side ++ " == " ++ endpoint) e ∧
    ∀ pkt, e.eval sets pkt = true ↔ ∃ a, pkt.addr? side = some a ∧ a.text ∈ members

theorem standsFor_address (a : IPv4) : StandsFor sets a.text [a.text] := by
  intro side
  have hWord : tokens a.text = some [.const a] := by
    refine tokens_word ?_ ?_ (token_address a)
    · intro hEmpty
      have hDot : '.' ∈ a.text.toList := by simp [IPv4.text_toList]
      simp [hEmpty] at hDot
    · intro c hc
      rcases IPv4.isDigit_of_mem_text hc with h | rfl
      · refine ⟨?_, ?_, ?_⟩ <;> rintro rfl <;> exact absurd h (by decide)
      · decide
  refine ⟨_, ReadsAs.address (tokens_sideField side) hWord (fun rest => rfl), fun pkt => ?_⟩
  simp [Expr.eval, IPv4.text_inj]

theorem standsFor_set (sha256 : String → List UInt8) (sorted members : List String)
    (hSet : ∀ a : IPv4, a ∈ sets (setName sha256 sorted) ↔ a.text ∈ members) :
    StandsFor sets ("$" ++ setName sha256 sorted) members := by
  intro side
  have hWord := tokens_word (by simp) (setName_chars sha256 sorted) (token_set _)
  refine ⟨_, ReadsAs.address (tokens_sideField side) hWord (fun rest => rfl), fun pkt => ?_⟩
  rw [Expr.eval]
  cases hAddr : pkt.addr? side <;> simp [hSet]

theorem fromMatch_eq (ip : String) : fromMatch ip = sideField .src ++ " == " ++ ip := by
  rw [fromMatch, sideField, show "ip4.src" ++ " == " = "ip4.src == " by decide]

theorem toMatch_eq (ip : String) : toMatch ip = sideField .dst ++ " == " ++ ip := by
  rw [toMatch, sideField, show "ip4.dst" ++ " == " = "ip4.dst == " by decide]

theorem orMatch_reads {s s' : String} {e e' : Expr} (h : ReadsAs s e) (h' : ReadsAs s' e') :
    ReadsAs (orMatch [s, s']) (.op .or e e') :=
  h.paren .or [(s', e')] (by simpa using h')

theorem andMatch_reads {s s' s'' : String} {e e' e'' : Expr} (h : ReadsAs s e)
    (h' : ReadsAs s' e') (h'' : ReadsAs s'' e'') :
    ReadsAs (andMatch [s, s', s'']) (.op .and (.op .and e e') e'') :=
  h.paren .and [(s', e'), (s'', e'')] (by simp [h', h''])

/-- The name of a side in a port field. -/
def sideText : Side → String
  | .src => "src"
  | .dst => "dst"

/-- One of the two protocols has its port in the range. -/
theorem portConstraint_reads (minPort maxPort : Int) (side : Side) :
    ∃ e, ReadsAs (portConstraint minPort maxPort (sideText side)) e ∧
      ∀ pkt, e.eval sets pkt = true ↔ ∃ proto p, pkt.port? proto side = some p ∧
        minPort ≤ p ∧ p ≤ maxPort := by
  have hUDP : tokens ("udp" ++ "." ++ sideText side) = some [.portField .udp side] := by
    cases side <;> decide
  have hTCP : tokens ("tcp" ++ "." ++ sideText side) = some [.portField .tcp side] := by
    cases side <;> decide
  have hText : portConstraint minPort maxPort (sideText side) =
      orMatch [portRange "udp" minPort maxPort (sideText side),
        portRange "tcp" minPort maxPort (sideText side)] := by
    simp [portConstraint, orMatch, String.append_assoc]
  refine ⟨_, hText ▸ orMatch_reads (ReadsAs.port minPort maxPort hUDP)
    (ReadsAs.port minPort maxPort hTCP), fun pkt => ?_⟩
  have hRange : ∀ proto, (Expr.port minPort proto side maxPort).eval sets pkt = true ↔
      ∃ p, pkt.port? proto side = some p ∧ minPort ≤ p ∧ p ≤ maxPort := by
    intro proto
    rw [Expr.eval]
    cases hPort : pkt.port? proto side <;> simp
  rw [Expr.eval, Bool.or_eq_true, hRange, hRange]
  constructor
  · rintro (h | h)
    · exact ⟨.udp, h⟩
    · exact ⟨.tcp, h⟩
  · rintro ⟨_ | _, h⟩
    · exact Or.inr h
    · exact Or.inl h

/-- The packet goes from one list of addresses to another, with its port at one
side in the range. -/
def Flows (pkt : Packet) (froms tos : List String) (side : Side) (minPort maxPort : Int) : Prop :=
  (∃ a, pkt.addr? .src = some a ∧ a.text ∈ froms) ∧
    (∃ a, pkt.addr? .dst = some a ∧ a.text ∈ tos) ∧
      ∃ proto p, pkt.port? proto side = some p ∧ minPort ≤ p ∧ p ≤ maxPort

theorem getMatchString_reads (conn : Conn) {froms tos : List String}
    (hFrom : StandsFor sets conn.fromName froms) (hTo : StandsFor sets conn.toName tos) :
    ∃ e, ReadsAs (getMatchString conn) e ∧ ∀ pkt, e.eval sets pkt = true ↔
      Flows pkt froms tos .dst conn.minPort conn.maxPort ∨
        Flows pkt tos froms .src conn.minPort conn.maxPort := by
  obtain ⟨e₁, h₁, hEval₁⟩ := hFrom .src
  obtain ⟨e₂, h₂, hEval₂⟩ := hTo .dst
  obtain ⟨e₃, h₃, hEval₃⟩ := portConstraint_reads sets conn.minPort conn.maxPort .dst
  obtain ⟨e₄, h₄, hEval₄⟩ := hTo .src
  obtain ⟨e₅, h₅, hEval₅⟩ := hFrom .dst
  obtain ⟨e₆, h₆, hEval₆⟩ := portConstraint_reads sets conn.minPort conn.maxPort .src
  rw [← fromMatch_eq] at h₁ h₄
  rw [← toMatch_eq] at h₂ h₅
  refine ⟨_, orMatch_reads (andMatch_reads h₁ h₂ h₃) (andMatch_reads h₄ h₅ h₆), fun pkt => ?_⟩
  simp only [Expr.eval, Bool.or_eq_true, Bool.and_eq_true, hEval₁, hEval₂, hEval₃, hEval₄, hEval₅,
    hEval₆, Flows, and_assoc]

theorem icmpMatch_reads (conn : Conn) {froms tos : List String}
    (hFrom : StandsFor sets conn.fromName froms) (hTo : StandsFor sets conn.toName tos) :
    ∃ e, ReadsAs (icmpMatch conn) e ∧
      ∀ pkt, e.eval sets pkt = true → pkt.payload? = some .icmp := by
  obtain ⟨e₁, h₁, -⟩ := hFrom .src
  obtain ⟨e₂, h₂, -⟩ := hTo .dst
  rw [← fromMatch_eq] at h₁
  rw [← toMatch_eq] at h₂
  have hICMP : ReadsAs "icmp" .icmp :=
    ⟨[.icmp], by decide, Reads.atom (by simp) (by simp) (fun rest => rfl)⟩
  refine ⟨_, andMatch_reads h₁ h₂ hICMP, fun pkt hEval => ?_⟩
  simp only [Expr.eval, Bool.and_eq_true] at hEval
  have hPayload := hEval.2
  split at hPayload
  · assumption
  · cases hPayload

end Matches

section ACLs

theorem mem_directedACLs {priority : Int} {action : Action} {matchText : String} {acl : ACLCore} :
    acl ∈ directedACLs priority action matchText ↔
      ∃ dir, acl = ⟨priority, dir, matchText, action⟩ := by
  simp only [directedACLs, List.mem_map, List.mem_cons, List.not_mem_nil, or_false]
  constructor
  · rintro ⟨dir, -, rfl⟩
    exact ⟨dir, rfl⟩
  · rintro ⟨dir, rfl⟩
    exact ⟨dir, by cases dir <;> simp, rfl⟩

/-- The ACLs of a connection. -/
def FromConn (acl : ACLCore) (conn : Conn) : Prop :=
  ∃ dir, acl = ⟨1, dir, getMatchString conn, .allow⟩ ∨
    acl = ⟨1, dir, icmpMatch conn, .allowRelated⟩

/-- Every ICMP match in the set has its ACLs in the list. -/
theorem mem_foldl_addACLs (conns : List Conn) (acc : List ACLCore × Finset String)
    (hAcc : ∀ m ∈ acc.2, ∀ dir, ⟨1, dir, m, .allowRelated⟩ ∈ acc.1) (acl : ACLCore) :
    acl ∈ (conns.foldl addACLs acc).1 ↔ acl ∈ acc.1 ∨ ∃ conn ∈ conns, FromConn acl conn := by
  induction conns generalizing acc with
  | nil => simp
  | cons conn conns ih =>
      obtain ⟨expACLs, icmpMatches⟩ := acc
      have hStep : (∀ m ∈ (addACLs (expACLs, icmpMatches) conn).2, ∀ dir,
            ⟨1, dir, m, .allowRelated⟩ ∈ (addACLs (expACLs, icmpMatches) conn).1) ∧
          (acl ∈ (addACLs (expACLs, icmpMatches) conn).1 ↔ acl ∈ expACLs ∨ FromConn acl conn) := by
        rw [addACLs]
        split_ifs with hKnown
        · refine ⟨fun m hm dir => List.mem_append_left _ (hAcc m hm dir), ?_⟩
          rw [List.mem_append, mem_directedACLs]
          constructor
          · rintro (h | ⟨dir, h⟩)
            · exact Or.inl h
            · exact Or.inr ⟨dir, Or.inl h⟩
          · rintro (h | ⟨dir, h | rfl⟩)
            · exact Or.inl h
            · exact Or.inr ⟨dir, h⟩
            · exact Or.inl (hAcc _ hKnown dir)
        · constructor
          · intro m hm dir
            rcases Finset.mem_insert.mp hm with rfl | hm
            · exact List.mem_append_right _ (mem_directedACLs.mpr ⟨dir, rfl⟩)
            · exact List.mem_append_left _ (List.mem_append_left _ (hAcc m hm dir))
          · rw [List.mem_append, List.mem_append, mem_directedACLs, mem_directedACLs, or_assoc,
              ← exists_or]
            rfl
      rw [List.foldl_cons, ih _ hStep.1, hStep.2, or_assoc]
      simp [or_and_right, exists_or]

theorem mem_expectedACLs {conns : List Conn} {acl : ACLCore} :
    acl ∈ expectedACLs conns ↔
      (∃ dir, acl = ⟨0, dir, "ip", .drop⟩) ∨ ∃ conn ∈ conns, FromConn acl conn := by
  rw [expectedACLs, mem_foldl_addACLs _ _ (by simp), mem_directedACLs]

end ACLs

section Policy

variable {sha256 : String → List UInt8} {ord : MapOrder} {dbConns : List Connection}
  {hostnameToIP : String → Option String}

theorem resolveConnections_fst :
    (resolveConnections sha256 ord dbConns hostnameToIP).1 =
      (dbConns.filter (resolvable hostnameToIP)).map (connOf sha256 hostnameToIP) := by
  have h := (foldl_resolveConnection sha256 hostnameToIP dbConns [] ∅ []
    ⟨by simp, by simp⟩).1
  rw [List.nil_append] at h
  exact h

variable (sha256 ord dbConns hostnameToIP) in
/-- The returned sets are the entries of the map, each once. -/
theorem resolveConnections_snd :
    ∃ addressSets : AList (fun _ : String => List String),
      SetsFor sha256 (endpointsOf hostnameToIP dbConns) addressSets ∧
        (resolveConnections sha256 ord dbConns hostnameToIP).2 =
          (ord.walk addressSets.entries).map (fun e => ⟨e.1, e.2⟩) := by
  have h := (foldl_resolveConnection sha256 hostnameToIP dbConns [] ∅ []
    ⟨by simp, by simp⟩).2
  rw [List.nil_append] at h
  exact ⟨_, h, rfl⟩

theorem lookupSet_of_lookup {addressSets : AList (fun _ : String => List String)} {name : String}
    {addresses : List String} (h : addressSets.lookup name = some addresses) :
    lookupSet ((ord.walk addressSets.entries).map (fun e => ⟨e.1, e.2⟩)) name =
      addresses.filterMap IPv4.parse := by
  have hMem : (⟨name, addresses⟩ : AddressSet) ∈
      (ord.walk addressSets.entries).map (fun e => (⟨e.1, e.2⟩ : AddressSet)) :=
    List.mem_map_of_mem (f := fun e : Sigma (fun _ : String => List String) =>
      (⟨e.1, e.2⟩ : AddressSet)) ((ord.mem_walk).mpr (AList.mem_lookup_iff.mp h))
  rw [lookupSet]
  cases hFind : ((ord.walk addressSets.entries).map
      (fun e => (⟨e.1, e.2⟩ : AddressSet))).find? (fun set => set.name = name) with
  | none => simpa using List.find?_eq_none.mp hFind _ hMem
  | some set =>
      obtain ⟨e, he, rfl⟩ := List.mem_map.mp (List.mem_of_find?_eq_some hFind)
      have hName : e.1 = name := by simpa using List.find?_some hFind
      have hLookup : addressSets.lookup e.1 = some e.2 :=
        AList.mem_lookup_iff.mpr ((ord.mem_walk).mp he)
      rw [hName, h] at hLookup
      rw [Option.some.inj hLookup]

theorem mem_filterMap_parse (hHosts : KeldaHosts hostnameToIP) {hosts : List String} {a : IPv4} :
    a ∈ (sortStrings (resolveSide hostnameToIP hosts)).filterMap IPv4.parse ↔
      a.text ∈ resolveSide hostnameToIP hosts := by
  have hSorted : ∀ ip, ip ∈ sortStrings (resolveSide hostnameToIP hosts) ↔
      ip ∈ resolveSide hostnameToIP hosts := fun ip => (List.perm_insertionSort _ _).mem_iff
  rw [List.mem_filterMap]
  constructor
  · rintro ⟨ip, hIP, hParse⟩
    rw [hSorted] at hIP
    obtain ⟨h, -, -, hLookup⟩ := mem_resolveSide.mp hIP
    obtain ⟨b, -, rfl⟩ := hHosts h ip hLookup
    rw [IPv4.parse_text] at hParse
    rwa [← Option.some.inj hParse]
  · exact fun hText => ⟨a.text, (hSorted _).mpr hText, IPv4.parse_text a⟩

/-- Every endpoint of the connections stands for the addresses of its side. -/
theorem standsFor_endpoint (hHosts : KeldaHosts hostnameToIP)
    (hSha : Set.InjOn sha256 (hashedTexts hostnameToIP dbConns)) {hosts : List String}
    (hMem : resolveSide hostnameToIP hosts ∈ endpointsOf hostnameToIP dbConns) :
    StandsFor (lookupSet (resolveConnections sha256 ord dbConns hostnameToIP).2)
      (endpointText sha256 (resolveSide hostnameToIP hosts)) (resolveSide hostnameToIP hosts) := by
  obtain ⟨addressSets, hSets, hResult⟩ := resolveConnections_snd sha256 ord dbConns hostnameToIP
  by_cases hOne : (resolveSide hostnameToIP hosts).length = 1
  · obtain ⟨member, hMember⟩ := List.length_eq_one_iff.mp hOne
    have hSelf : member ∈ resolveSide hostnameToIP hosts := by simp [hMember]
    obtain ⟨h, -, -, hLookup⟩ := mem_resolveSide.mp hSelf
    obtain ⟨a, -, rfl⟩ := hHosts h member hLookup
    rw [hMember]
    exact standsFor_address _ a
  · rw [endpointText, endpointName_of_length_ne_one sha256 hOne]
    refine standsFor_set _ sha256 _ _ (fun a => ?_)
    rw [hResult, lookupSet_of_lookup (hSets.lookup hHosts hSha hMem hOne),
      mem_filterMap_parse hHosts]

variable (ord) in
/-- What OVN reads in the ACLs of a connection. -/
theorem fromConn_reads (hHosts : KeldaHosts hostnameToIP)
    (hSha : Set.InjOn sha256 (hashedTexts hostnameToIP dbConns)) {c : Connection}
    (hc : c ∈ dbConns.filter (resolvable hostnameToIP)) :
    let sets := lookupSet (resolveConnections sha256 ord dbConns hostnameToIP).2
    let froms := resolveSide hostnameToIP c.fromHosts
    let tos := resolveSide hostnameToIP c.toHosts
    (∃ e, OVN.parse (getMatchString (connOf sha256 hostnameToIP c)) = some e ∧
      ∀ pkt, e.eval sets pkt = true ↔ Flows pkt froms tos .dst c.minPort c.maxPort ∨
        Flows pkt tos froms .src c.minPort c.maxPort) ∧
    (∃ e, OVN.parse (icmpMatch (connOf sha256 hostnameToIP c)) = some e ∧
      ∀ pkt, e.eval sets pkt = true → pkt.payload? = some .icmp) := by
  intro sets froms tos
  have hFrom : StandsFor sets (endpointText sha256 froms) froms :=
    standsFor_endpoint hHosts hSha (List.mem_flatMap.mpr ⟨c, hc, by simp⟩)
  have hTo : StandsFor sets (endpointText sha256 tos) tos :=
    standsFor_endpoint hHosts hSha (List.mem_flatMap.mpr ⟨c, hc, by simp⟩)
  obtain ⟨e, hReads, hEval⟩ :=
    getMatchString_reads sets (connOf sha256 hostnameToIP c) hFrom hTo
  obtain ⟨e', hReads', hEval'⟩ :=
    icmpMatch_reads sets (connOf sha256 hostnameToIP c) hFrom hTo
  exact ⟨⟨e, hReads.parse, hEval⟩, e', hReads'.parse, hEval'⟩

theorem flows_iff {froms tos : List String} {src dst : IPv4} {proto : Proto}
    {sport dport : Nat} {side : Side} {minPort maxPort : Int} :
    Flows (.ip4 src dst (.ports proto sport dport)) froms tos side minPort maxPort ↔
      src.text ∈ froms ∧ dst.text ∈ tos ∧ minPort ≤ side.port sport dport ∧
        side.port sport dport ≤ maxPort := by
  simp only [Flows, Packet.addr?, Packet.port?, Packet.payload?, Option.some.injEq,
    exists_eq_left', Option.ite_none_right_eq_some]
  simp

/-- A connection whose sides are known lets the packet flow. -/
def Passes (dbConns : List Connection) (hostnameToIP : String → Option String) (pkt : Packet) :
    Prop :=
  ∃ c ∈ dbConns.filter (resolvable hostnameToIP),
    Flows pkt (resolveSide hostnameToIP c.fromHosts) (resolveSide hostnameToIP c.toHosts) .dst
        c.minPort c.maxPort ∨
      Flows pkt (resolveSide hostnameToIP c.toHosts) (resolveSide hostnameToIP c.fromHosts) .src
        c.minPort c.maxPort

theorem passes_iff {src dst : IPv4} {proto : Proto} {sport dport : Nat} :
    Passes dbConns hostnameToIP (.ip4 src dst (.ports proto sport dport)) ↔
      Permits dbConns hostnameToIP src dst sport dport := by
  simp only [Passes, flows_iff, mem_resolveSide, Side.port]
  constructor
  · rintro ⟨c, hc, ⟨⟨f, hf, hfp, hF⟩, ⟨t, ht, htp, hT⟩, hPorts⟩ |
      ⟨⟨t, ht, htp, hT⟩, ⟨f, hf, hfp, hF⟩, hPorts⟩⟩
    · exact ⟨c, List.mem_of_mem_filter hc, f, hf, t, ht, hfp, htp, Or.inl ⟨hF, hT, hPorts⟩⟩
    · exact ⟨c, List.mem_of_mem_filter hc, f, hf, t, ht, hfp, htp, Or.inr ⟨hT, hF, hPorts⟩⟩
  · rintro ⟨c, hc, f, hf, t, ht, hfp, htp, hFlow⟩
    have hResolvable : ∀ a b : IPv4, hostnameToIP f = some a.text → hostnameToIP t = some b.text →
        c ∈ dbConns.filter (resolvable hostnameToIP) := by
      intro a b ha hb
      refine List.mem_filter.mpr ⟨hc, ?_⟩
      have hFrom := List.ne_nil_of_mem (mem_resolveSide.mpr ⟨f, hf, hfp, ha⟩)
      have hTo := List.ne_nil_of_mem (mem_resolveSide.mpr ⟨t, ht, htp, hb⟩)
      simp [resolvable, hFrom, hTo]
    rcases hFlow with ⟨hF, hT, hPorts⟩ | ⟨hT, hF, hPorts⟩
    · exact ⟨c, hResolvable src dst hF hT, Or.inl ⟨⟨f, hf, hfp, hF⟩, ⟨t, ht, htp, hT⟩, hPorts⟩⟩
    · exact ⟨c, hResolvable dst src hF hT, Or.inr ⟨⟨t, ht, htp, hT⟩, ⟨f, hf, hfp, hF⟩, hPorts⟩⟩

/-- Only packets with ports flow. -/
theorem Flows.ports {pkt : Packet} {froms tos : List String} {side : Side} {minPort maxPort : Int}
    (h : Flows pkt froms tos side minPort maxPort) :
    ∃ src dst proto sport dport, pkt = .ip4 src dst (.ports proto sport dport) := by
  obtain ⟨⟨a, hSrc, -⟩, -, proto, p, hPort, -⟩ := h
  match pkt, hSrc, hPort with
  | .ip4 src dst (.ports proto' sport dport), _, _ => exact ⟨src, dst, proto', sport, dport, rfl⟩
  | .ip4 _ _ .icmp, _, hPort => simp [Packet.port?, Packet.payload?] at hPort
  | .ip4 _ _ .other, _, hPort => simp [Packet.port?, Packet.payload?] at hPort

theorem Passes.ports {pkt : Packet} (h : Passes dbConns hostnameToIP pkt) :
    ∃ src dst proto sport dport, pkt = .ip4 src dst (.ports proto sport dport) := by
  obtain ⟨c, -, hFlows | hFlows⟩ := h
  · exact hFlows.ports
  · exact hFlows.ports

/-- The ACLs that match a packet which is not ICMP. -/
theorem acl_cases (hHosts : KeldaHosts hostnameToIP)
    (hSha : Set.InjOn sha256 (hashedTexts hostnameToIP dbConns)) {pkt : Packet}
    (hICMP : pkt.payload? ≠ some .icmp) {acl : ACLCore}
    (hMem : acl ∈ expectedACLs (resolveConnections sha256 ord dbConns hostnameToIP).1)
    (hMatch : acl.matchesPacket (resolveConnections sha256 ord dbConns hostnameToIP).2 pkt = true) :
    (acl.priority = 0 ∧ acl.action = .drop) ∨
      (acl.priority = 1 ∧ acl.action = .allow ∧ Passes dbConns hostnameToIP pkt) := by
  rw [resolveConnections_fst, mem_expectedACLs] at hMem
  rcases hMem with ⟨dir, rfl⟩ | ⟨conn, hConn, dir, hACL⟩
  · exact Or.inl ⟨rfl, rfl⟩
  · obtain ⟨c, hc, rfl⟩ := List.mem_map.mp hConn
    obtain ⟨⟨e, hParse, hEval⟩, ⟨e', hParse', hEval'⟩⟩ := fromConn_reads ord hHosts hSha hc
    rcases hACL with rfl | rfl
    · rw [matchesPacket_of_parse hParse] at hMatch
      exact Or.inr ⟨rfl, rfl, c, hc, (hEval pkt).mp hMatch⟩
    · rw [matchesPacket_of_parse hParse'] at hMatch
      exact (hICMP (hEval' pkt hMatch)).elim

variable (ord) in
/-- A packet that flows matches an ACL that lets it pass. -/
theorem exists_allow (hHosts : KeldaHosts hostnameToIP)
    (hSha : Set.InjOn sha256 (hashedTexts hostnameToIP dbConns)) {pkt : Packet}
    (h : Passes dbConns hostnameToIP pkt) (dir : Direction) :
    ∃ acl ∈ expectedACLs (resolveConnections sha256 ord dbConns hostnameToIP).1,
      acl.matchesPacket (resolveConnections sha256 ord dbConns hostnameToIP).2 pkt = true ∧
        acl.direction = dir ∧ acl.priority = 1 := by
  obtain ⟨c, hc, hFlows⟩ := h
  obtain ⟨⟨e, hParse, hEval⟩, -⟩ := fromConn_reads ord hHosts hSha hc
  refine ⟨⟨1, dir, getMatchString (connOf sha256 hostnameToIP c), .allow⟩, ?_, ?_, rfl, rfl⟩
  · rw [resolveConnections_fst, mem_expectedACLs]
    exact Or.inr ⟨_, List.mem_map_of_mem hc, dir, Or.inl rfl⟩
  · rw [matchesPacket_of_parse hParse]
    exact (hEval pkt).mpr hFlows

/-- Every IP packet matches an ACL that drops it. -/
theorem exists_drop (conns : List Conn) (sets : List AddressSet) {pkt : Packet}
    (hIP : pkt.payload?.isSome) (dir : Direction) :
    ∃ acl ∈ expectedACLs conns, acl.matchesPacket sets pkt = true ∧ acl.direction = dir ∧
      acl.priority = 0 := by
  have hParse : OVN.parse "ip" = some .ip := by decide
  refine ⟨⟨0, dir, "ip", .drop⟩, mem_expectedACLs.mpr (Or.inl ⟨dir, rfl⟩), ?_, rfl, rfl⟩
  rw [matchesPacket_of_parse hParse]
  exact hIP

theorem mem_picked {acls : List ACLCore} {sets : List AddressSet} {dir : Direction} {pkt : Packet}
    {acl : ACLCore} :
    acl ∈ picked acls sets dir pkt ↔
      (acl ∈ acls ∧ acl.direction = dir ∧ acl.matchesPacket sets pkt = true) ∧
        ∀ other ∈ acls, other.direction = dir → other.matchesPacket sets pkt = true →
          other.priority ≤ acl.priority := by
  simp only [picked, Priority.mem_best, List.mem_filter, decide_eq_true_eq, and_imp]

theorem allowed_of_passes (hHosts : KeldaHosts hostnameToIP)
    (hSha : Set.InjOn sha256 (hashedTexts hostnameToIP dbConns)) {pkt : Packet}
    (hICMP : pkt.payload? ≠ some .icmp) (h : Passes dbConns hostnameToIP pkt) :
    Allowed (expectedACLs (resolveConnections sha256 ord dbConns hostnameToIP).1)
      (resolveConnections sha256 ord dbConns hostnameToIP).2 pkt := by
  intro dir
  obtain ⟨allow, hMem, hMatch, hDir, hPriority⟩ := exists_allow ord hHosts hSha h dir
  constructor
  · refine List.ne_nil_of_mem (mem_picked.mpr ⟨⟨hMem, hDir, hMatch⟩, fun other hOther _ hm => ?_⟩)
    rcases acl_cases hHosts hSha hICMP hOther hm with ⟨hZero, -⟩ | ⟨hOne, -⟩ <;> omega
  · intro acl hPicked hDrop
    obtain ⟨⟨hACL, -, hm⟩, hBest⟩ := mem_picked.mp hPicked
    have hLe := hBest allow hMem hDir hMatch
    rcases acl_cases hHosts hSha hICMP hACL hm with ⟨hZero, -⟩ | ⟨-, hAllow, -⟩
    · omega
    · rw [hAllow] at hDrop
      cases hDrop

theorem dropped_of_not_passes (hHosts : KeldaHosts hostnameToIP)
    (hSha : Set.InjOn sha256 (hashedTexts hostnameToIP dbConns)) {pkt : Packet}
    (hIP : pkt.payload?.isSome) (hICMP : pkt.payload? ≠ some .icmp)
    (h : ¬Passes dbConns hostnameToIP pkt) :
    Dropped (expectedACLs (resolveConnections sha256 ord dbConns hostnameToIP).1)
      (resolveConnections sha256 ord dbConns hostnameToIP).2 pkt := by
  have hCases : ∀ acl ∈ expectedACLs (resolveConnections sha256 ord dbConns hostnameToIP).1,
      acl.matchesPacket (resolveConnections sha256 ord dbConns hostnameToIP).2 pkt = true →
        acl.priority = 0 ∧ acl.action = .drop := by
    intro acl hACL hm
    exact (acl_cases hHosts hSha hICMP hACL hm).resolve_right (fun hPass => h hPass.2.2)
  intro dir
  obtain ⟨drop, hMem, hMatch, hDir, hPriority⟩ := exists_drop _ _ hIP dir
  constructor
  · refine List.ne_nil_of_mem (mem_picked.mpr ⟨⟨hMem, hDir, hMatch⟩, fun other hOther _ hm => ?_⟩)
    rw [(hCases other hOther hm).1, hPriority]
  · intro acl hPicked
    obtain ⟨⟨hACL, -, hm⟩, -⟩ := mem_picked.mp hPicked
    exact (hCases acl hACL hm).2

variable (sha256 ord dbConns) in
/-- The sets are the entries of a map; the addresses of each come from hosts
that are pairwise distinct. -/
theorem nodup_addressSets (hInj : InjectiveHosts hostnameToIP) :
    ((resolveConnections sha256 ord dbConns hostnameToIP).2.map AddressSet.name).Nodup ∧
      ∀ set ∈ (resolveConnections sha256 ord dbConns hostnameToIP).2, set.addresses.Nodup := by
  obtain ⟨addressSets, hSets, hResult⟩ := resolveConnections_snd sha256 ord dbConns hostnameToIP
  rw [hResult]
  constructor
  · rw [List.map_map]
    exact ((ord.perm _).map Sigma.fst).nodup_iff.mpr addressSets.nodupKeys
  · intro set hSet
    obtain ⟨e, he, rfl⟩ := List.mem_map.mp hSet
    have hLookup := AList.mem_lookup_iff.mpr ((ord.mem_walk).mp he)
    obtain ⟨members, hMem, hAddresses, -⟩ := hSets.entry e.1 e.2 hLookup
    obtain ⟨c, -, hSide⟩ := List.mem_flatMap.mp hMem
    have hNodup : members.Nodup := by
      simp only [List.mem_cons, List.not_mem_nil, or_false] at hSide
      rcases hSide with rfl | rfl <;> exact nodup_resolveSide hInj _
    show e.2.Nodup
    rw [hAddresses]
    exact (List.perm_insertionSort _ _).nodup_iff.mpr hNodup

variable (sha256 ord dbConns) in
/-- The ACLs let exactly the packets of the connections pass. -/
theorem acls_preserve_policy (hInj : InjectiveHosts hostnameToIP)
    (hHosts : KeldaHosts hostnameToIP)
    (hSha : Set.InjOn sha256 (hashedTexts hostnameToIP dbConns)) :
    let (conns, sets) := resolveConnections sha256 ord dbConns hostnameToIP
    (∀ src dst proto sport dport,
      Allowed (expectedACLs conns) sets (.ip4 src dst (.ports proto sport dport)) ↔
        Permits dbConns hostnameToIP src dst sport dport) ∧
    (∀ pkt : Packet, pkt.payload?.isSome → pkt.payload? ≠ some .icmp →
      (∀ src dst proto sport dport, pkt = .ip4 src dst (.ports proto sport dport) →
        ¬Permits dbConns hostnameToIP src dst sport dport) →
      Dropped (expectedACLs conns) sets pkt) ∧
    (sets.map AddressSet.name).Nodup ∧ ∀ set ∈ sets, set.addresses.Nodup := by
  have hDrop : ∀ pkt : Packet, pkt.payload?.isSome → pkt.payload? ≠ some .icmp →
      (∀ src dst proto sport dport, pkt = .ip4 src dst (.ports proto sport dport) →
        ¬Permits dbConns hostnameToIP src dst sport dport) →
      Dropped (expectedACLs (resolveConnections sha256 ord dbConns hostnameToIP).1)
        (resolveConnections sha256 ord dbConns hostnameToIP).2 pkt := by
    intro pkt hIP hICMP hNot
    refine dropped_of_not_passes hHosts hSha hIP hICMP (fun hPasses => ?_)
    obtain ⟨src, dst, proto, sport, dport, rfl⟩ := hPasses.ports
    exact hNot src dst proto sport dport rfl (passes_iff.mp hPasses)
  refine ⟨fun src dst proto sport dport => ⟨fun hAllowed => ?_, fun h => ?_⟩, hDrop,
    nodup_addressSets sha256 ord dbConns hInj⟩
  · -- a packet that no connection lets pass is dropped, so it is not allowed
    by_contra hNot
    have hDropped := hDrop (.ip4 src dst (.ports proto sport dport)) rfl (by simp [Packet.payload?])
      (by rintro _ _ _ _ _ ⟨⟩; exact hNot) .fromLport
    obtain ⟨acl, hACL⟩ := List.exists_mem_of_ne_nil _ hDropped.1
    exact (hAllowed .fromLport).2 acl hACL (hDropped.2 acl hACL)
  · exact allowed_of_passes hHosts hSha (by simp [Packet.payload?]) (passes_iff.mpr h)

end Policy

/-- Two web servers use a database; one of them is open to the public. -/
def sampleConnections : List Connection :=
  [{ id := 1, fromHosts := ["web2", "web1", "web2"], toHosts := ["db"], minPort := 5432,
     maxPort := 5433 },
    { id := 2, fromHosts := ["public"], toHosts := ["web1"], minPort := 80, maxPort := 80 }]

def sampleHosts : String → Option String
  | "web1" => some "10.1.0.2"
  | "web2" => some "10.1.0.3"
  | "db" => some "10.1.0.4"
  | _ => none

/-- SHA-256 at the two texts of the sample's endpoints. -/
def sampleSHA256 : String → List UInt8
  | "10.1.0.210.1.0.3" =>
    [48, 92, 25, 24, 129, 78, 105, 239, 145, 159, 176, 150, 102, 72, 117, 14, 78, 103, 122, 147, 171,
      235, 235, 217, 28, 207, 38, 147, 205, 28, 197, 217]
  | "10.1.0.4" =>
    [222, 93, 155, 210, 145, 202, 186, 74, 184, 221, 163, 62, 136, 69, 144, 211, 124, 20, 255, 211,
      230, 106, 64, 131, 29, 34, 160, 103, 81, 64, 202, 13]
  | _ => []

theorem sampleHosts_cases {host ip : String} (h : sampleHosts host = some ip) :
    (host = "web1" ∧ ip = IPv4.text ⟨10, 1, 0, 2⟩) ∨ (host = "web2" ∧ ip = IPv4.text ⟨10, 1, 0, 3⟩) ∨
      (host = "db" ∧ ip = IPv4.text ⟨10, 1, 0, 4⟩) := by
  unfold sampleHosts at h
  split at h
  · exact Or.inl ⟨rfl, (Option.some.inj h).symm.trans (by decide)⟩
  · exact Or.inr (Or.inl ⟨rfl, (Option.some.inj h).symm.trans (by decide)⟩)
  · exact Or.inr (Or.inr ⟨rfl, (Option.some.inj h).symm.trans (by decide)⟩)
  · cases h

theorem sampleHosts_injective : InjectiveHosts sampleHosts := by
  intro h h' ip hh hh'
  rcases sampleHosts_cases hh with ⟨rfl, rfl⟩ | ⟨rfl, rfl⟩ | ⟨rfl, rfl⟩ <;>
    rcases sampleHosts_cases hh' with ⟨rfl, hIP⟩ | ⟨rfl, hIP⟩ | ⟨rfl, hIP⟩ <;>
      first | rfl | exact absurd (IPv4.text_inj.mp hIP) (by decide)

theorem sampleHosts_kelda : KeldaHosts sampleHosts := by
  intro h ip hh
  rcases sampleHosts_cases hh with ⟨-, rfl⟩ | ⟨-, rfl⟩ | ⟨-, rfl⟩ <;> exact ⟨_, rfl, rfl⟩

/-- The second web server asks the database; the answer of the database passes,
and a request of the database does not. -/
theorem acls_preserve_policy_sample :
    let (conns, sets) :=
      resolveConnections sampleSHA256 MapOrder.stored sampleConnections sampleHosts
    Allowed (expectedACLs conns) sets
      (.ip4 ⟨10, 1, 0, 3⟩ ⟨10, 1, 0, 4⟩ (.ports .tcp 40000 5433)) ∧
    Allowed (expectedACLs conns) sets
      (.ip4 ⟨10, 1, 0, 4⟩ ⟨10, 1, 0, 3⟩ (.ports .tcp 5433 40000)) ∧
    Dropped (expectedACLs conns) sets
      (.ip4 ⟨10, 1, 0, 4⟩ ⟨10, 1, 0, 3⟩ (.ports .tcp 40000 5433)) := by
  have hTexts : ∀ text ∈ hashedTexts sampleHosts sampleConnections,
      text = "10.1.0.210.1.0.3" ∨ text = "10.1.0.4" := by
    have hEndpoints : endpointsOf sampleHosts sampleConnections =
        [["10.1.0.3", "10.1.0.2"], ["10.1.0.4"]] := by decide +kernel
    rintro _ ⟨members, hMem, rfl⟩
    simp only [hEndpoints, List.mem_cons, List.not_mem_nil, or_false] at hMem
    rcases hMem with rfl | rfl
    · exact Or.inl (by decide +kernel)
    · exact Or.inr (by decide +kernel)
  have hSha : Set.InjOn sampleSHA256 (hashedTexts sampleHosts sampleConnections) := by
    intro text hText text' hText' hEq
    rcases hTexts text hText with rfl | rfl <;> rcases hTexts text' hText' with rfl | rfl <;>
      first | rfl | exact absurd hEq (by decide)
  obtain ⟨hAllowed, hDropped, -⟩ :=
    acls_preserve_policy sampleSHA256 MapOrder.stored sampleConnections sampleHosts_injective
      sampleHosts_kelda hSha
  refine ⟨(hAllowed _ _ _ _ _).mpr (by decide +kernel), (hAllowed _ _ _ _ _).mpr (by decide +kernel),
    hDropped _ rfl (by simp [Packet.payload?]) ?_⟩
  rintro _ _ _ _ _ ⟨⟩
  decide +kernel

end Kelda.Network
