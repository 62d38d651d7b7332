import Kelda.Network.ACL

/-! Address sets and their names. The name of a set hashes the addresses one
after another without a separator; for addresses of 10.0.0.0/8 that text still
determines them. -/
namespace Kelda.Network

open DB

section Sides

/-- The strings seen so far and the set of them agree. -/
theorem foldl_addUnique (strs : List String) (acc : List String × Finset String)
    (hAcc : ∀ s, s ∈ acc.2 ↔ s ∈ acc.1) (hNodup : acc.1.Nodup) :
    (∀ s, s ∈ (strs.foldl addUnique acc).1 ↔ s ∈ acc.1 ∨ s ∈ strs) ∧
      (strs.foldl addUnique acc).1.Nodup := by
  induction strs generalizing acc with
  | nil => exact ⟨by simp, hNodup⟩
  | cons str strs ih =>
      obtain ⟨uniqueStrs, strSet⟩ := acc
      rw [List.foldl_cons, addUnique]
      split_ifs with hSeen
      · obtain ⟨hMem, hRest⟩ := ih _ hAcc hNodup
        refine ⟨fun s => ?_, hRest⟩
        have hFound : str ∈ uniqueStrs := (hAcc str).mp hSeen
        rw [hMem, List.mem_cons]
        constructor
        · exact Or.imp_right Or.inr
        · rintro (h | rfl | h)
          · exact Or.inl h
          · exact Or.inl hFound
          · exact Or.inr h
      · have hFresh : str ∉ uniqueStrs := fun h => hSeen ((hAcc str).mpr h)
        obtain ⟨hMem, hRest⟩ := ih (uniqueStrs ++ [str], insert str strSet)
          (fun s => by simp [hAcc, or_comm]) (by simpa [List.nodup_append', hFresh] using hNodup)
        refine ⟨fun s => ?_, hRest⟩
        rw [hMem]
        simp [or_assoc]

@[simp] theorem mem_uniqueStrings {strs : List String} {s : String} :
    s ∈ uniqueStrings strs ↔ s ∈ strs := by
  rw [uniqueStrings, (foldl_addUnique strs ([], ∅) (by simp) List.nodup_nil).1 s]
  simp

theorem nodup_uniqueStrings (strs : List String) : (uniqueStrings strs).Nodup :=
  (foldl_addUnique strs ([], ∅) (by simp) List.nodup_nil).2

/-- No two hostnames have the same address. -/
def InjectiveHosts (hostnameToIP : String → Option String) : Prop :=
  ∀ h h' ip, hostnameToIP h = some ip → hostnameToIP h' = some ip → h = h'

/-- Every address is the canonical text of an address of 10.0.0.0/8. -/
def KeldaHosts (hostnameToIP : String → Option String) : Prop :=
  ∀ h ip, hostnameToIP h = some ip → ∃ address : IPv4, address.a = 10 ∧ ip = address.text

variable {hostnameToIP : String → Option String}

theorem mem_resolveSide {hosts : List String} {ip : String} :
    ip ∈ resolveSide hostnameToIP hosts ↔
      ∃ h ∈ hosts, h ≠ Blueprint.publicInternetLabel ∧ hostnameToIP h = some ip := by
  simp [resolveSide, resolveHostnames, and_assoc]

theorem nodup_resolveSide (hInj : InjectiveHosts hostnameToIP) (hosts : List String) :
    (resolveSide hostnameToIP hosts).Nodup := by
  refine List.Nodup.filterMap (fun h h' ip hh hh' => ?_) (nodup_uniqueStrings _)
  exact hInj h h' ip hh hh'

/-- Texts of addresses, as addresses. -/
theorem exists_map_text {ips : List String}
    (h : ∀ ip ∈ ips, ∃ a : IPv4, a.a = 10 ∧ ip = a.text) :
    ∃ addresses : List IPv4, ips = addresses.map IPv4.text ∧ ∀ a ∈ addresses, a.a = 10 := by
  induction ips with
  | nil => exact ⟨[], rfl, by simp⟩
  | cons ip ips ih =>
      obtain ⟨addresses, hRest, hTen⟩ := ih (fun ip' hMem => h ip' (List.mem_cons_of_mem _ hMem))
      obtain ⟨a, ha, rfl⟩ := h ip (List.mem_cons_self ..)
      refine ⟨a :: addresses, by rw [hRest, List.map_cons], ?_⟩
      simpa [ha] using hTen

/-- The addresses of a side, as addresses. -/
theorem exists_addresses (hHosts : KeldaHosts hostnameToIP) {hosts sorted : List String}
    (hSorted : sorted.Perm (resolveSide hostnameToIP hosts)) :
    ∃ addresses : List IPv4, sorted = addresses.map IPv4.text ∧ ∀ a ∈ addresses, a.a = 10 := by
  apply exists_map_text
  intro ip hIP
  obtain ⟨h, -, -, hLookup⟩ := mem_resolveSide.mp (hSorted.mem_iff.mp hIP)
  exact hHosts h ip hLookup

end Sides

section Names

/-- The text of several addresses one after another. -/
def concatText (addresses : List IPv4) : List Char :=
  addresses.flatMap (fun a => a.text.toList)

theorem concatText_cons (a : IPv4) (addresses : List IPv4) :
    concatText (a :: addresses) = a.a.val.repr.toList ++ '.' :: (a.b.val.repr.toList ++ '.' ::
      (a.c.val.repr.toList ++ '.' :: (a.d.val.repr.toList ++ concatText addresses))) := by
  rw [concatText, List.flatMap_cons, IPv4.text_toList]
  simp [concatText]

/-- The text of further addresses is empty or starts with the first octet. -/
theorem concatText_cases {addresses : List IPv4} (h : ∀ a ∈ addresses, a.a = 10) :
    (addresses = [] ∧ concatText addresses = []) ∨
      ∃ rest, concatText addresses = ['1', '0'] ++ '.' :: rest := by
  cases addresses with
  | nil => exact Or.inl ⟨rfl, rfl⟩
  | cons a addresses =>
      rw [concatText_cons, h a (List.mem_cons_self ..)]
      exact Or.inr ⟨_, rfl⟩

/-- A last octet in front of further addresses ends two characters before the
next dot, or at the end. -/
theorem octet_append_inj {n m : Nat} {addresses addresses' : List IPv4}
    (h : ∀ a ∈ addresses, a.a = 10) (h' : ∀ a ∈ addresses', a.a = 10)
    (hEq : n.repr.toList ++ concatText addresses = m.repr.toList ++ concatText addresses') :
    n = m ∧ concatText addresses = concatText addresses' := by
  have hDot : ∀ k : Nat, '.' ∉ k.repr.toList ++ ['1', '0'] := by
    intro k
    simpa using IPv4.dot_notMem_repr k
  rcases concatText_cases h with ⟨-, hNil⟩ | ⟨rest, hRest⟩ <;>
    rcases concatText_cases h' with ⟨-, hNil'⟩ | ⟨rest', hRest'⟩
  · rw [hNil, hNil', List.append_nil, List.append_nil] at hEq
    exact ⟨Nat.repr_inj.mp (String.toList_inj.mp hEq), hNil.trans hNil'.symm⟩
  · have hMem : '.' ∈ n.repr.toList := by
      rw [hNil, List.append_nil] at hEq
      rw [hEq, hRest']
      simp
    exact (IPv4.dot_notMem_repr n hMem).elim
  · have hMem : '.' ∈ m.repr.toList := by
      rw [hNil', List.append_nil] at hEq
      rw [← hEq, hRest]
      simp
    exact (IPv4.dot_notMem_repr m hMem).elim
  · rw [hRest, hRest', ← List.append_assoc, ← List.append_assoc] at hEq
    obtain ⟨hOctet, hTail⟩ := Text.append_sep_inj (hDot n) (hDot m) hEq
    have hSame := List.append_cancel_right hOctet
    exact ⟨Nat.repr_inj.mp (String.toList_inj.mp hSame), by rw [hRest, hRest', hTail]⟩

/-- Addresses of 10.0.0.0/8 are determined by their texts one after another. -/
theorem concatText_inj {addresses addresses' : List IPv4} (h : ∀ a ∈ addresses, a.a = 10)
    (h' : ∀ a ∈ addresses', a.a = 10) (hEq : concatText addresses = concatText addresses') :
    addresses = addresses' := by
  induction addresses generalizing addresses' with
  | nil =>
      cases addresses' with
      | nil => rfl
      | cons a' addresses' =>
          rw [concatText_cons] at hEq
          have hDot : '.' ∈ concatText [] := by
            rw [hEq]
            simp
          cases hDot
  | cons a addresses ih =>
      cases addresses' with
      | nil =>
          rw [concatText_cons] at hEq
          have hDot : '.' ∈ concatText [] := by
            rw [← hEq]
            simp
          cases hDot
      | cons a' addresses' =>
          rw [concatText_cons, concatText_cons] at hEq
          obtain ⟨hA, hEq⟩ := Text.append_sep_inj (IPv4.dot_notMem_repr _)
            (IPv4.dot_notMem_repr _) hEq
          obtain ⟨hB, hEq⟩ := Text.append_sep_inj (IPv4.dot_notMem_repr _)
            (IPv4.dot_notMem_repr _) hEq
          obtain ⟨hC, hEq⟩ := Text.append_sep_inj (IPv4.dot_notMem_repr _)
            (IPv4.dot_notMem_repr _) hEq
          have hRest : ∀ b ∈ addresses, b.a = 10 := fun b hb => h b (List.mem_cons_of_mem _ hb)
          have hRest' : ∀ b ∈ addresses', b.a = 10 := fun b hb => h' b (List.mem_cons_of_mem _ hb)
          obtain ⟨hD, hEq⟩ := octet_append_inj hRest hRest' hEq
          have hOctet : ∀ {x y : Fin 256}, x.val.repr.toList = y.val.repr.toList → x = y :=
            fun hxy => Fin.ext (Nat.repr_inj.mp (String.toList_inj.mp hxy))
          have hSame : a = a' := by
            cases a
            cases a'
            simp only [IPv4.mk.injEq]
            exact ⟨hOctet hA, hOctet hB, hOctet hC, Fin.ext hD⟩
          rw [hSame, ih hRest hRest' hEq]

/-- A set name has no character that ends a word. -/
theorem setName_chars (sha256 : String → List UInt8) (sorted : List String) :
    ∀ c ∈ ("$" ++ setName sha256 sorted).toList, c ≠ ' ' ∧ c ≠ '(' ∧ c ≠ ')' := by
  have hFixed : ∀ c ∈ ['$', 's', 'h', 'a'], c ≠ ' ' ∧ c ≠ '(' ∧ c ≠ ')' := by
    simp
  intro c hc
  simp only [setName, Text.hexText, String.toList_append, String.toList_ofList, List.mem_append,
    List.mem_flatMap] at hc
  rcases hc with hc | hc | ⟨b, -, hc⟩
  · exact hFixed c (List.mem_append_left ['s', 'h', 'a'] hc)
  · exact hFixed c (List.mem_append_right ['$'] hc)
  · have hHex := Text.isHex_of_mem_hexByte hc
    refine ⟨?_, ?_, ?_⟩ <;> (rintro rfl; exact absurd hHex (by decide))

end Names

section Sets

variable (sha256 : String → List UInt8) (hostnameToIP : String → Option String)

/-- The name of an endpoint does not depend on the sets made so far. -/
def endpointText (members : List String) : String := (endpointName sha256 members ∅).1

theorem endpointName_fst (members : List String)
    (addressSets : AList (fun _ : String => List String)) :
    (endpointName sha256 members addressSets).1 = endpointText sha256 members := by
  rw [endpointText]
  match members with
  | [] | [_] | _ :: _ :: _ => rfl

theorem endpointName_of_length_ne_one {members : List String} (h : members.length ≠ 1)
    (addressSets : AList (fun _ : String => List String)) :
    endpointName sha256 members addressSets =
      ("$" ++ setName sha256 (sortStrings members),
        if setName sha256 (sortStrings members) ∈ addressSets then addressSets
        else addressSets.insert (setName sha256 (sortStrings members)) (sortStrings members)) := by
  match members with
  | [] | _ :: _ :: _ => rfl
  | [_] => simp at h

/-- The sets made for some endpoints: each is the sorted list of an endpoint
under its name, and no endpoint with several members is missing. -/
structure SetsFor (endpoints : List (List String))
    (addressSets : AList (fun _ : String => List String)) : Prop where
  entry : ∀ name addresses, addressSets.lookup name = some addresses →
    ∃ members ∈ endpoints, addresses = sortStrings members ∧ name = setName sha256 addresses
  covers : ∀ members ∈ endpoints, members.length ≠ 1 →
    setName sha256 (sortStrings members) ∈ addressSets

theorem SetsFor.endpoint {endpoints : List (List String)}
    {addressSets : AList (fun _ : String => List String)}
    (h : SetsFor sha256 endpoints addressSets) (members : List String) :
    SetsFor sha256 (endpoints ++ [members]) (endpointName sha256 members addressSets).2 := by
  have hMono : ∀ name addresses, addressSets.lookup name = some addresses →
      ∃ members' ∈ endpoints ++ [members], addresses = sortStrings members' ∧
        name = setName sha256 addresses := by
    intro name addresses hLookup
    obtain ⟨members', hMem, hEq⟩ := h.entry name addresses hLookup
    exact ⟨members', List.mem_append_left _ hMem, hEq⟩
  by_cases hOne : members.length = 1
  · obtain ⟨member, rfl⟩ := List.length_eq_one_iff.mp hOne
    refine ⟨hMono, fun members' hMem hLength => ?_⟩
    rcases List.mem_append.mp hMem with hMem | hMem
    · exact h.covers members' hMem hLength
    · rw [List.mem_singleton.mp hMem] at hLength
      exact (hLength hOne).elim
  · rw [endpointName_of_length_ne_one sha256 hOne]
    dsimp only
    split_ifs with hKnown
    · refine ⟨hMono, fun members' hMem hLength => ?_⟩
      rcases List.mem_append.mp hMem with hMem | hMem
      · exact h.covers members' hMem hLength
      · rwa [List.mem_singleton.mp hMem]
    · refine ⟨fun name addresses hLookup => ?_, fun members' hMem hLength => ?_⟩
      · by_cases hName : name = setName sha256 (sortStrings members)
        · rw [hName, AList.lookup_insert] at hLookup
          obtain rfl := Option.some.inj hLookup
          exact ⟨members, List.mem_append_right _ (List.mem_singleton_self _), rfl, hName⟩
        · rw [AList.lookup_insert_ne hName] at hLookup
          exact hMono name addresses hLookup
      · rw [AList.mem_insert]
        rcases List.mem_append.mp hMem with hMem | hMem
        · exact Or.inr (h.covers members' hMem hLength)
        · exact Or.inl (by rw [List.mem_singleton.mp hMem])

/-- Both sides of the connection have a known host. -/
def resolvable (dbConn : Connection) : Bool :=
  resolveSide hostnameToIP dbConn.fromHosts ≠ [] ∧ resolveSide hostnameToIP dbConn.toHosts ≠ []

/-- The connection between the endpoints. -/
def connOf (dbConn : Connection) : Conn where
  fromName := endpointText sha256 (resolveSide hostnameToIP dbConn.fromHosts)
  toName := endpointText sha256 (resolveSide hostnameToIP dbConn.toHosts)
  minPort := dbConn.minPort
  maxPort := dbConn.maxPort

/-- The endpoints of the connections. -/
def endpointsOf (dbConns : List Connection) : List (List String) :=
  (dbConns.filter (resolvable hostnameToIP)).flatMap (fun dbConn =>
    [resolveSide hostnameToIP dbConn.fromHosts, resolveSide hostnameToIP dbConn.toHosts])

theorem resolveConnection_of_resolvable {dbConn : Connection}
    (h : resolvable hostnameToIP dbConn = true) (conns : List Conn)
    (addressSets : AList (fun _ : String => List String)) :
    resolveConnection sha256 hostnameToIP (conns, addressSets) dbConn =
      (conns ++ [connOf sha256 hostnameToIP dbConn],
        (endpointName sha256 (resolveSide hostnameToIP dbConn.toHosts)
          (endpointName sha256 (resolveSide hostnameToIP dbConn.fromHosts) addressSets).2).2) := by
  have hGo : ¬((resolveSide hostnameToIP dbConn.fromHosts).length = 0 ∨
      (resolveSide hostnameToIP dbConn.toHosts).length = 0) := by
    simpa [resolvable, not_or] using h
  simp only [resolveConnection, if_neg hGo, connOf, endpointName_fst]

theorem resolveConnection_of_not_resolvable {dbConn : Connection}
    (h : ¬resolvable hostnameToIP dbConn = true) (conns : List Conn)
    (addressSets : AList (fun _ : String => List String)) :
    resolveConnection sha256 hostnameToIP (conns, addressSets) dbConn = (conns, addressSets) := by
  have hSkip : (resolveSide hostnameToIP dbConn.fromHosts).length = 0 ∨
      (resolveSide hostnameToIP dbConn.toHosts).length = 0 := by
    simpa [resolvable, imp_iff_not_or] using h
  simp only [resolveConnection, if_pos hSkip]

theorem foldl_resolveConnection (dbConns : List Connection) (conns : List Conn)
    (addressSets : AList (fun _ : String => List String)) (endpoints : List (List String))
    (h : SetsFor sha256 endpoints addressSets) :
    (dbConns.foldl (resolveConnection sha256 hostnameToIP) (conns, addressSets)).1 =
        conns ++ (dbConns.filter (resolvable hostnameToIP)).map (connOf sha256 hostnameToIP) ∧
      SetsFor sha256 (endpoints ++ endpointsOf hostnameToIP dbConns)
        (dbConns.foldl (resolveConnection sha256 hostnameToIP) (conns, addressSets)).2 := by
  induction dbConns generalizing conns addressSets endpoints with
  | nil => exact ⟨by simp, by simpa [endpointsOf] using h⟩
  | cons dbConn dbConns ih =>
      rw [List.foldl_cons]
      by_cases hResolvable : resolvable hostnameToIP dbConn = true
      · rw [resolveConnection_of_resolvable sha256 hostnameToIP hResolvable]
        obtain ⟨hConns, hSets⟩ := ih (conns ++ [connOf sha256 hostnameToIP dbConn]) _ _
          ((h.endpoint sha256 (resolveSide hostnameToIP dbConn.fromHosts)).endpoint sha256
            (resolveSide hostnameToIP dbConn.toHosts))
        rw [endpointsOf, List.filter_cons_of_pos hResolvable]
        refine ⟨by simpa using hConns, ?_⟩
        simpa [endpointsOf] using hSets
      · rw [resolveConnection_of_not_resolvable sha256 hostnameToIP hResolvable, endpointsOf,
          List.filter_cons_of_neg hResolvable]
        exact ih conns addressSets endpoints h

/-- The texts that are hashed for the connections. -/
def hashedTexts (dbConns : List Connection) : Set String :=
  {text | ∃ members ∈ endpointsOf hostnameToIP dbConns, text = String.join (sortStrings members)}

variable {sha256 hostnameToIP}

theorem join_map_text (addresses : List IPv4) :
    (String.join (addresses.map IPv4.text)).toList = concatText addresses := by
  rw [String.toList_join, concatText, List.flatMap_map]

/-- Endpoints with the same set name have the same members. -/
theorem sortStrings_inj {dbConns : List Connection} (hHosts : KeldaHosts hostnameToIP)
    (hSha : Set.InjOn sha256 (hashedTexts hostnameToIP dbConns)) {members members' : List String}
    (hMem : members ∈ endpointsOf hostnameToIP dbConns)
    (hMem' : members' ∈ endpointsOf hostnameToIP dbConns)
    (h : setName sha256 (sortStrings members) = setName sha256 (sortStrings members')) :
    sortStrings members = sortStrings members' := by
  have hTexts : ∀ members ∈ endpointsOf hostnameToIP dbConns, ∃ addresses : List IPv4,
      sortStrings members = addresses.map IPv4.text ∧ ∀ a ∈ addresses, a.a = 10 := by
    intro members hMembers
    obtain ⟨c, -, hSide⟩ := List.mem_flatMap.mp hMembers
    simp only [List.mem_cons, List.not_mem_nil, or_false] at hSide
    rcases hSide with rfl | rfl <;>
      exact exists_addresses hHosts (List.perm_insertionSort _ _)
  obtain ⟨addresses, hEq, hTen⟩ := hTexts members hMem
  obtain ⟨addresses', hEq', hTen'⟩ := hTexts members' hMem'
  have hHash := Text.hexText_inj ((String.append_right_inj "sha").mp h)
  have hJoin := hSha ⟨members, hMem, rfl⟩ ⟨members', hMem', rfl⟩ hHash
  rw [hEq, hEq'] at hJoin ⊢
  have hConcat := congrArg String.toList hJoin
  rw [join_map_text, join_map_text] at hConcat
  rw [concatText_inj hTen hTen' hConcat]

/-- The address set of each endpoint with several members has exactly the
members. -/
theorem SetsFor.lookup {dbConns : List Connection}
    {addressSets : AList (fun _ : String => List String)} (hHosts : KeldaHosts hostnameToIP)
    (hSha : Set.InjOn sha256 (hashedTexts hostnameToIP dbConns))
    (h : SetsFor sha256 (endpointsOf hostnameToIP dbConns) addressSets) {members : List String}
    (hMem : members ∈ endpointsOf hostnameToIP dbConns) (hLength : members.length ≠ 1) :
    addressSets.lookup (setName sha256 (sortStrings members)) = some (sortStrings members) := by
  obtain ⟨addresses, hLookup⟩ :=
    Option.isSome_iff_exists.mp (AList.lookup_isSome.mpr (h.covers members hMem hLength))
  obtain ⟨members', hMem', rfl, hName⟩ := h.entry _ _ hLookup
  rw [hLookup, sortStrings_inj hHosts hSha hMem hMem' hName]

end Sets

end Kelda.Network
