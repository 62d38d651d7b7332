import Kelda.Network.ACLPolicy
import Kelda.Network.Northbound

/-! The tables of the northbound database converge. Whatever earlier passes left
behind, calls that failed included, a pass without failures makes every table hold
exactly what is wanted, and the pass after it changes nothing. The joins compare
flattened keys; what makes them exact is that rows which can be in a table at the
same time are told apart by their keys. -/
namespace Kelda.Network

open DB Join UuidTable

section SetRows

variable {sha256 : String → List UInt8}

/-- A row that was made for addresses of 10.0.0.0/8, under the name of their hash. -/
structure SetRow.Resolved (sha256 : String → List UInt8) (r : SetRow) : Prop where
  addresses : ∀ ip ∈ r.addresses, ∃ a : IPv4, a.a = 10 ∧ ip = a.text
  name : r.name = setName sha256 (elements r.addresses)

/-- The key under which a row is found. -/
def SetRow.key (r : SetRow) : String := String.join (elements r.addresses ++ [r.name])

theorem sortStrings_of_nodup {ips : List String} (h : ips.Nodup) :
    sortStrings ips = elements ips.toFinset := by
  have hPerm : (sortStrings ips).Perm ips := List.perm_insertionSort (· ≤ ·) ips
  rw [← List.toFinset_eq_of_perm _ _ hPerm]
  exact (elements_toFinset (hPerm.nodup_iff.mpr h) (List.pairwise_insertionSort (· ≤ ·) ips)).symm

/-- The order in which the addresses are listed makes no difference. -/
theorem addressSetKey_listed (ord : MapOrder) (r : SetRow) :
    addressSetKey ⟨r.name, ord.walk (elements r.addresses)⟩ = r.key := by
  have hPerm := ord.perm (elements r.addresses)
  have hNodup := hPerm.nodup_iff.mpr (nodup_elements r.addresses)
  rw [addressSetKey, SetRow.key, sortStrings_of_nodup hNodup, List.toFinset_eq_of_perm _ _ hPerm,
    toFinset_elements]

theorem addressSetKey_ofSet {set : AddressSet} (h : set.addresses.Nodup) :
    addressSetKey set = (SetRow.ofSet set).key := by
  rw [addressSetKey, sortStrings_of_nodup h]
  rfl

namespace SetRow.Resolved

variable {r r' : SetRow}

theorem exists_addresses (h : r.Resolved sha256) : ∃ addresses : List IPv4,
    elements r.addresses = addresses.map IPv4.text ∧ ∀ a ∈ addresses, a.a = 10 :=
  exists_map_text (fun ip hIP => h.addresses ip (mem_elements.mp hIP))

/-- The hashed text of a row determines the row. -/
theorem eq_of_join (h : r.Resolved sha256) (h' : r'.Resolved sha256)
    (hJoin : String.join (elements r.addresses) = String.join (elements r'.addresses)) :
    r = r' := by
  obtain ⟨addresses, hEq, hTen⟩ := h.exists_addresses
  obtain ⟨addresses', hEq', hTen'⟩ := h'.exists_addresses
  have hConcat := congrArg String.toList hJoin
  rw [hEq, hEq', join_map_text, join_map_text] at hConcat
  have hSort : elements r.addresses = elements r'.addresses := by
    rw [hEq, hEq', concatText_inj hTen hTen' hConcat]
  have hSame : r.addresses = r'.addresses := by
    rw [← toFinset_elements r.addresses, hSort, toFinset_elements]
  have hName : r.name = r'.name := by
    rw [h.name, h'.name, hSort]
  cases r
  cases r'
  cases hSame
  cases hName
  rfl

/-- The text of addresses has no letter, and the name starts with one. -/
theorem key_inj (h : r.Resolved sha256) (h' : r'.Resolved sha256) (hKey : r.key = r'.key) :
    r = r' := by
  have hChars : ∀ {r : SetRow}, r.Resolved sha256 →
      's' ∉ (String.join (elements r.addresses)).toList ∧
        ∃ rest, r.key.toList = (String.join (elements r.addresses)).toList ++ 's' :: rest := by
    intro r h
    obtain ⟨addresses, hEq, -⟩ := h.exists_addresses
    constructor
    · rw [hEq, join_map_text]
      intro hMem
      obtain ⟨a, -, hMem⟩ := List.mem_flatMap.mp hMem
      rcases IPv4.isDigit_of_mem_text hMem with hDigit | hDot
      · cases hDigit
      · cases hDot
    · refine ⟨['h', 'a'] ++ (Text.hexText (sha256 (String.join (elements r.addresses)))).toList, ?_⟩
      rw [SetRow.key, h.name, setName]
      simp [String.toList_join]
  obtain ⟨hFree, rest, hText⟩ := hChars h
  obtain ⟨hFree', rest', hText'⟩ := hChars h'
  rw [hKey, hText'] at hText
  obtain ⟨hJoin, -⟩ := Text.append_sep_inj hFree' hFree hText
  exact h.eq_of_join h' (String.toList_inj.mp hJoin.symm)

/-- If the hash has no collisions, the name alone determines the row. -/
theorem name_inj (hSha : Function.Injective sha256) (h : r.Resolved sha256)
    (h' : r'.Resolved sha256) (hName : r.name = r'.name) : r = r' := by
  rw [h.name, h'.name] at hName
  exact h.eq_of_join h' (hSha (Text.hexText_inj ((String.append_right_inj "sha").mp hName)))

end SetRow.Resolved

/-- The sets that are expected. -/
structure ExpectedSets (sha256 : String → List UInt8) (expSets : List AddressSet) : Prop where
  names : (expSets.map AddressSet.name).Nodup
  nodup : ∀ set ∈ expSets, set.addresses.Nodup
  resolved : ∀ set ∈ expSets, (SetRow.ofSet set).Resolved sha256

theorem expectedSets_resolveConnections (sha256 : String → List UInt8) (ord : MapOrder)
    (dbConns : List Connection) {hostnameToIP : String → Option String}
    (hHosts : KeldaHosts hostnameToIP) (hInj : InjectiveHosts hostnameToIP) :
    ExpectedSets sha256 (resolveConnections sha256 ord dbConns hostnameToIP).2 := by
  obtain ⟨addressSets, hSets, hResult⟩ := resolveConnections_snd sha256 ord dbConns hostnameToIP
  rw [hResult]
  have hSide : ∀ set ∈ (ord.walk addressSets.entries).map
      (fun e => (⟨e.1, e.2⟩ : AddressSet)), ∃ hosts, set.addresses =
        sortStrings (resolveSide hostnameToIP hosts) ∧ set.name = setName sha256 set.addresses := by
    intro set hSet
    obtain ⟨e, he, rfl⟩ := List.mem_map.mp hSet
    have hLookup : addressSets.lookup e.1 = some e.2 :=
      AList.mem_lookup_iff.mpr ((ord.mem_walk).mp he)
    obtain ⟨members, hMem, hEq, hName⟩ := hSets.entry e.1 e.2 hLookup
    obtain ⟨c, -, hMember⟩ := List.mem_flatMap.mp hMem
    simp only [List.mem_cons, List.not_mem_nil, or_false] at hMember
    rcases hMember with rfl | rfl
    · exact ⟨_, hEq, hName⟩
    · exact ⟨_, hEq, hName⟩
  have hNodup : ∀ hosts, (sortStrings (resolveSide hostnameToIP hosts)).Nodup := fun hosts =>
    (List.perm_insertionSort _ _).nodup_iff.mpr (nodup_resolveSide hInj hosts)
  constructor
  · rw [List.map_map]
    exact ord.nodup_walk_map addressSets.nodupKeys
  · intro set hSet
    obtain ⟨hosts, hEq, -⟩ := hSide set hSet
    rw [hEq]
    exact hNodup hosts
  · intro set hSet
    obtain ⟨hosts, hEq, hName⟩ := hSide set hSet
    constructor
    · intro ip hIP
      rw [SetRow.ofSet, List.mem_toFinset, hEq] at hIP
      obtain ⟨h, -, -, hLookup⟩ :=
        mem_resolveSide.mp ((List.perm_insertionSort _ _).mem_iff.mp hIP)
      exact hHosts h ip hLookup
    · have hSorted : elements set.addresses.toFinset = set.addresses := by
        rw [hEq]
        exact elements_toFinset (hNodup hosts) (List.pairwise_insertionSort (· ≤ ·) _)
      rw [SetRow.ofSet, hSorted, hName]

end SetRows

section AddressSetTable

variable {sha256 : String → List UInt8} {nameIndex : Bool} {env : Env} {expSets : List AddressSet}
  {db : Northbound}

/-- What every pass leaves in the table Address_Set. -/
structure SoundSets (sha256 : String → List UInt8) (rows : List SetRow) : Prop where
  resolved : ∀ r ∈ rows, r.Resolved sha256
  names : (rows.map SetRow.name).Nodup

theorem ExpectedSets.keys_eq (h : ExpectedSets sha256 expSets) :
    expSets.map addressSetKey = (expSets.map SetRow.ofSet).map SetRow.key := by
  rw [List.map_map]
  exact List.map_congr_left (fun set hSet => addressSetKey_ofSet (h.nodup set hSet))

theorem ExpectedSets.sound (h : ExpectedSets sha256 expSets) :
    SoundSets sha256 (expSets.map SetRow.ofSet) where
  resolved := by
    intro r hr
    obtain ⟨set, hSet, rfl⟩ := List.mem_map.mp hr
    exact h.resolved set hSet
  names := by
    rw [List.map_map]
    exact h.names

theorem SoundSets.keys_nodup {rows : List SetRow} (h : SoundSets sha256 rows) :
    (rows.map SetRow.key).Nodup :=
  List.Nodup.map_on (fun r hr r' hr' => (h.resolved r hr).key_inj (h.resolved r' hr'))
    (h.names.of_map _)

theorem listAddressSets_keys (env : Env) (db : Northbound) :
    ((listAddressSets env db).map addressSetKey).Perm (db.addressSets.map SetRow.key) := by
  rw [listAddressSets, List.map_map]
  have hKeys : addressSetKey ∘ (fun r : SetRow =>
      (⟨r.name, (env.ords 2).walk (elements r.addresses)⟩ : AddressSet)) = SetRow.key :=
    funext (addressSetKey_listed (env.ords 2))
  rw [hKeys]
  exact ((env.ords 1).perm db.addressSets).map SetRow.key

/-- The names of the sets that are created are new. -/
theorem SoundSets.create {rows created : List SetRow} (hSha : Function.Injective sha256)
    (h : SoundSets sha256 rows) (hCreated : SoundSets sha256 created)
    (hNew : ∀ r ∈ created, ∀ r' ∈ rows, r.key ≠ r'.key) :
    ((rows ++ created).map SetRow.name).Nodup := by
  rw [List.map_append, List.nodup_append']
  refine ⟨h.names, hCreated.names, ?_⟩
  intro name hName hName'
  obtain ⟨r', hr', hEq'⟩ := List.mem_map.mp hName
  obtain ⟨r, hr, hEq⟩ := List.mem_map.mp hName'
  have hSame := (hCreated.resolved r hr).name_inj hSha (h.resolved r' hr') (hEq.trans hEq'.symm)
  exact hNew r hr r' hr' (congrArg SetRow.key hSame)

/-- Deleting sets by name leaves a part of the table. -/
theorem SoundSets.delete {rows : List SetRow} (h : SoundSets sha256 rows) (p : SetRow → Bool) :
    SoundSets sha256 (rows.filter p) :=
  ⟨fun r hr => h.resolved r (List.mem_of_mem_filter hr),
    h.names.sublist (List.filter_sublist.map _)⟩

/-- What the join finds missing is expected, and has keys that are not in the table. -/
theorem lonelyLefts_sound {res : Result AddressSet AddressSet}
    (hExp : ExpectedSets sha256 expSets)
    (hJoin : Reconciles expSets (listAddressSets env db) addressSetKey addressSetKey res) :
    SoundSets sha256 (res.lonelyLefts.map SetRow.ofSet) ∧
      ∀ r ∈ res.lonelyLefts.map SetRow.ofSet, ∀ r' ∈ db.addressSets, r.key ≠ r'.key := by
  have hLefts : ∀ set ∈ res.lonelyLefts, set ∈ expSets :=
    fun set hSet => hJoin.lefts (List.mem_append_right _ hSet)
  refine ⟨⟨?_, ?_⟩, ?_⟩
  · intro r hr
    obtain ⟨set, hSet, rfl⟩ := List.mem_map.mp hr
    exact hExp.resolved set (hLefts set hSet)
  · rw [List.map_map]
    refine List.Nodup.map_on ?_ (hJoin.lonelyLefts_keys_nodup.of_map _)
    intro set hSet set' hSet' hName
    exact List.inj_on_of_nodup_map hExp.names (hLefts set hSet) (hLefts set' hSet') hName
  · intro r hr r' hr' hKey
    obtain ⟨set, hSet, rfl⟩ := List.mem_map.mp hr
    have hListed : r'.key ∈ (listAddressSets env db).map addressSetKey :=
      (listAddressSets_keys env db).mem_iff.mpr (List.mem_map_of_mem hr')
    obtain ⟨listed, hListed, hEq⟩ := List.mem_map.mp hListed
    apply hJoin.unmatched set hSet listed hListed
    rw [addressSetKey_ofSet (hExp.nodup set (hLefts set hSet)), hKey, hEq]

/-- Whichever calls fail, the rows stay resolved and their names distinct: either
the database sees to it, or the hash does. -/
theorem syncAddressSets_sound (env : Env) (hSha : nameIndex = true ∨ Function.Injective sha256)
    (hDb : SoundSets sha256 db.addressSets) (hExp : ExpectedSets sha256 expSets) :
    SoundSets sha256 (syncAddressSets nameIndex env expSets db).1.addressSets := by
  rw [syncAddressSets]
  split
  · have hJoin := hashJoin_reconciles (env.ords 3) expSets (listAddressSets env db)
      addressSetKey addressSetKey
    set joined := hashJoin (env.ords 3) expSets (listAddressSets env db) addressSetKey
      addressSetKey
    obtain ⟨hCreated, hNew⟩ := lonelyLefts_sound hExp hJoin
    change SoundSets sha256 (perform nameIndex env 0 _ db).addressSets
    rw [perform_append]
    obtain ⟨kept, hKept, hSub, hSound⟩ : ∃ kept : Northbound,
        perform nameIndex env 0 (unlessEmpty .deleteAddressSets joined.lonelyRights) db = kept ∧
          (∀ r ∈ kept.addressSets, r ∈ db.addressSets) ∧ SoundSets sha256 kept.addressSets := by
      rcases perform_unlessEmpty nameIndex env .deleteAddressSets joined.lonelyRights 0 db with
        hSkip | hDone
      · exact ⟨db, hSkip, fun _ h => h, hDb⟩
      · exact ⟨_, hDone, fun _ h => List.mem_of_mem_filter h, hDb.delete _⟩
    rw [hKept]
    rcases perform_unlessEmpty nameIndex env .createAddressSets joined.lonelyLefts _ kept with
      hSkip | hDone
    · rw [hSkip]
      exact hSound
    · rw [hDone, Call.apply]
      split
      · exact hSound
      · rename_i hIndex
        constructor
        · intro r hr
          exact (List.mem_append.mp hr).elim (hSound.resolved r) (hCreated.resolved r)
        · rcases hSha with hSha | hSha
          · simpa [hSha] using hIndex
          · exact hSound.create hSha hCreated (fun r hr r' hr' => hNew r hr r' (hSub r' hr'))
  · exact hDb

/-- Without failures the table holds the expected sets, each once. -/
theorem syncAddressSets_exact (nameIndex : Bool) (hEnv : env.Reliable)
    (hDb : SoundSets sha256 db.addressSets) (hExp : ExpectedSets sha256 expSets) :
    (syncAddressSets nameIndex env expSets db).1.addressSets.Perm
      (expSets.map SetRow.ofSet) := by
  have hJoin := hashJoin_reconciles (env.ords 3) expSets (listAddressSets env db)
    addressSetKey addressSetKey
  rw [syncAddressSets, if_pos hEnv.1]
  set joined := hashJoin (env.ords 3) expSets (listAddressSets env db) addressSetKey addressSetKey
  change (perform nameIndex env 0 _ db).addressSets.Perm _
  rw [perform_reliable hEnv, List.foldl_append, foldl_unlessEmpty (by simp [Call.apply]),
    foldl_unlessEmpty (by simp [Call.apply])]
  obtain ⟨rows, hRows, hListed⟩ := List.Perm.exists_map_eq hJoin.rights
  obtain ⟨keep, olds, rfl, hKeep, hOlds⟩ := List.map_eq_append_iff.mp hListed.symm
  have hNames : joined.lonelyRights.map AddressSet.name = olds.map SetRow.name := by
    rw [← hOlds, List.map_map]
    rfl
  have hKept := List.filter_notMem_perm hDb.names (hRows.trans ((env.ords 1).perm _))
  rw [← hNames] at hKept
  have hKeep : (joined.pairs.map Pair.R).map addressSetKey = keep.map SetRow.key := by
    rw [← hKeep, List.map_map]
    exact List.map_congr_left (fun r _ => addressSetKey_listed (env.ords 2) r)
  have hLonely : joined.lonelyLefts.map addressSetKey =
      (joined.lonelyLefts.map SetRow.ofSet).map SetRow.key := by
    rw [List.map_map]
    refine List.map_congr_left (fun set hSet => addressSetKey_ofSet (hExp.nodup set ?_))
    exact hJoin.lefts (List.mem_append_right _ hSet)
  obtain ⟨hCreated, -⟩ := lonelyLefts_sound hExp hJoin
  have hExpKeys : (expSets.map addressSetKey).Nodup := by
    rw [hExp.keys_eq]
    exact hExp.sound.keys_nodup
  have hAfter : (db.addressSets.filter (fun r => r.name ∉ joined.lonelyRights.map
      AddressSet.name) ++ joined.lonelyLefts.map SetRow.ofSet).Perm
        (expSets.map SetRow.ofSet) := by
    apply List.Perm.of_map_perm (f := SetRow.key)
    · intro r hr r' hr'
      refine SetRow.Resolved.key_inj ?_ (hExp.sound.resolved r' hr')
      exact (List.mem_append.mp hr).elim
        (fun hr => hDb.resolved r (List.mem_of_mem_filter hr)) (hCreated.resolved r)
    · rw [List.map_append, ← hLonely, ← hExp.keys_eq]
      refine ((hKept.map SetRow.key).append_right _).trans ?_
      rw [← hKeep]
      exact hJoin.keys_perm hExpKeys
  rw [Call.apply, if_neg]
  · exact hAfter
  · rintro ⟨-, hIndex⟩
    exact hIndex ((hAfter.map SetRow.name).nodup_iff.mpr hExp.sound.names)

/-- A table that holds the expected sets is left alone. -/
theorem syncAddressSets_quiet (hExp : ExpectedSets sha256 expSets)
    (h : db.addressSets.Perm (expSets.map SetRow.ofSet)) :
    syncAddressSets nameIndex env expSets db = (db, []) := by
  have hJoin := hashJoin_reconciles (env.ords 3) expSets (listAddressSets env db)
    addressSetKey addressSetKey
  have hKeys : ((listAddressSets env db).map addressSetKey).Perm (expSets.map addressSetKey) := by
    rw [hExp.keys_eq]
    exact (listAddressSets_keys env db).trans (h.map SetRow.key)
  have hNodup : ((listAddressSets env db).map addressSetKey).Nodup := by
    rw [hKeys.nodup_iff, hExp.keys_eq]
    exact hExp.sound.keys_nodup
  obtain ⟨hLefts, hRights⟩ := hJoin.lonely_eq_nil hNodup (fun k => hKeys.mem_iff)
  rw [syncAddressSets]
  split
  · simp only [hLefts, hRights]
    rfl
  · rfl

end AddressSetTable

section ACLTable

variable {nameIndex : Bool} {env : Env} {connections : List Conn} {db : Northbound}

theorem getMatchString_ne_wildcard (conn : Conn) : getMatchString conn ≠ "*" := by
  intro h
  have hChars := congrArg String.toList h
  simp [getMatchString, orMatch] at hChars

theorem icmpMatch_ne_wildcard (conn : Conn) : icmpMatch conn ≠ "*" := by
  intro h
  have hChars := congrArg String.toList h
  simp [icmpMatch, andMatch] at hChars

/-- The match of a connection: the traffic to its ports, and the answers. -/
def connText (conn : Conn) : String :=
  let ports := fun field => "(" ++ conn.minPort.repr ++ " <= udp." ++ field ++ " <= " ++
    conn.maxPort.repr ++ " || " ++ conn.minPort.repr ++ " <= tcp." ++ field ++ " <= " ++
    conn.maxPort.repr ++ ")"
  "((ip4.src == " ++ conn.fromName ++ " && ip4.dst == " ++ conn.toName ++ " && " ++ ports "dst" ++
    ") || (ip4.src == " ++ conn.toName ++ " && ip4.dst == " ++ conn.fromName ++ " && " ++
    ports "src" ++ "))"

def icmpText (conn : Conn) : String :=
  "(ip4.src == " ++ conn.fromName ++ " && ip4.dst == " ++ conn.toName ++ " && icmp)"

/-- The ACLs that there have to be, in both directions: one that drops everything,
and two for each connection. -/
def WantedACL (conns : List Conn) (acl : ACLCore) : Prop :=
  (acl.priority = 0 ∧ acl.action = .drop ∧ acl.matchText = "ip") ∨
    ∃ conn ∈ conns, acl.priority = 1 ∧
      (acl.action = .allow ∧ acl.matchText = connText conn ∨
        acl.action = .allowRelated ∧ acl.matchText = icmpText conn)

theorem getMatchString_eq (conn : Conn) : getMatchString conn = connText conn := by
  apply String.toList_inj.mp
  unfold connText
  simp [getMatchString, orMatch, andMatch, fromMatch, toMatch, portConstraint, portRange]

theorem icmpMatch_eq (conn : Conn) : icmpMatch conn = icmpText conn := by
  apply String.toList_inj.mp
  unfold icmpText
  simp [icmpMatch, andMatch, fromMatch, toMatch]

theorem mem_expectedACLs_iff {acl : ACLCore} :
    acl ∈ expectedACLs connections ↔ WantedACL connections acl := by
  rw [mem_expectedACLs]
  simp only [FromConn, getMatchString_eq, icmpMatch_eq, WantedACL]
  cases acl
  simp only [ACLCore.mk.injEq]
  grind

/-- The expected ACLs are stored as they are. -/
theorem aclRow_expected {acl : ACLCore} (h : acl ∈ expectedACLs connections) :
    aclRow acl = acl := by
  rcases mem_expectedACLs.mp h with ⟨dir, rfl⟩ | ⟨conn, -, dir, rfl | rfl⟩
  · simp [aclRow]
  · simp [aclRow, getMatchString_ne_wildcard]
  · simp [aclRow, icmpMatch_ne_wildcard]

/-- The table holds the ACLs of the connections, each once. -/
def HoldsACLs (connections : List Conn) (acls : Table ACLCore) : Prop :=
  acls.vals.Nodup ∧ ∀ acl, acl ∈ acls.vals ↔ WantedACL connections acl

theorem syncACLs_holds (hEnv : env.Reliable) :
    HoldsACLs connections (syncACLs nameIndex env connections db).1.acls := by
  have hJoin := hashJoin_reconciles (env.ords 3) (expectedACLs connections) (listACLs env db) id
    Row.val
  rw [syncACLs, if_pos hEnv.1]
  set joined := hashJoin (env.ords 3) (expectedACLs connections) (listACLs env db) id Row.val
  change HoldsACLs connections (perform nameIndex env 0 _ db).acls
  rw [perform_reliable hEnv, List.foldl_append, foldl_unlessEmpty (by rfl),
    foldl_unlessEmpty (by simp [Call.apply])]
  have hStored : joined.lonelyLefts.map aclRow = joined.lonelyLefts := by
    conv_rhs => rw [← List.map_id joined.lonelyLefts]
    refine List.map_congr_left (fun acl hAcl => ?_)
    exact aclRow_expected (hJoin.lefts (List.mem_append_right _ hAcl))
  have hSame : (joined.pairs.map Pair.R).map Row.val = joined.pairs.map Pair.L := by
    rw [List.map_map]
    exact List.map_congr_left (fun p hp => (hJoin.sameKey p hp).symm)
  have hVals := db.acls.vals_delete_perm (hJoin.rights.trans ((env.ords 1).perm _))
  have hAfter : ((Call.createACLs joined.lonelyLefts).apply nameIndex
      ((Call.deleteACLs joined.lonelyRights).apply nameIndex db)).acls.vals.Perm
        (joined.pairs.map Pair.L ++ joined.lonelyLefts) := by
    rw [Call.apply, Call.apply, Table.vals_insert, hStored, ← hSame]
    exact hVals.append_right _
  constructor
  · rw [hAfter.nodup_iff]
    simpa using hJoin.leftKeys
  · intro acl
    rw [hAfter.mem_iff, ← mem_expectedACLs_iff]
    refine ⟨fun hMem => hJoin.lefts hMem, fun hMem => ?_⟩
    obtain ⟨acl', hMem', rfl⟩ := hJoin.covers acl hMem
    exact hMem'

theorem syncACLs_quiet (h : HoldsACLs connections db.acls) :
    syncACLs nameIndex env connections db = (db, []) := by
  have hJoin := hashJoin_reconciles (env.ords 3) (expectedACLs connections) (listACLs env db) id
    Row.val
  have hListed : ((listACLs env db).map Row.val).Perm db.acls.vals :=
    ((env.ords 1).perm db.acls.rows).map Row.val
  have hKeys : ∀ acl, acl ∈ (listACLs env db).map Row.val ↔
      acl ∈ (expectedACLs connections).map id := by
    intro acl
    rw [hListed.mem_iff, h.2, List.map_id, mem_expectedACLs_iff]
  obtain ⟨hLefts, hRights⟩ := hJoin.lonely_eq_nil (hListed.nodup_iff.mpr h.1) hKeys
  rw [syncACLs]
  split
  · simp only [hLefts, hRights]
    rfl
  · rfl

end ACLTable

section LoadBalancerTable

variable {nameIndex : Bool} {env : Env} {hostnameToIP : String → Option String}
  {loadBalancers : List LoadBalancer} {db : Northbound}

/-- The load balancers of one pass. -/
structure DistinctLoadBalancers (loadBalancers : List LoadBalancer) : Prop where
  names : (loadBalancers.map LoadBalancer.name).Nodup
  ips : (loadBalancers.map LoadBalancer.ip).Nodup

/-- A load balancer with one address, behind which are no texts with an equals
sign. -/
def OvnLoadBalancer.Single (lb : OvnLoadBalancer) : Prop :=
  ∃ ip ips, lb.vips = AList.singleton ip ips ∧ '=' ∉ ips.toList

theorem mapAsString_singleton (ord : MapOrder) (ip ips : String) :
    Str.mapAsString ord (AList.singleton ip ips) = "[" ++ (ip ++ "=" ++ ips) ++ "]" := by
  rw [Str.mapAsString_eq ord (List.Perm.refl _) (by simp)]
  simp [Str.entryText]

/-- The addresses behind a load balancer have no equals sign, so the last one of
the key ends the address of the load balancer. -/
theorem OvnLoadBalancer.Single.key_inj {ord : MapOrder} {lb lb' : OvnLoadBalancer}
    (h : lb.Single) (h' : lb'.Single) (hKey : loadBalancerKey ord lb = loadBalancerKey ord lb') :
    lb = lb' := by
  obtain ⟨ip, ips, hVips, hFree⟩ := h
  obtain ⟨ip', ips', hVips', hFree'⟩ := h'
  rw [loadBalancerKey, loadBalancerKey, hVips, hVips', mapAsString_singleton,
    mapAsString_singleton, Prod.mk.injEq] at hKey
  obtain ⟨hName, hText⟩ := hKey
  have hEntry : ip ++ (String.singleton '=' ++ ips) = ip' ++ (String.singleton '=' ++ ips') := by
    have hText := (String.append_right_inj _).mp ((String.append_left_inj _).mp hText)
    simpa [String.append_assoc] using hText
  obtain ⟨rfl, rfl⟩ := Text.string_append_last_inj hFree hFree' hEntry
  cases lb
  cases lb'
  cases hName
  cases hVips
  cases hVips'
  rfl

theorem single_target (hHosts : KeldaHosts hostnameToIP) (lb : LoadBalancer) :
    (targetLoadBalancer hostnameToIP lb).Single := by
  refine ⟨lb.ip, _, rfl, Text.notMem_intercalate (s := ',') (by decide) ?_⟩
  intro ip hIP
  have hMem := (List.perm_insertionSort (· ≤ ·) _).mem_iff.mp hIP
  obtain ⟨hMem, hSome⟩ := List.mem_filter.mp hMem
  obtain ⟨h, -, rfl⟩ := List.mem_map.mp hMem
  cases hLookup : hostnameToIP h with
  | none => simp [hLookup] at hSome
  | some ip =>
      obtain ⟨a, -, rfl⟩ := hHosts h ip hLookup
      intro hEquals
      rcases IPv4.isDigit_of_mem_text hEquals with hDigit | hDot
      · cases hDigit
      · cases hDot

/-- The row of a load balancer: its address leads to the sorted addresses of those
of its hostnames that have one. -/
structure Balances (hostnameToIP : String → Option String) (lb : LoadBalancer)
    (row : OvnLoadBalancer) : Prop where
  name : row.name = lb.name
  vips : ∃ ips : List String, ips.Perm (lb.hostnames.filterMap hostnameToIP) ∧
    ips.Pairwise (· ≤ ·) ∧ row.vips = AList.singleton lb.ip (",".intercalate ips)

theorem loadBalancedIPs_perm (hHosts : KeldaHosts hostnameToIP) (hostnames : List String) :
    (loadBalancedIPs hostnameToIP hostnames).Perm (hostnames.filterMap hostnameToIP) := by
  refine (List.perm_insertionSort (· ≤ ·) _).trans (List.Perm.of_eq ?_)
  induction hostnames with
  | nil => rfl
  | cons h hostnames ih =>
      cases hLookup : hostnameToIP h with
      | none => simpa [hLookup] using ih
      | some ip =>
          obtain ⟨a, -, rfl⟩ := hHosts h ip hLookup
          have hNe : a.text ≠ "" := by
            intro hEmpty
            have hParse := IPv4.parse_text a
            rw [hEmpty] at hParse
            cases hParse
          simpa [hLookup, hNe] using ih

theorem balances_target (hHosts : KeldaHosts hostnameToIP) (lb : LoadBalancer) :
    Balances hostnameToIP lb (targetLoadBalancer hostnameToIP lb) where
  name := rfl
  vips := ⟨_, loadBalancedIPs_perm hHosts _, List.pairwise_insertionSort _ _, rfl⟩

theorem Balances.eq_target (hHosts : KeldaHosts hostnameToIP) {lb : LoadBalancer}
    {row : OvnLoadBalancer} (h : Balances hostnameToIP lb row) :
    row = targetLoadBalancer hostnameToIP lb := by
  obtain ⟨name, vips⟩ := row
  obtain ⟨rfl, ips, hPerm, hSorted, rfl⟩ := h
  have hSame : ips = loadBalancedIPs hostnameToIP lb.hostnames :=
    (hPerm.trans (loadBalancedIPs_perm hHosts _).symm).eq_of_pairwise
      (fun _ _ _ _ hLe hGe => le_antisymm hLe hGe) hSorted (List.pairwise_insertionSort _ _)
  rw [hSame]
  rfl

/-- There is one row for each load balancer. -/
def HoldsBalancers (hostnameToIP : String → Option String) (loadBalancers : List LoadBalancer)
    (table : Table OvnLoadBalancer) : Prop :=
  ∃ rows, table.vals.Perm rows ∧ List.Forall₂ (Balances hostnameToIP) loadBalancers rows

theorem holdsBalancers_iff (hHosts : KeldaHosts hostnameToIP) {table : Table OvnLoadBalancer} :
    HoldsBalancers hostnameToIP loadBalancers table ↔
      table.vals.Perm (loadBalancers.map (targetLoadBalancer hostnameToIP)) := by
  constructor
  · rintro ⟨rows, hPerm, hRows⟩
    have hEq : rows = loadBalancers.map (targetLoadBalancer hostnameToIP) := by
      clear hPerm
      induction hRows with
      | nil => rfl
      | cons hRow _ ih => rw [hRow.eq_target hHosts, ih, List.map_cons]
    rwa [← hEq]
  · intro hPerm
    refine ⟨_, hPerm, List.forall₂_map_right_iff.mpr (List.forall₂_same.mpr ?_)⟩
    exact fun lb _ => balances_target hHosts lb

theorem target_keys_nodup (ord : MapOrder) (h : DistinctLoadBalancers loadBalancers) :
    ((loadBalancers.map (targetLoadBalancer hostnameToIP)).map (loadBalancerKey ord)).Nodup := by
  apply List.Nodup.of_map Prod.fst
  rw [List.map_map, List.map_map]
  exact h.names

/-- The load balancers of the table are single ones. -/
def SoundBalancers (table : Table OvnLoadBalancer) : Prop := ∀ lb ∈ table.vals, lb.Single

theorem updateLoadBalancerIPs_sound (nameIndex : Bool) (env : Env)
    (loadBalancers : List LoadBalancer) (hHosts : KeldaHosts hostnameToIP)
    (hDb : SoundBalancers db.loadBalancers) :
    SoundBalancers
      (updateLoadBalancerIPs nameIndex env loadBalancers hostnameToIP db).1.loadBalancers := by
  rw [updateLoadBalancerIPs]
  split
  · have hJoin := hashJoin_reconciles (env.ords 3)
      (loadBalancers.map (targetLoadBalancer hostnameToIP)) (listLoadBalancers env db)
      (loadBalancerKey (env.ords 2)) (loadBalancerKey (env.ords 2) ∘ Row.val)
    refine perform_keeps (P := fun db => SoundBalancers db.loadBalancers) ?_ 0 hDb
    intro call hCall db hDb
    rcases List.mem_append.mp hCall with hCall | hCall
    · obtain ⟨lb, hLb, rfl⟩ := List.mem_map.mp hCall
      have hTarget := hJoin.lefts (List.mem_append_right _ hLb)
      obtain ⟨target, -, rfl⟩ := List.mem_map.mp hTarget
      intro lb hMem
      rw [Call.apply, Table.vals_insert, List.mem_append] at hMem
      rcases hMem with hMem | hMem
      · exact hDb lb hMem
      · rw [List.mem_singleton.mp hMem]
        exact single_target hHosts target
    · obtain ⟨row, -, rfl⟩ := List.mem_map.mp hCall
      exact fun lb hMem => hDb lb (db.loadBalancers.vals_delete_subset _ hMem)
  · exact hDb

theorem foldl_createLoadBalancer (lbs : List OvnLoadBalancer) (db : Northbound) :
    (lbs.map Call.createLoadBalancer).foldl (fun db call => call.apply nameIndex db) db =
      { db with loadBalancers := db.loadBalancers.insert lbs } := by
  induction lbs generalizing db with
  | nil => rfl
  | cons lb lbs ih =>
      rw [List.map_cons, List.foldl_cons, ih]
      rfl

theorem foldl_deleteLoadBalancer (rows : List (Row OvnLoadBalancer)) (db : Northbound) :
    (rows.map Call.deleteLoadBalancer).foldl (fun db call => call.apply nameIndex db) db =
      { db with loadBalancers :=
          (rows.map Row.uuid).foldl (fun t uuid => t.delete [uuid]) db.loadBalancers } := by
  induction rows generalizing db with
  | nil => rfl
  | cons row rows ih =>
      rw [List.map_cons, List.foldl_cons, ih]
      rfl

theorem updateLoadBalancerIPs_exact (nameIndex : Bool) (hEnv : env.Reliable)
    (hHosts : KeldaHosts hostnameToIP) (hLbs : DistinctLoadBalancers loadBalancers)
    (hDb : SoundBalancers db.loadBalancers) :
    (updateLoadBalancerIPs nameIndex env loadBalancers hostnameToIP db).1.loadBalancers.vals.Perm
      (loadBalancers.map (targetLoadBalancer hostnameToIP)) := by
  have hSound := updateLoadBalancerIPs_sound nameIndex env loadBalancers hHosts hDb
  have hJoin := hashJoin_reconciles (env.ords 3)
    (loadBalancers.map (targetLoadBalancer hostnameToIP)) (listLoadBalancers env db)
    (loadBalancerKey (env.ords 2)) (loadBalancerKey (env.ords 2) ∘ Row.val)
  apply List.Perm.of_map_perm (f := loadBalancerKey (env.ords 2))
  · intro lb hLb lb' hLb'
    obtain ⟨target, -, rfl⟩ := List.mem_map.mp hLb'
    exact (hSound lb hLb).key_inj (single_target hHosts target)
  · rw [updateLoadBalancerIPs, if_pos hEnv.1]
    set joined := hashJoin (env.ords 3) (loadBalancers.map (targetLoadBalancer hostnameToIP))
      (listLoadBalancers env db) (loadBalancerKey (env.ords 2))
      (loadBalancerKey (env.ords 2) ∘ Row.val)
    change ((perform nameIndex env 0 _ db).loadBalancers.vals.map _).Perm _
    rw [perform_reliable hEnv, List.foldl_append, foldl_createLoadBalancer,
      foldl_deleteLoadBalancer]
    have hVals := db.loadBalancers.vals_insert_delete_perm joined.lonelyLefts
      (hJoin.rights.trans ((env.ords 1).perm _))
    refine (hVals.map _).trans ?_
    rw [List.map_append, List.map_map]
    exact hJoin.keys_perm (target_keys_nodup _ hLbs)

theorem updateLoadBalancerIPs_quiet (hLbs : DistinctLoadBalancers loadBalancers)
    (h : db.loadBalancers.vals.Perm (loadBalancers.map (targetLoadBalancer hostnameToIP))) :
    updateLoadBalancerIPs nameIndex env loadBalancers hostnameToIP db = (db, []) := by
  have hJoin := hashJoin_reconciles (env.ords 3)
    (loadBalancers.map (targetLoadBalancer hostnameToIP)) (listLoadBalancers env db)
    (loadBalancerKey (env.ords 2)) (loadBalancerKey (env.ords 2) ∘ Row.val)
  have hKeys : ((listLoadBalancers env db).map (loadBalancerKey (env.ords 2) ∘ Row.val)).Perm
      ((loadBalancers.map (targetLoadBalancer hostnameToIP)).map
        (loadBalancerKey (env.ords 2))) := by
    rw [← List.map_map]
    exact ((((env.ords 1).perm db.loadBalancers.rows).map Row.val).trans h).map _
  obtain ⟨hLefts, hRights⟩ := hJoin.lonely_eq_nil
    (hKeys.nodup_iff.mpr (target_keys_nodup _ hLbs)) (fun k => hKeys.mem_iff)
  rw [updateLoadBalancerIPs]
  split
  · simp only [hLefts, hRights]
    rfl
  · rfl

end LoadBalancerTable

section Frames

variable {nameIndex : Bool} {env : Env} {db : Northbound}

theorem syncAddressSets_frame (expSets : List AddressSet) :
    (syncAddressSets nameIndex env expSets db).1.acls = db.acls ∧
      (syncAddressSets nameIndex env expSets db).1.loadBalancers = db.loadBalancers := by
  rw [syncAddressSets]
  split
  · refine perform_keeps (P := fun db' => db'.acls = db.acls ∧
      db'.loadBalancers = db.loadBalancers) ?_ 0 ⟨rfl, rfl⟩
    intro call hCall db' h
    rcases List.mem_append.mp hCall with hCall | hCall
    · rw [mem_unlessEmpty hCall]
      exact h
    · rw [mem_unlessEmpty hCall, Call.apply]
      split
      · exact h
      · exact h
  · exact ⟨rfl, rfl⟩

theorem syncACLs_frame (connections : List Conn) :
    (syncACLs nameIndex env connections db).1.addressSets = db.addressSets ∧
      (syncACLs nameIndex env connections db).1.loadBalancers = db.loadBalancers := by
  rw [syncACLs]
  split
  · refine perform_keeps (P := fun db' => db'.addressSets = db.addressSets ∧
      db'.loadBalancers = db.loadBalancers) ?_ 0 ⟨rfl, rfl⟩
    intro call hCall db' h
    rcases List.mem_append.mp hCall with hCall | hCall
    · rw [mem_unlessEmpty hCall]
      exact h
    · rw [mem_unlessEmpty hCall]
      exact h
  · exact ⟨rfl, rfl⟩

theorem updateLoadBalancerIPs_frame (loadBalancers : List LoadBalancer)
    (hostnameToIP : String → Option String) :
    (updateLoadBalancerIPs nameIndex env loadBalancers hostnameToIP db).1.addressSets =
      db.addressSets := by
  rw [updateLoadBalancerIPs]
  split
  · refine perform_keeps (P := fun db' => db'.addressSets = db.addressSets) ?_ 0 rfl
    intro call hCall db' h
    rcases List.mem_append.mp hCall with hCall | hCall
    · obtain ⟨lb, -, rfl⟩ := List.mem_map.mp hCall
      exact h
    · obtain ⟨row, -, rfl⟩ := List.mem_map.mp hCall
      exact h
  · rfl

end Frames

section Runs

variable {sha256 : String → List UInt8} {nameIndex : Bool}

/-- One pass of either function, with what it is given and what the environment
does meanwhile. -/
inductive Pass where
  | acls (env env' : Env) (dbConns : List Connection) (hostnameToIP : String → Option String)
  | loadBalancers (env : Env) (lbs : List LoadBalancer) (hostnameToIP : String → Option String)

/-- The inputs of a pass. Nothing is asked of the environment. -/
def Pass.Valid : Pass → Prop
  | .acls _ _ _ hostnameToIP | .loadBalancers _ _ hostnameToIP =>
    KeldaHosts hostnameToIP ∧ InjectiveHosts hostnameToIP

def Pass.run (sha256 : String → List UInt8) (nameIndex : Bool) : Northbound → Pass → Northbound
  | db, .acls env env' dbConns hostnameToIP =>
    (updateACLs nameIndex env sha256 env' dbConns hostnameToIP db).1
  | db, .loadBalancers env lbs hostnameToIP =>
    (updateLoadBalancerIPs nameIndex env lbs hostnameToIP db).1

/-- What holds between any two passes. Nothing has to be known of the ACLs: their
key is the whole ACL. -/
structure Northbound.Sound (sha256 : String → List UInt8) (db : Northbound) : Prop where
  sets : SoundSets sha256 db.addressSets
  balancers : SoundBalancers db.loadBalancers

theorem sound_empty : Northbound.empty.Sound sha256 :=
  ⟨⟨by simp [Northbound.empty], by simp [Northbound.empty]⟩,
    by simp [SoundBalancers, Northbound.empty, Table.empty, Table.vals]⟩

theorem Northbound.Sound.run {db : Northbound} (h : db.Sound sha256)
    (hSha : nameIndex = true ∨ Function.Injective sha256) {pass : Pass} (hPass : pass.Valid) :
    (pass.run sha256 nameIndex db).Sound sha256 := by
  cases pass with
  | acls env env' dbConns hostnameToIP =>
      have hExp := expectedSets_resolveConnections sha256 (env.ords 0) dbConns
        hPass.1 hPass.2
      have hSets := syncAddressSets_sound env hSha h.sets hExp
      constructor
      · rw [Pass.run, updateACLs, (syncACLs_frame _).1]
        exact hSets
      · rw [Pass.run, updateACLs, (syncACLs_frame _).2, (syncAddressSets_frame _).2]
        exact h.balancers
  | loadBalancers env lbs hostnameToIP =>
      constructor
      · rw [Pass.run, updateLoadBalancerIPs_frame]
        exact h.sets
      · exact updateLoadBalancerIPs_sound nameIndex env lbs hPass.1 h.balancers

/-- The three environments of a pass over all tables. -/
structure Envs where
  loadBalancers : Env
  addressSets : Env
  acls : Env

def Envs.Reliable (envs : Envs) : Prop :=
  envs.loadBalancers.Reliable ∧ envs.addressSets.Reliable ∧ envs.acls.Reliable

/-- The load balancers and the ACLs, in the order of the network update. -/
def updateTables (sha256 : String → List UInt8) (nameIndex : Bool) (envs : Envs)
    (loadBalancers : List LoadBalancer) (dbConns : List Connection)
    (hostnameToIP : String → Option String) (db : Northbound) : Northbound × List Call :=
  let lbs := updateLoadBalancerIPs nameIndex envs.loadBalancers loadBalancers hostnameToIP db
  let acls := updateACLs nameIndex envs.addressSets sha256 envs.acls dbConns hostnameToIP lbs.1
  (acls.1, lbs.2 ++ acls.2)

variable {loadBalancers : List LoadBalancer} {dbConns : List Connection}
  {hostnameToIP : String → Option String}

/-- Every table holds exactly what is wanted. -/
structure Converged (sha256 : String → List UInt8) (loadBalancers : List LoadBalancer)
    (dbConns : List Connection) (hostnameToIP : String → Option String) (db : Northbound) :
    Prop where
  acls : ∀ ord, HoldsACLs (resolveConnections sha256 ord dbConns hostnameToIP).1 db.acls
  names : (db.addressSets.map SetRow.name).Nodup
  addressSets : ∀ ord, db.addressSets.Perm
    ((resolveConnections sha256 ord dbConns hostnameToIP).2.map SetRow.ofSet)
  loadBalancers : HoldsBalancers hostnameToIP loadBalancers db.loadBalancers

theorem resolveConnections_fst_eq (ord ord' : MapOrder) :
    (resolveConnections sha256 ord dbConns hostnameToIP).1 =
      (resolveConnections sha256 ord' dbConns hostnameToIP).1 := rfl

/-- The order of the walk over the map makes no difference for the sets. -/
theorem resolveConnections_snd_perm (ord ord' : MapOrder) :
    (resolveConnections sha256 ord dbConns hostnameToIP).2.Perm
      (resolveConnections sha256 ord' dbConns hostnameToIP).2 :=
  ((ord.perm _).trans (ord'.perm _).symm).map _

theorem updateTables_converged (nameIndex : Bool) (dbConns : List Connection) {envs : Envs}
    {db : Northbound} (hEnvs : envs.Reliable) (hDb : db.Sound sha256)
    (hHosts : KeldaHosts hostnameToIP)
    (hInj : InjectiveHosts hostnameToIP) (hLbs : DistinctLoadBalancers loadBalancers) :
    Converged sha256 loadBalancers dbConns hostnameToIP
      (updateTables sha256 nameIndex envs loadBalancers dbConns hostnameToIP db).1 := by
  have hExp := expectedSets_resolveConnections sha256 (envs.addressSets.ords 0)
    dbConns hHosts hInj
  have hBalancers := updateLoadBalancerIPs_exact nameIndex hEnvs.1 hHosts hLbs
    hDb.balancers
  rw [updateTables, updateACLs]
  set db₁ := updateLoadBalancerIPs nameIndex envs.loadBalancers loadBalancers hostnameToIP db
  have hSound : SoundSets sha256 db₁.1.addressSets := by
    rw [updateLoadBalancerIPs_frame]
    exact hDb.sets
  have hSets := syncAddressSets_exact nameIndex hEnvs.2.1 hSound hExp
  constructor
  · intro ord
    rw [resolveConnections_fst_eq ord (envs.addressSets.ords 0)]
    exact syncACLs_holds hEnvs.2.2
  · rw [(syncACLs_frame _).1, (hSets.map SetRow.name).nodup_iff]
    exact hExp.sound.names
  · intro ord
    rw [(syncACLs_frame _).1]
    exact hSets.trans ((resolveConnections_snd_perm _ ord).map _)
  · rw [(syncACLs_frame _).2, (syncAddressSets_frame _).2, holdsBalancers_iff hHosts]
    exact hBalancers

end Runs

end Kelda.Network
