import Kelda.Lib.RefTxn
import Kelda.Network.Converge

/-! The client of package ovsdb, down to the transactions that it sends. The ACLs,
ports and load balancers of OVN hang on a logical switch or router, which refers to
them by their identifiers: a call that makes one inserts its row and mutates the
switch in the same transaction, and OVSDB drops rows of most tables as soon as
nothing refers to them. While the switch exists this is the database of
`Northbound`. -/
namespace Kelda.Network

open Join RefStore UuidTable

section Schema

/-- The tables whose rows the client inserts and deletes. -/
inductive Part where
  | switchPort
  | routerPort
  | acl
  | loadBalancer
  | addressSet
deriving DecidableEq

instance : Fintype Part where
  elems := {.switchPort, .routerPort, .acl, .loadBalancer, .addressSet}
  complete := fun p => by cases p <;> decide

inductive Holder where
  | logicalSwitch
  | logicalRouter
deriving DecidableEq

/-- `ovsdb.SwitchPort` without its uuid. -/
structure SwitchPort where
  name : String
  type : String
  addresses : List String
  options : AList (fun _ : String => String)

/-- A row of the table Logical_Switch_Port. -/
structure SwitchPortRow where
  name : String
  type : String
  addresses : Finset String
  options : AList (fun _ : String => String)

/-- `ovsdb.RouterPort` without its uuid. -/
structure RouterPort where
  name : String
  mac : String
  networks : List String

/-- A row of the table Logical_Router_Port. -/
structure RouterPortRow where
  name : String
  mac : String
  networks : Finset String

abbrev PartRow : Part → Type
  | .switchPort => SwitchPortRow
  | .routerPort => RouterPortRow
  | .acl => ACLCore
  | .loadBalancer => OvnLoadBalancer
  | .addressSet => SetRow

/-- Nothing refers to address sets. They and the load balancers are roots; names are
indexed, those of address sets only in newer schemas. -/
abbrev schema (nameIndex : Bool) : Schema Part Holder where
  Row := PartRow
  holder
    | .routerPort => .logicalRouter
    | _ => .logicalSwitch
  isRoot
    | .loadBalancer | .addressSet => true
    | _ => false
  index
    | .switchPort, row => some row.name
    | .routerPort, row => some row.name
    | .addressSet, row => if nameIndex then some row.name else none
    | .acl, _ => none
    | .loadBalancer, _ => none

abbrev Server (nameIndex : Bool) := Store (schema nameIndex)

def Server.empty (nameIndex : Bool) : Server nameIndex := ⟨fun _ => .empty, fun _ => .empty⟩

end Schema

section Client

variable {nameIndex : Bool}

abbrev Transaction (nameIndex : Bool) := List (Op (schema nameIndex))

/-- Columns that the client leaves out of the row have an empty default. -/
def SwitchPortRow.ofPort (lport : SwitchPort) : SwitchPortRow where
  name := lport.name
  type := lport.type
  addresses := lport.addresses.toFinset
  options := lport.options

def RouterPortRow.ofPort (port : RouterPort) : RouterPortRow where
  name := port.name
  mac := port.mac
  networks := port.networks.toFinset

def createLogicalSwitch (lswitch : String) : Transaction nameIndex :=
  [.create .logicalSwitch lswitch]

def createSwitchPort (lswitch : String) (lport : SwitchPort) : Transaction nameIndex :=
  hangOps .switchPort lswitch [(SwitchPortRow.ofPort lport, "qlsportadd")]

def deleteSwitchPort (lswitch : String) (lport : Row SwitchPortRow) : Transaction nameIndex :=
  unhangOps .switchPort lswitch [lport.uuid]

def updateSwitchPortAddresses (lportName : String) (addresses : List String) :
    Transaction nameIndex :=
  [.update .switchPort (fun row : SwitchPortRow => row.name = lportName)
    (fun row : SwitchPortRow => { row with addresses := addresses.toFinset })]

def createLogicalRouter (lrouter : String) : Transaction nameIndex :=
  [.create .logicalRouter lrouter]

def createRouterPort (lrouter : String) (port : RouterPort) : Transaction nameIndex :=
  hangOps .routerPort lrouter [(RouterPortRow.ofPort port, "qlrportadd")]

def deleteRouterPort (lrouter : String) (lport : Row RouterPortRow) : Transaction nameIndex :=
  unhangOps .routerPort lrouter [lport.uuid]

/-- The rows of the ACLs, with the names that they have in the transaction. -/
def namedACLs (acls : List ACLCore) : List (ACLCore × String) :=
  acls.zipIdx.map (fun e => (aclRow e.1, "qacladd" ++ e.2.repr))

def createACLs (lswitch : String) (acls : List ACLCore) : Transaction nameIndex :=
  hangOps .acl lswitch (namedACLs acls)

def deleteACLs (lswitch : String) (acls : List (Row ACLCore)) : Transaction nameIndex :=
  unhangOps .acl lswitch (acls.map Row.uuid)

def createAddressSets (sets : List AddressSet) : Transaction nameIndex :=
  (sets.map SetRow.ofSet).map (fun row => .insert .addressSet row none)

def deleteAddressSets (sets : List AddressSet) : Transaction nameIndex :=
  (sets.map (fun set (row : SetRow) => decide (row.name = set.name))).map
    (Op.deleteWhere (S := schema nameIndex) .addressSet)

def createLoadBalancer (lswitch : String) (lb : OvnLoadBalancer) : Transaction nameIndex :=
  hangOps .loadBalancer lswitch [(lb, "qlbadd")]

def deleteLoadBalancer (lswitch : String) (lb : Row OvnLoadBalancer) : Transaction nameIndex :=
  unhangOps .loadBalancer lswitch [lb.uuid]

def lSwitch : String := "kelda"

def loadBalancerRouter : String := "loadBalancerRouter"

/-- The transaction of a call, on the switch of the network. -/
def Call.transaction : Call → Transaction nameIndex
  | .createACLs acls => Network.createACLs lSwitch acls
  | .deleteACLs acls => Network.deleteACLs lSwitch acls
  | .createAddressSets sets => Network.createAddressSets sets
  | .deleteAddressSets sets => Network.deleteAddressSets sets
  | .createLoadBalancer lb => Network.createLoadBalancer lSwitch lb
  | .deleteLoadBalancer lb => Network.deleteLoadBalancer lSwitch lb

/-- The transactions of the network package. -/
inductive Issued : Transaction nameIndex → Prop where
  | call (call : Call) : Issued call.transaction
  | createLogicalSwitch : Issued (Network.createLogicalSwitch lSwitch)
  | createSwitchPort (lport : SwitchPort) : Issued (Network.createSwitchPort lSwitch lport)
  | deleteSwitchPort (lport : Row SwitchPortRow) : Issued (Network.deleteSwitchPort lSwitch lport)
  | updateSwitchPortAddresses (lportName : String) (addresses : List String) :
      Issued (Network.updateSwitchPortAddresses lportName addresses)
  | createLogicalRouter : Issued (Network.createLogicalRouter loadBalancerRouter)
  | createRouterPort (port : RouterPort) :
      Issued (Network.createRouterPort loadBalancerRouter port)
  | deleteRouterPort (lport : Row RouterPortRow) :
      Issued (Network.deleteRouterPort loadBalancerRouter lport)

/-- The tables of `Northbound`, without the references to their rows. -/
def tables (st : Server nameIndex) : Northbound where
  acls := st.parts .acl
  addressSets := (st.parts .addressSet).vals
  loadBalancers := st.parts .loadBalancer

end Client

section Managed

variable {nameIndex : Bool} {st : Server nameIndex} {ops : Transaction nameIndex}

def holderName : Holder → String
  | .logicalSwitch => lSwitch
  | .logicalRouter => loadBalancerRouter

/-- What the network package never leaves. -/
structure Managed (st : Server nameIndex) : Prop where
  sound : st.Sound
  names : ∀ h, ∀ r ∈ (st.holders h).rows, r.val.name = holderName h
  sets : ∀ uuid, st.referenced .addressSet uuid = false

theorem managed_empty : Managed (Server.empty nameIndex) where
  sound := ⟨fun p r hr => by simp [Server.empty, Table.empty] at hr,
    fun p _ r hr => by simp [Server.empty, Table.empty] at hr,
    fun p => by simp [Server.empty, Table.empty, Table.vals]⟩
  names := fun h r hr => by simp [Server.empty, Table.empty] at hr
  sets := fun uuid => rfl

/-- Only rows of the same transaction are attached, and never address sets. -/
def Tame : Op (schema nameIndex) → Prop
  | .create h name => name = holderName h
  | .attach p _ (.named _) => p ≠ .addressSet
  | .attach _ _ (.uuid _) => False
  | _ => True

theorem tame_hangOps {p : Part} (hPart : p ≠ .addressSet) (owner : String)
    (rows : List (PartRow p × String)) :
    ∀ op ∈ hangOps (S := schema nameIndex) p owner rows, Tame op := by
  intro op hOp
  obtain ⟨e, -, hMem⟩ := List.mem_flatMap.mp hOp
  rcases List.mem_pair.mp hMem with rfl | rfl
  · trivial
  · exact hPart

theorem tame_unhangOps (p : Part) (owner : String) (uuids : List Nat) :
    ∀ op ∈ unhangOps (S := schema nameIndex) p owner uuids, Tame op := by
  intro op hOp
  obtain ⟨uuid, -, hMem⟩ := List.mem_flatMap.mp hOp
  rcases List.mem_pair.mp hMem with rfl | rfl <;> trivial

theorem Issued.tame (h : Issued ops) : ∀ op ∈ ops, Tame op := by
  cases h with
  | call call =>
      cases call with
      | createACLs | createLoadBalancer => exact tame_hangOps (by decide) _ _
      | deleteACLs | deleteLoadBalancer => exact tame_unhangOps _ _ _
      | createAddressSets | deleteAddressSets =>
          intro op hOp
          obtain ⟨_, -, rfl⟩ := List.mem_map.mp hOp
          trivial
  | createLogicalSwitch | createLogicalRouter => exact List.forall_mem_singleton.mpr rfl
  | updateSwitchPortAddresses => exact List.forall_mem_singleton.mpr trivial
  | createSwitchPort | createRouterPort => exact tame_hangOps (by decide) _ _
  | deleteSwitchPort | deleteRouterPort => exact tame_unhangOps _ _ _

theorem Managed.exec (h : Managed st) (hOps : Issued ops) : Managed (st.exec ops) where
  sound := Store.exec_sound h.sound
  names := Store.exec_holderNames (N := fun h name => name = holderName h) h.names
    (fun h name hOp => hOps.tame _ hOp)
  sets := by
    intro uuid
    refine Store.exec_not_referenced (fun owner ref hOp => ?_) (h.sets uuid)
    have hTame := hOps.tame _ hOp
    cases ref with
    | uuid id => exact hTame
    | named name => exact hTame rfl

theorem Managed.parts_eq (h : Managed st) {q : Part} (hOps : ∀ op ∈ ops, op.part ≠ some q) :
    (st.exec ops).parts q = st.parts q :=
  (Store.exec_frame hOps).1 (h.sound.collected q)

/-- No call attaches a row that exists already. -/
theorem Issued.loose {p : Part} {uuid : Nat} (hOps : Issued ops) (h : st.Loose p uuid) :
    (st.exec ops).Loose p uuid :=
  Store.exec_loose (fun _ _ hOp => hOps.tame _ hOp) h

end Managed

section Refinement

variable {nameIndex : Bool} {st : Server nameIndex}

theorem nodup_namedACLs (acls : List ACLCore) : ((namedACLs acls).map Prod.snd).Nodup := by
  have hNames : (namedACLs acls).map Prod.snd =
      (acls.zipIdx.map Prod.snd).map (fun i => "qacladd" ++ i.repr) := by
    rw [namedACLs, List.map_map, List.map_map]
    rfl
  rw [hNames, List.zipIdx_map_snd]
  refine List.Nodup.map (fun i j hEq => ?_) List.nodup_range'
  exact Nat.repr_inj.mp ((String.append_right_inj _).mp hEq)

theorem map_fst_namedACLs (acls : List ACLCore) :
    (namedACLs acls).map Prod.fst = acls.map aclRow := by
  have hRows : Prod.fst ∘ (fun e : ACLCore × Nat => (aclRow e.1, "qacladd" ++ e.2.repr)) =
      aclRow ∘ Prod.fst := rfl
  rw [namedACLs, List.map_map, hRows, ← List.map_map, List.zipIdx_map_fst]

theorem nodup_setIndex {nameIndex : Bool} {rows : List SetRow} :
    (rows.filterMap ((schema nameIndex).index .addressSet)).Nodup ↔
      (nameIndex = true → (rows.map SetRow.name).Nodup) := by
  cases nameIndex with
  | true => simp [List.filterMap_eq_map']
  | false => simp

/-- The table of a call. -/
@[simp]
def Call.part : Call → Part
  | .createACLs _ | .deleteACLs _ => .acl
  | .createAddressSets _ | .deleteAddressSets _ => .addressSet
  | .createLoadBalancer _ | .deleteLoadBalancer _ => .loadBalancer

theorem part_transaction (call : Call) {op : Op (schema nameIndex)} (h : op ∈ call.transaction) :
    op.part = some call.part := by
  cases call with
  | createACLs | createLoadBalancer => exact part_hangOps h
  | deleteACLs | deleteLoadBalancer => exact part_unhangOps h
  | createAddressSets | deleteAddressSets =>
      obtain ⟨e, -, rfl⟩ := List.mem_map.mp h
      rfl

/-- Every other table is left alone. -/
theorem Managed.call_parts (h : Managed st) (call : Call) {p : Part} (hPart : call.part ≠ p) :
    (st.exec call.transaction).parts p = st.parts p :=
  h.parts_eq (fun _ hOp hEq => hPart (Option.some.inj ((part_transaction call hOp).symm.trans hEq)))

theorem same_tables {nb nb' : Northbound} {cond : Prop} (h : nb = nb') :
    nb.addressSets = nb'.addressSets ∧ nb.loadBalancers = nb'.loadBalancers ∧ (cond → nb = nb') := by
  subst h
  exact ⟨rfl, rfl, fun _ => rfl⟩

/-- The switch has exactly the rows that its calls made. Whether or not it exists
makes a difference for the ACLs only. -/
theorem tables_exec (h : Managed st) (call : Call) :
    (tables (st.exec call.transaction)).addressSets =
        (call.apply nameIndex (tables st)).addressSets ∧
      (tables (st.exec call.transaction)).loadBalancers =
        (call.apply nameIndex (tables st)).loadBalancers ∧
      (st.HasHolder .logicalSwitch lSwitch → tables (st.exec call.transaction) =
        call.apply nameIndex (tables st)) := by
  have hSwitch : ∀ r ∈ (st.holders .logicalSwitch).rows, r.val.name = lSwitch :=
    h.names .logicalSwitch
  have hFrame : ∀ p, call.part ≠ p → (st.exec call.transaction).parts p = st.parts p :=
    fun p hPart => h.call_parts call hPart
  cases call with
  | createACLs acls =>
      have hSets := hFrame .addressSet (by simp)
      have hBalancers := hFrame .loadBalancer (by simp)
      refine ⟨congrArg Table.vals hSets, hBalancers, fun hHolder => ?_⟩
      have hExec : st.exec (createACLs lSwitch acls) =
          st.hangAll .acl lSwitch ((namedACLs acls).map Prod.fst) :=
        Store.exec_hangOps_holder h.sound (nodup_namedACLs acls) (by simp [schema]) hHolder
      have hACLs : (st.exec (createACLs lSwitch acls)).parts .acl =
          (st.parts .acl).insert (acls.map aclRow) := by
        rw [hExec, map_fst_namedACLs]
        exact Store.hangAll_parts_same _
      rw [tables, hSets, hBalancers]
      exact congrArg (fun acls => Northbound.mk acls _ _) hACLs
  | deleteACLs acls =>
      have hExec : st.exec (deleteACLs lSwitch acls) =
          st.unhangAll .acl lSwitch (acls.map Row.uuid) := Store.exec_unhangOps h.sound hSwitch
      refine same_tables ?_
      rw [tables, hFrame .addressSet (by simp), hFrame .loadBalancer (by simp), Call.transaction,
        hExec, Store.unhangAll_parts_same]
      rfl
  | createAddressSets sets =>
      refine same_tables ?_
      rw [tables, hFrame .acl (by simp), hFrame .loadBalancer (by simp), Call.transaction,
        createAddressSets, Store.exec_setParts (Store.foldlM_insert _ _) h.sound rfl h.sets,
        Table.vals_insert, Call.apply]
      by_cases hIndex : nameIndex = true ∧
          ¬(((st.parts .addressSet).vals ++ sets.map SetRow.ofSet).map SetRow.name).Nodup
      · rw [if_neg (fun hOk => hIndex.2 (nodup_setIndex.mp hOk hIndex.1))]
        exact (if_pos hIndex).symm
      · rw [if_pos (nodup_setIndex.mpr (fun hName => not_not.mp (fun hDup => hIndex ⟨hName, hDup⟩)))]
        refine Eq.trans ?_ (if_neg hIndex).symm
        rw [Store.setParts_same, Table.vals_insert]
        rfl
  | deleteAddressSets sets =>
      refine same_tables ?_
      rw [tables, hFrame .acl (by simp), hFrame .loadBalancer (by simp), Call.transaction,
        deleteAddressSets, Store.exec_setParts (Store.foldlM_deleteWhere _ _) h.sound rfl h.sets,
        if_pos, Store.setParts_same, Table.vals_deleteWhere]
      · simp only [Call.apply, tables, Northbound.mk.injEq, true_and, and_true]
        refine List.filter_congr (fun row _ => ?_)
        rw [Bool.eq_iff_iff]
        simp [@eq_comm _ row.name]
      · rw [Table.vals_deleteWhere]
        exact (h.sound.indexed .addressSet).sublist (List.filter_sublist.filterMap _)
  | createLoadBalancer lb =>
      have hExec : st.exec (createLoadBalancer lSwitch lb) =
          (st.hangAll .loadBalancer lSwitch [lb]).collect :=
        Store.exec_hangOps h.sound (by simp) (by simp)
      refine same_tables ?_
      rw [tables, hFrame .acl (by simp), hFrame .addressSet (by simp), Call.transaction, hExec,
        Store.collect_parts (by simp), Store.hangAll_parts_same]
      rfl
  | deleteLoadBalancer lb =>
      have hExec : st.exec (deleteLoadBalancer lSwitch lb) =
          st.unhangAll .loadBalancer lSwitch [lb.uuid] := Store.exec_unhangOps h.sound hSwitch
      refine same_tables ?_
      rw [tables, hFrame .acl (by simp), hFrame .addressSet (by simp), Call.transaction, hExec,
        Store.unhangAll_parts_same]
      rfl

/-- The transactions one after another, as `perform` does it with calls. -/
def performAll (env : Env) : Nat → List (Transaction nameIndex) → Server nameIndex →
    Server nameIndex
  | _, [], st => st
  | n, ops :: calls, st =>
    performAll env (n + 1) calls (if env.succeeds n then st.exec ops else st)

variable {env : Env}

/-- What every transaction keeps is kept, whichever of them fail. -/
theorem performAll_keeps {P : Server nameIndex → Prop} {calls : List (Transaction nameIndex)}
    (hCall : ∀ ops ∈ calls, ∀ st, P st → P (st.exec ops)) (n : Nat) (h : P st) :
    P (performAll env n calls st) := by
  induction calls generalizing n st with
  | nil => exact h
  | cons ops calls ih =>
      apply ih (fun ops' hMem => hCall ops' (List.mem_cons_of_mem _ hMem))
      split
      · exact hCall ops List.mem_cons_self st h
      · exact h

theorem performAll_reliable (h : env.Reliable) (n : Nat) (calls : List (Transaction nameIndex))
    (st : Server nameIndex) : performAll env n calls st = calls.foldl Store.exec st := by
  induction calls generalizing n st with
  | nil => rfl
  | cons ops calls ih => rw [performAll, h.2 n, if_pos rfl, ih, List.foldl_cons]

/-- Two databases that differ in their ACLs only. -/
def SameButACLs (db db' : Northbound) : Prop :=
  db.addressSets = db'.addressSets ∧ db.loadBalancers = db'.loadBalancers

theorem SameButACLs.apply (nameIndex : Bool) {db db' : Northbound} (h : SameButACLs db db')
    (call : Call) :
    SameButACLs (call.apply nameIndex db) (call.apply nameIndex db') := by
  obtain ⟨acls, sets, lbs⟩ := db
  obtain ⟨acls', sets', lbs'⟩ := db'
  obtain ⟨rfl, rfl⟩ : sets = sets' ∧ lbs = lbs' := h
  cases call with
  | createAddressSets news =>
      simp only [Call.apply]
      split
      · exact ⟨rfl, rfl⟩
      · exact ⟨rfl, rfl⟩
  | createACLs | deleteACLs | deleteAddressSets | createLoadBalancer | deleteLoadBalancer =>
      exact ⟨rfl, rfl⟩

/-- Without the switch, ACLs are lost; the other tables are as `Northbound` has
them. -/
theorem tables_performAll_same (h : Managed st) (n : Nat) (calls : List Call) {db : Northbound}
    (hDb : SameButACLs (tables st) db) :
    SameButACLs (tables (performAll env n (calls.map Call.transaction) st))
      (perform nameIndex env n calls db) := by
  induction calls generalizing n st db with
  | nil => exact hDb
  | cons call calls ih =>
      rw [List.map_cons, performAll, perform]
      cases env.succeeds n with
      | false => exact ih h (n + 1) hDb
      | true =>
          obtain ⟨hSets, hBalancers, -⟩ := tables_exec h call
          have hCall := hDb.apply nameIndex call
          exact ih (h.exec (.call call)) (n + 1)
            ⟨hSets.trans hCall.1, hBalancers.trans hCall.2⟩

/-- While the switch exists, transactions do to the tables what the calls do. -/
theorem tables_performAll (h : Managed st) (hSwitch : st.HasHolder .logicalSwitch lSwitch)
    (n : Nat) (calls : List Call) :
    tables (performAll env n (calls.map Call.transaction) st) =
      perform nameIndex env n calls (tables st) := by
  induction calls generalizing n st with
  | nil => rfl
  | cons call calls ih =>
      rw [List.map_cons, performAll, perform]
      cases env.succeeds n with
      | false => exact ih h hSwitch (n + 1)
      | true =>
          have hCall := (tables_exec h call).2.2 hSwitch
          refine (ih (h.exec (.call call)) (Store.exec_hasHolder hSwitch) (n + 1)).trans ?_
          rw [hCall]
          rfl

/-- While the switch exists, its load balancers are attached to it. -/
theorem Issued.hangs {ops : Transaction nameIndex} (hOps : Issued ops) (h : Managed st)
    (hSwitch : st.HasHolder .logicalSwitch lSwitch) (hLbs : st.Hangs .loadBalancer) :
    (st.exec ops).Hangs .loadBalancer := by
  have hFrame : ∀ {ops : Transaction nameIndex} {p : Option Part}, (∀ op ∈ ops, op.part = p) →
      p ≠ some .loadBalancer → (st.exec ops).Hangs .loadBalancer := fun hPart hNe =>
    (Store.exec_frame (fun op hOp => hPart op hOp ▸ hNe)).2 hLbs
  cases hOps with
  | call call =>
      by_cases hPart : call.part = .loadBalancer
      · cases call with
        | createLoadBalancer lb => exact Store.exec_hangOps_hangs (by simp) hLbs hSwitch
        | deleteLoadBalancer lb =>
            have hExec : st.exec (deleteLoadBalancer lSwitch lb) =
                st.unhangAll .loadBalancer lSwitch [lb.uuid] :=
              Store.exec_unhangOps h.sound (h.names .logicalSwitch)
            exact hExec ▸ Store.unhangAll_hangs hLbs _
        | _ => cases hPart
      · exact hFrame (fun op hOp => part_transaction call hOp) (fun hEq => hPart (Option.some.inj hEq))
  | createSwitchPort | createRouterPort => exact hFrame (fun op => part_hangOps) (by decide)
  | deleteSwitchPort | deleteRouterPort => exact hFrame (fun op => part_unhangOps) (by decide)
  | createLogicalSwitch | createLogicalRouter | updateSwitchPortAddresses =>
      exact hFrame (List.forall_mem_singleton.mpr rfl) (by simp [Op.part])

end Refinement

end Kelda.Network
