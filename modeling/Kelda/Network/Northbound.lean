import Kelda.Join.HashJoin
import Kelda.Lib.UuidTable
import Kelda.Network.ACL

/-! The northbound database of OVN, as far as the client of package ovsdb writes
ACLs, address sets and load balancers, and the functions that bring its tables in
line with the connections and load balancers of a deployment. A function lists a
table, joins what it found with what it wants and issues the mutations that are
missing; each of them may fail, and the function goes on. -/
namespace Kelda.Network

open DB Join UuidTable

section Database

/-- A row of the table Address_Set. The addresses are a set of OVSDB, without
order and repetition. -/
structure SetRow where
  name : String
  addresses : Finset String
deriving DecidableEq

/-- `ovsdb.LoadBalancer` without its uuid. -/
structure OvnLoadBalancer where
  name : String
  vips : AList (fun _ : String => String)

/-- The tables of a database that has the logical switch of the network. -/
structure Northbound where
  acls : Table ACLCore
  addressSets : List SetRow
  loadBalancers : Table OvnLoadBalancer

def Northbound.empty : Northbound := ⟨.empty, [], .empty⟩

/-- The mutations of the client. ACLs and load balancers are deleted by their
uuids, address sets by their names. -/
inductive Call where
  | createACLs (acls : List ACLCore)
  | deleteACLs (acls : List (Row ACLCore))
  | createAddressSets (sets : List AddressSet)
  | deleteAddressSets (sets : List AddressSet)
  | createLoadBalancer (lb : OvnLoadBalancer)
  | deleteLoadBalancer (lb : Row OvnLoadBalancer)

/-- The row that is inserted for an ACL. A negative priority becomes zero, and a
wildcard leaves the match to its default. -/
def aclRow (acl : ACLCore) : ACLCore :=
  { acl with
    priority := max 0 acl.priority
    matchText := if acl.matchText = "*" then "" else acl.matchText }

def SetRow.ofSet (set : AddressSet) : SetRow := ⟨set.name, set.addresses.toFinset⟩

/-- The effect of a mutation that does not fail, given that the switch exists: it
keeps the ACLs that are attached to it, and without it OVSDB would drop them. With
`nameIndex` the schema has an index on the names of address sets, and the database
refuses a transaction that would repeat one. -/
def Call.apply (nameIndex : Bool) : Call → Northbound → Northbound
  | .createACLs acls, db => { db with acls := db.acls.insert (acls.map aclRow) }
  | .deleteACLs acls, db => { db with acls := db.acls.delete (acls.map Row.uuid) }
  | .createAddressSets sets, db =>
    let rows := db.addressSets ++ sets.map SetRow.ofSet
    if nameIndex ∧ ¬(rows.map SetRow.name).Nodup then db else { db with addressSets := rows }
  | .deleteAddressSets sets, db =>
    { db with
      addressSets := db.addressSets.filter (fun r => r.name ∉ sets.map AddressSet.name) }
  | .createLoadBalancer lb, db => { db with loadBalancers := db.loadBalancers.insert [lb] }
  | .deleteLoadBalancer lb, db => { db with loadBalancers := db.loadBalancers.delete [lb.uuid] }

/-- What the environment decides while a function runs: the orders in which it
meets the entries of maps and the rows of replies, whether its table can be
listed, and which of its mutations succeed. -/
structure Env where
  ords : Nat → MapOrder
  listed : Bool
  succeeds : Nat → Bool

/-- No call of the client fails. -/
def Env.Reliable (env : Env) : Prop := env.listed = true ∧ ∀ n, env.succeeds n = true

/-- The mutations one after another, from the `n`th of the function on. -/
def perform (nameIndex : Bool) (env : Env) : Nat → List Call → Northbound → Northbound
  | _, [], db => db
  | n, call :: calls, db =>
    perform nameIndex env (n + 1) calls (if env.succeeds n then call.apply nameIndex db else db)

/-- A call that is left out if there is nothing to do. -/
def unlessEmpty {α : Type} (call : List α → Call) (xs : List α) : List Call :=
  if xs.length > 0 then [call xs] else []

end Database

section Functions

variable (nameIndex : Bool) (env : Env)

/-- `ListAddressSets`. The rows and the addresses of each come in any order. -/
def listAddressSets (db : Northbound) : List AddressSet :=
  ((env.ords 1).walk db.addressSets).map
    (fun r => ⟨r.name, (env.ords 2).walk (elements r.addresses)⟩)

/-- The addresses are sorted and joined with the name. -/
def addressSetKey (set : AddressSet) : String :=
  String.join (sortStrings set.addresses ++ [set.name])

/-- The mutations that `syncAddressSets` issues, and what they leave. -/
def syncAddressSets (expSets : List AddressSet) (db : Northbound) : Northbound × List Call :=
  if env.listed then
    let joined := hashJoin (env.ords 3) expSets (listAddressSets env db) addressSetKey addressSetKey
    let calls := unlessEmpty .deleteAddressSets joined.lonelyRights ++
      unlessEmpty .createAddressSets joined.lonelyLefts
    (perform nameIndex env 0 calls db, calls)
  else (db, [])

def listACLs (db : Northbound) : List (Row ACLCore) := (env.ords 1).walk db.acls.rows

def syncACLs (connections : List Conn) (db : Northbound) : Northbound × List Call :=
  if env.listed then
    let joined := hashJoin (env.ords 3) (expectedACLs connections) (listACLs env db) id Row.val
    let calls := unlessEmpty .deleteACLs joined.lonelyRights ++
      unlessEmpty .createACLs joined.lonelyLefts
    (perform nameIndex env 0 calls db, calls)
  else (db, [])

/-- `updateACLs`: first the address sets, in the environment `env`, then the ACLs,
in `env'`. -/
def updateACLs (sha256 : String → List UInt8) (env' : Env) (dbConns : List Connection)
    (hostnameToIP : String → Option String) (db : Northbound) : Northbound × List Call :=
  let resolved := resolveConnections sha256 (env.ords 0) dbConns hostnameToIP
  let sets := syncAddressSets nameIndex env resolved.2 db
  let acls := syncACLs nameIndex env' resolved.1 sets.1
  (acls.1, sets.2 ++ acls.2)

/-- The addresses behind a load balancer. A hostname without address is left out. -/
def loadBalancedIPs (hostnameToIP : String → Option String) (hostnames : List String) :
    List String :=
  sortStrings ((hostnames.map (fun h => (hostnameToIP h).getD "")).filter (· ≠ ""))

def targetLoadBalancer (hostnameToIP : String → Option String) (lb : LoadBalancer) :
    OvnLoadBalancer where
  name := lb.name
  vips := AList.singleton lb.ip (",".intercalate (loadBalancedIPs hostnameToIP lb.hostnames))

def loadBalancerKey (ord : MapOrder) (lb : OvnLoadBalancer) : String × String :=
  (lb.name, Str.mapAsString ord lb.vips)

def listLoadBalancers (db : Northbound) : List (Row OvnLoadBalancer) :=
  (env.ords 1).walk db.loadBalancers.rows

/-- The missing load balancers are created before the others are removed, each by
a call of its own. -/
def updateLoadBalancerIPs (loadBalancers : List LoadBalancer)
    (hostnameToIP : String → Option String) (db : Northbound) : Northbound × List Call :=
  if env.listed then
    let target := loadBalancers.map (targetLoadBalancer hostnameToIP)
    let key := loadBalancerKey (env.ords 2)
    let joined := hashJoin (env.ords 3) target (listLoadBalancers env db) key (key ∘ Row.val)
    let calls := joined.lonelyLefts.map .createLoadBalancer ++
      joined.lonelyRights.map .deleteLoadBalancer
    (perform nameIndex env 0 calls db, calls)
  else (db, [])

end Functions

section Perform

variable {nameIndex : Bool} {env : Env}

theorem perform_append (n : Nat) (calls calls' : List Call) (db : Northbound) :
    perform nameIndex env n (calls ++ calls') db =
      perform nameIndex env (n + calls.length) calls' (perform nameIndex env n calls db) := by
  induction calls generalizing n db with
  | nil => rfl
  | cons call calls ih =>
      rw [List.cons_append, perform, ih, perform, List.length_cons]
      congr 1
      omega

/-- What every mutation keeps is kept, whichever of them fail. -/
theorem perform_keeps {P : Northbound → Prop} {calls : List Call}
    (hCall : ∀ call ∈ calls, ∀ db, P db → P (call.apply nameIndex db)) (n : Nat)
    {db : Northbound} (h : P db) : P (perform nameIndex env n calls db) := by
  induction calls generalizing n db with
  | nil => exact h
  | cons call calls ih =>
      apply ih (fun call' hMem => hCall call' (List.mem_cons_of_mem _ hMem))
      split
      · exact hCall call List.mem_cons_self db h
      · exact h

theorem perform_reliable (h : env.Reliable) (n : Nat) (calls : List Call) (db : Northbound) :
    perform nameIndex env n calls db =
      calls.foldl (fun db call => call.apply nameIndex db) db := by
  induction calls generalizing n db with
  | nil => rfl
  | cons call calls ih => rw [perform, h.2 n, if_pos rfl, ih, List.foldl_cons]

theorem foldl_unlessEmpty {α : Type} {call : List α → Call} {db : Northbound}
    (hNone : (call []).apply nameIndex db = db) (xs : List α) :
    (unlessEmpty call xs).foldl (fun db call => call.apply nameIndex db) db =
      (call xs).apply nameIndex db := by
  cases xs with
  | nil => exact hNone.symm
  | cons x xs => rfl

theorem perform_unlessEmpty {α : Type} (nameIndex : Bool) (env : Env) (call : List α → Call)
    (xs : List α) (n : Nat) (db : Northbound) :
    perform nameIndex env n (unlessEmpty call xs) db = db ∨
      perform nameIndex env n (unlessEmpty call xs) db = (call xs).apply nameIndex db := by
  cases xs with
  | nil => exact .inl rfl
  | cons x xs =>
      change (if env.succeeds n then _ else _) = db ∨ (if env.succeeds n then _ else _) = _
      cases env.succeeds n with
      | true => exact .inr rfl
      | false => exact .inl rfl

theorem mem_unlessEmpty {α : Type} {call : List α → Call} {xs : List α} {c : Call}
    (h : c ∈ unlessEmpty call xs) : c = call xs := by
  cases xs with
  | nil => cases h
  | cons x xs => exact List.mem_singleton.mp h

end Perform

end Kelda.Network
