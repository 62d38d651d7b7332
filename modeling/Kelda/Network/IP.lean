import Kelda.DB.Database
import Kelda.Lib.Allocation
import Kelda.Minion.IPDef

/-! Addresses of containers and load balancers. Every owner of an address that
has none, or one within a route of a worker, is given a random address of the
container subnet. -/
namespace Kelda.Network

open DB Net IPDef

/-- The rows that hold an address. Their tables are treated alike. -/
inductive Owner where
  | container
  | loadBalancer
deriving DecidableEq, Repr

namespace Owner

abbrev table : Owner → TableType
  | .container => .container
  | .loadBalancer => .loadBalancer

def ip : (o : Owner) → RowOf o.table → String
  | .container, dbc => dbc.ip
  | .loadBalancer, dbl => dbl.ip

def withIP : (o : Owner) → String → RowOf o.table → RowOf o.table
  | .container, ip, dbc => { dbc with ip }
  | .loadBalancer, ip, dbl => { dbl with ip }

variable {o : Owner} {ip ip' : String} {r : RowOf o.table}

@[simp] theorem ip_withIP : o.ip (o.withIP ip r) = ip := by
  cases o <;> rfl

@[simp] theorem withIP_withIP : o.withIP ip (o.withIP ip' r) = o.withIP ip r := by
  cases o <;> rfl

@[simp] theorem withIP_ip : o.withIP (o.ip r) r = r := by
  cases o <;> rfl

@[simp] theorem getID_withIP : getID o.table (o.withIP ip r) = getID o.table r := by
  cases o <;> rfl

end Owner

section Blacklist

def subnetIntersects (a b : IPNet) : Bool := a.contains b.ip || b.contains a.ip

/-- Parse one host subnet, and keep it if it meets the container subnet. -/
def addSubnet (subnetBlacklist : List IPNet) (subnetStr : String) : Except String (List IPNet) :=
  match parseCIDR subnetStr with
  | .error err => .error ("parse subnet " ++ subnetStr ++ ": " ++ err)
  | .ok subnet =>
    if subnetIntersects keldaSubnet subnet then .ok (subnetBlacklist ++ [subnet])
    else .ok subnetBlacklist

/-- The subnets that are governed by routes of a worker and meet the container
subnet. -/
def makeSubnetBlacklist (ords : Nat → MapOrder) (view : Database) : Except String (List IPNet) :=
  let isWorker := fun m : Minion => decide (m.role = .worker)
  let subnets := (view.select (ords 0) .minion isWorker).foldl
    (fun subnets m => m.hostSubnets.foldl (fun subnets subnet => subnets.insert subnet) subnets) []
  ((ords 1).walk subnets).foldlM addSubnet []

def ipBlacklisted (ip : String) (subnetBlacklist : List IPNet) : Bool :=
  subnetBlacklist.any (fun subnet => subnet.contains (parseIP ip))

end Blacklist

section Context

/-- The addresses that are taken, and the rows that require new ones. -/
structure IPContext where
  reserved : Finset String
  unassignedContainers : List Container
  unassignedLoadBalancers : List LoadBalancer

/-- The gateway, the load balancer router and, while not strictly required,
`10.0.0.0`. -/
def reservedIPs : Finset String :=
  {gatewayIP.text, loadBalancerIP.text, IPv4.text ⟨10, 0, 0, 0⟩}

/-- A blacklisted address is forgotten in memory only. -/
def addOwner (o : Owner) (subnetBlacklist : List IPNet) :
    Finset String × List (RowOf o.table) → RowOf o.table → Finset String × List (RowOf o.table)
  | (reserved, unassigned), r =>
    let r := if o.ip r ≠ "" ∧ ipBlacklisted (o.ip r) subnetBlacklist then o.withIP "" r else r
    if o.ip r ≠ "" then (insert (o.ip r) reserved, unassigned)
    else (reserved, unassigned ++ [r])

/-- The loop over one of the tables. -/
def addOwners (o : Owner) (ord : MapOrder) (view : Database) (subnetBlacklist : List IPNet)
    (reserved : Finset String) : Finset String × List (RowOf o.table) :=
  (view.selectAll ord o.table).foldl (addOwner o subnetBlacklist) (reserved, [])

def makeIPContext (ords : Nat → MapOrder) (view : Database) (subnetBlacklist : List IPNet) :
    IPContext :=
  let (reserved, unassignedContainers) :=
    addOwners .container (ords 0) view subnetBlacklist reservedIPs
  let (reserved, unassignedLoadBalancers) :=
    addOwners .loadBalancer (ords 1) view subnetBlacklist reserved
  ⟨reserved, unassignedContainers, unassignedLoadBalancers⟩

end Context

section AllocateIP

/-- The big endian number of four bytes; there is none in a shorter slice. -/
def uint32 : List UInt8 → Except String UInt32
  | a :: b :: c :: d :: _ =>
    .ok (a.toUInt32 <<< 24 ||| b.toUInt32 <<< 16 ||| c.toUInt32 <<< 8 ||| d.toUInt32)
  | _ => .error "runtime error: index out of range"

/-- The address whose four bytes are a big endian number. -/
def putUint32 (v : UInt32) : IPv4 :=
  ⟨(v >>> 24).toUInt8.toFin, (v >>> 16).toUInt8.toFin, (v >>> 8).toUInt8.toFin, v.toUInt8.toFin⟩

/-- The address at an offset from the start, around the end of the subnet. -/
def candidate (network mask randStart offset : UInt32) : String :=
  (putUint32 (((randStart + offset) &&& ~~~mask) ||| (network &&& mask))).text

/-- The first address that is not in the set, of so many from an offset on. -/
def probe (network mask randStart : UInt32) (ipSet : Finset String) : Nat → UInt32 → Option String
  | 0, _ => none
  | left + 1, offset =>
    let randIPStr := candidate network mask randStart offset
    if randIPStr ∈ ipSet then probe network mask randStart ipSet left (offset + 1)
    else some randIPStr

/-- An address of the subnet that is not in the set, and the set with it. The
first argument is the random number that is drawn. A mask without bits would
let the offset run over; the subnet here is smaller. -/
def allocateIP (rand32 : UInt32) (ipSet : Finset String) (subnet : IPNet) :
    Except String (Except String (String × Finset String)) := do
  let network ← uint32 subnet.ip.to4
  let mask ← uint32 subnet.mask
  match probe network mask (rand32 &&& ~~~mask) ipSet ((~~~mask).toNat + 1) 0 with
  | some ip => .ok (.ok (ip, insert ip ipSet))
  | none => .ok (.error "IP pool exhausted")

end AllocateIP

section Allocate

/-- The variables of an attempt: the view, the set of the context and the
number of random numbers drawn so far. -/
structure AllocState where
  view : Database
  reserved : Finset String
  draws : Nat

/-- The loop of the two functions below. Rows committed before an error stay. -/
def allocateIPs (o : Owner) (rand32 : Nat → UInt32) :
    List (RowOf o.table) → AllocState → Except String (Option String × AllocState)
  | [], s => .ok (none, s)
  | r :: rs, s => do
    match ← allocateIP (rand32 s.draws) s.reserved keldaSubnet with
    | .error err => .ok (some err, { s with draws := s.draws + 1 })
    | .ok (ip, reserved) =>
      let view ← s.view.commit o.table (o.withIP ip r)
      allocateIPs o rand32 rs ⟨view, reserved, s.draws + 1⟩

def allocateContainerIPs (rand32 : Nat → UInt32) :
    List Container → AllocState → Except String (Option String × AllocState) :=
  allocateIPs .container rand32

def allocateLoadBalancerIPs (rand32 : Nat → UInt32) :
    List LoadBalancer → AllocState → Except String (Option String × AllocState) :=
  allocateIPs .loadBalancer rand32

/-- Containers first, and load balancers unless that failed. -/
def allocateAll (rand32 : Nat → UInt32) (ctx : IPContext) (view : Database) (draws : Nat) :
    Except String (Option String × AllocState) := do
  match ← allocateContainerIPs rand32 ctx.unassignedContainers ⟨view, ctx.reserved, draws⟩ with
  | (some err, s) => .ok (some err, s)
  | (none, s) => allocateLoadBalancerIPs rand32 ctx.unassignedLoadBalancers s

/-- So many attempts, in case an address within a blacklisted subnet is chosen.
The error is that of the last attempt. -/
def updateIPsLoop (ords : Nat → MapOrder) (rand32 : Nat → UInt32)
    (subnetBlacklist : List IPNet) :
    Nat → Option String → Database → Nat → Except String (Option String × Database)
  | 0, err, view, _ => .ok (err, view)
  | left + 1, _, view, draws =>
    let ctx := makeIPContext (fun k => ords (2 * left + k)) view subnetBlacklist
    if ctx.unassignedContainers = [] ∧ ctx.unassignedLoadBalancers = [] then .ok (none, view)
    else do
      let (err, s) ← allocateAll rand32 ctx view draws
      updateIPsLoop ords rand32 subnetBlacklist left err s.view s.draws

/-- The error that is returned, and the view. -/
def updateIPsOnce (ords : Nat → MapOrder) (rand32 : Nat → UInt32) (view : Database) :
    Except String (Option String × Database) :=
  match makeSubnetBlacklist ords view with
  | .error err => .ok (some ("make subnet blacklist: " ++ err), view)
  | .ok subnetBlacklist =>
    updateIPsLoop (fun k => ords (2 + k)) rand32 subnetBlacklist 3 none view 0

end Allocate

end Kelda.Network
