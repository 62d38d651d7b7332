import Kelda.DB.Loops
import Kelda.Join.HashJoin
import Kelda.Util.Str

/-! The policy engine of the minion. Each function reconciles one table with
the blueprint through a hash join. Every walk over a map has its own order:
a function numbers its walks, and the caller gives it a family of orders. A
panic is an error with the text of the source. -/
namespace Kelda.Minion

open DB Join

/-- True if the minion is the lead master for the cluster. -/
def etcdLeader (ord : MapOrder) (view : Database) : Bool :=
  match view.selectAll ord .etcd with
  | [etcd] => etcd.leader
  | _ => false

/-- The images found so far, with the set of them, and one more container. -/
def addImage : List Blueprint.Image × Finset Blueprint.Image → Blueprint.Container →
    List Blueprint.Image × Finset Blueprint.Image
  | (images, addedImages), c =>
    if c.image.dockerfile = "" ∨ c.image ∈ addedImages then (images, addedImages)
    else (images ++ [c.image], insert c.image addedImages)

/-- The images to build, each once and in the order of the containers. -/
def queryImages (bp : Blueprint) : List Blueprint.Image :=
  (bp.containers.foldl addImage ([], ∅)).1

def dbImageKey (im : Image) : Blueprint.Image := ⟨im.name, im.dockerfile⟩

def fillImage (im : Blueprint.Image) (r : Image) : Image :=
  { r with name := im.name, dockerfile := im.dockerfile }

/-- The left key function is nil in the source. -/
def updateImages (ords : Nat → MapOrder) (view : Database) (bp : Blueprint) :
    Except String Database := do
  let res := hashJoin (ords 1) (queryImages bp) (view.selectAll (ords 0) .image) id dbImageKey
  let view ← view.addAll .image fillImage res.lonelyLefts
  pure (view.removeAll .image res.lonelyRights)

/-- The row that a blueprint container asks for. -/
def containerRow (c : Blueprint.Container) : Container where
  id := 0
  blueprintID := c.id
  command := c.command
  env := c.env
  filepathToContent := c.filepathToContent
  image := c.image.name
  dockerfile := c.image.dockerfile
  hostname := c.hostname
  privileged := c.privileged
  volumeMounts := c.volumeMounts

/-- The rows of the blueprint, by hostname. A later container replaces an
earlier one with the same hostname. -/
def queryContainers (ord : MapOrder) (bp : Blueprint) : List Container :=
  let containers := KeyedMap.fill Container.hostname (bp.containers.map containerRow)
  (ord.walk containers.entries).map Sigma.snd

/-- Copy the fields of the policy; the others are left to the cluster. -/
def mergeContainer (newc dbc : Container) : Container :=
  { dbc with
    command := newc.command
    image := newc.image
    dockerfile := newc.dockerfile
    env := newc.env
    filepathToContent := newc.filepathToContent
    blueprintID := newc.blueprintID
    hostname := newc.hostname
    privileged := newc.privileged
    volumeMounts := newc.volumeMounts }

def updateContainers (ords : Nat → MapOrder) (view : Database) (bp : Blueprint) :
    Except String Database :=
  let res := hashJoin (ords 2) (queryContainers (ords 0) bp) (view.selectAll (ords 1) .container)
    Container.blueprintID Container.blueprintID
  let view := view.removeAll .container res.lonelyRights
  let (news, view) := view.insertAll .container res.lonelyLefts
  view.commitAll .container mergeContainer (res.pairs ++ news)

/-- The row that a blueprint load balancer asks for. -/
def loadBalancerRow (lb : Blueprint.LoadBalancer) : LoadBalancer where
  id := 0
  name := lb.name
  hostnames := lb.hostnames

/-- Modify the original row, so that whatever IP it has been allocated is
preserved. -/
def mergeLoadBalancer (bpLoadBalancer dbLoadBalancer : LoadBalancer) : LoadBalancer :=
  { dbLoadBalancer with
    name := bpLoadBalancer.name
    hostnames := bpLoadBalancer.hostnames }

def updateLoadBalancers (ords : Nat → MapOrder) (view : Database) (bp : Blueprint) :
    Except String Database :=
  let res := hashJoin (ords 1) (bp.loadBalancers.map loadBalancerRow)
    (view.selectAll (ords 0) .loadBalancer) LoadBalancer.name LoadBalancer.name
  let view := view.removeAll .loadBalancer res.lonelyRights
  let (news, view) := view.insertAll .loadBalancer res.lonelyLefts
  view.commitAll .loadBalancer mergeLoadBalancer (res.pairs ++ news)

/-- The load balancers by name. -/
def loadBalancerMap (bp : Blueprint) : AList (fun _ : String => Blueprint.LoadBalancer) :=
  KeyedMap.fill Blueprint.LoadBalancer.name bp.loadBalancers

/-- The connections of the blueprint, followed by those to the containers
behind the load balancers. The loop ranges over the original slice, so the
added connections are not expanded again. -/
def expandConnections (bp : Blueprint) : List Blueprint.Connection :=
  bp.connections ++ bp.connections.flatMap (fun c =>
    c.toHosts.filterMap (fun dst =>
      ((loadBalancerMap bp).lookup dst).map (fun lb => { c with toHosts := lb.hostnames })))

/-- The format of both key functions of `updateConnections`. -/
def connectionKey (fromHosts toHosts : List String) (minPort maxPort : Int) : String :=
  Str.formatSlice fromHosts ++ " " ++ Str.formatSlice toHosts ++ " " ++ minPort.repr ++ " " ++
    maxPort.repr

def dbcKey (c : Connection) : String :=
  connectionKey c.fromHosts c.toHosts c.minPort c.maxPort

def bpKey (c : Blueprint.Connection) : String :=
  connectionKey c.fromHosts c.toHosts c.minPort c.maxPort

def fillConnection (bpc : Blueprint.Connection) (dbc : Connection) : Connection :=
  { dbc with
    fromHosts := bpc.fromHosts
    toHosts := bpc.toHosts
    minPort := bpc.minPort
    maxPort := bpc.maxPort }

def updateConnections (ords : Nat → MapOrder) (view : Database) (bp : Blueprint) :
    Except String Database :=
  let res := hashJoin (ords 1) (expandConnections bp) (view.selectAll (ords 0) .connection)
    bpKey dbcKey
  let view := view.removeAll .connection res.lonelyRights
  view.addAll .connection fillConnection res.lonelyLefts

/-- Only the smaller port of a public connection counts. -/
def addPublicPort (ports : AList (fun _ : Int => List String)) (conn : Connection) :
    AList (fun _ : Int => List String) :=
  if Str.sliceContains conn.fromHosts Blueprint.publicInternetLabel then
    ports.insert conn.minPort (((ports.lookup conn.minPort).getD []) ++
      Str.sliceFilterOut conn.toHosts Blueprint.publicInternetLabel)
  else ports

/-- The containers that listen on each public port. -/
def publicPorts (connections : List Connection) : AList (fun _ : Int => List String) :=
  connections.foldl addPublicPort ∅

/-- One exclusive placement for each ordered pair of positions. -/
def pairPlacements (cids : List String) : List Placement :=
  cids.zipIdx.flatMap (fun (tgt, i) =>
    cids.zipIdx.filterMap (fun (other, j) =>
      if i = j then none
      else some { id := 0, exclusive := true, targetContainer := tgt, otherContainer := other }))

/-- Exclusive placement rules such that no two containers listening on the
same public port get placed on the same machine. -/
def portPlacements (ord : MapOrder) (connections : List Connection) : List Placement :=
  (ord.walk (publicPorts connections).entries).flatMap (fun entry => pairPlacements entry.2)

/-- The row that a blueprint placement asks for. -/
def placementRow (sp : Blueprint.Placement) : Placement where
  id := 0
  targetContainer := sp.targetContainer
  exclusive := sp.exclusive
  provider := sp.provider
  size := sp.size
  region := sp.region
  floatingIP := sp.floatingIP

def placementKey (p : Placement) : Placement := { p with id := 0 }

def fillPlacement (toAdd r : Placement) : Placement := { toAdd with id := r.id }

def updatePlacements (ords : Nat → MapOrder) (view : Database) (bp : Blueprint) :
    Except String Database := do
  let connections := view.selectAll (ords 0) .connection
  let placements := portPlacements (ords 1) connections ++ bp.placements.map placementRow
  let res := hashJoin (ords 3) placements (view.selectAll (ords 2) .placement)
    placementKey placementKey
  let view ← view.addAll .placement fillPlacement res.lonelyLefts
  pure (view.removeAll .placement res.lonelyRights)

/-- The orders of the walks from number `n` on. -/
def laterOrders (ords : Nat → MapOrder) (n : Nat) : Nat → MapOrder := fun k => ords (n + k)

/-- The five tables are reconciled one after another. -/
def applyPolicy (ords : Nat → MapOrder) (view : Database) (bp : Blueprint) :
    Except String Database := do
  let view ← updateImages (laterOrders ords 2) view bp
  let view ← updateContainers (laterOrders ords 4) view bp
  let view ← updateLoadBalancers (laterOrders ords 7) view bp
  let view ← updateConnections (laterOrders ords 9) view bp
  updatePlacements (laterOrders ords 11) view bp

/-- A minion that does not lead, or has no blueprint, changes nothing. -/
def updatePolicy (ords : Nat → MapOrder) (view : Database) : Except String Database :=
  if etcdLeader (ords 0) view then do
    match ← getBlueprint (ords 1) view with
    | .error _ => pure view
    | .ok bpRow => applyPolicy ords view bpRow.blueprint
  else pure view

end Kelda.Minion
