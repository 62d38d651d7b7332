import Kelda.DB.Database
import Kelda.Minion.IPDef

/-! The OpenFlow tables of the Kelda bridge, as the texts that are given to
`ovs-ofctl`. -/
namespace Kelda.Network.Openflow

open IPDef

/-- A set of ports, as the keys of a map. -/
abbrev PortSet := AList (fun _ : Int => Unit)

/-- A container that needs flows, with its ports to and from the public
internet. -/
structure Container where
  veth : String
  patch : String
  mac : String
  ip : String
  toPub : PortSet
  fromPub : PortSet

/-- The lower case `container`: the OpenFlow ports are known. -/
structure ResolvedContainer extends Container where
  vethPort : Nat
  patchPort : Nat

section Flows

def staticFlows : List String :=
  [ -- Table 0
    "table=0,priority=1000,in_port=LOCAL,actions=resubmit(,2)",
    -- Table 1
    "table=1,priority=1000,arp,dl_dst=ff:ff:ff:ff:ff:ff," ++
      "actions=output:LOCAL,output:NXM_NX_REG0[]",
    "table=1,priority=900,dl_dst=" ++ gatewayMac ++ ",actions=resubmit(,3)",
    "table=1,priority=800,actions=output:NXM_NX_REG0[]",
    -- Table 3
    "table=3,priority=1000,ip,nw_dst=" ++ gatewayIP.text ++ ",actions=output:LOCAL",
    "table=3,priority=900,arp,actions=output:LOCAL"]

/-- The format `table2`, with the name of the port field in its place. -/
def table2 (tp proto mac ip : String) (port : Int) (vethPort : Nat) : String :=
  "table=2,priority=500," ++ proto ++ ",dl_dst=" ++ mac ++ ",ip_dst=" ++ ip ++ "," ++ tp ++ "=" ++
    port.repr ++ ",actions=output:" ++ vethPort.repr

/-- The format `table3`, with the name of the port field in its place. -/
def table3 (tp proto mac ip : String) (port : Int) : String :=
  "table=3,priority=500," ++ proto ++ ",dl_src=" ++ mac ++ ",ip_src=" ++ ip ++ "," ++ tp ++ "=" ++
    port.repr ++ ",actions=output:LOCAL"

/-- One round of the loops over the ports. Inbound packets have the port in the
one field, outbound packets in the other. -/
def portFlows (c : ResolvedContainer) (tpIn tpOut : String) (port : Int) : List String :=
  [table2 tpIn "tcp" c.mac c.ip port c.vethPort, table2 tpIn "udp" c.mac c.ip port c.vethPort,
    table3 tpOut "tcp" c.mac c.ip port, table3 tpOut "udp" c.mac c.ip port]

/-- The flows of a container that need no public port. -/
def baseFlows (c : ResolvedContainer) : List String :=
  [ -- Table 0
    "table=0,in_port=" ++ c.vethPort.repr ++ ",dl_src=" ++ c.mac ++ ",actions=load:0x" ++
      String.ofList (Nat.toDigits 16 c.patchPort) ++ "->NXM_NX_REG0[],resubmit(,1)",
    "table=0,in_port=" ++ c.patchPort.repr ++ ",actions=output:" ++ c.vethPort.repr,
    -- Table 2
    "table=2,priority=900,arp,dl_dst=" ++ c.mac ++ ",action=output:" ++ c.vethPort.repr,
    "table=2,priority=800,ip,dl_dst=" ++ c.mac ++ ",nw_src=" ++ gatewayIP.text ++
      ",action=output:" ++ c.vethPort.repr]

def containerFlows (toOrd fromOrd : MapOrder) (c : ResolvedContainer) : List String :=
  baseFlows c ++
    (toOrd.walk c.toPub.entries).flatMap (fun e => portFlows c "tp_src" "tp_dst" e.1) ++
    (fromOrd.walk c.fromPub.entries).flatMap (fun e => portFlows c "tp_dst" "tp_src" e.1)

/-- The maps of each container are walked in some order. -/
def allContainerFlows (ords : Nat → MapOrder) (containers : List ResolvedContainer) :
    List String :=
  containers.zipIdx.flatMap (fun (c, i) => containerFlows (ords (2 * i)) (ords (2 * i + 1)) c)

def allFlows (ords : Nat → MapOrder) (containers : List ResolvedContainer) : List String :=
  let gatewayBroadcastActions := containers.map (fun c => "output:" ++ c.vethPort.repr)
  let flows := staticFlows ++ allContainerFlows ords containers
  flows ++ ["table=2,priority=1000,dl_dst=ff:ff:ff:ff:ff:ff,actions=" ++
    ",".intercalate gatewayBroadcastActions]

/-- Containers without both ports are left out. -/
def resolveContainers (portMap : String → Option Nat) (containers : List Container) :
    List ResolvedContainer :=
  containers.filterMap (fun c =>
    match portMap c.veth, portMap c.patch with
    | some veth, some patch => some { c with vethPort := veth, patchPort := patch }
    | _, _ => none)

end Flows

section Containers

/-- The ports of each host. -/
abbrev HostPorts := AList (fun _ : String => List Int)

def HostPorts.append (ports : HostPorts) (host : String) (port : Int) : HostPorts :=
  ports.insert host ((ports.lookup host).getD [] ++ [port])

/-- One round of the loop over From and To. A range of public ports is not
supported. -/
def addPublicPair (conn : DB.Connection) :
    HostPorts × HostPorts → String × String → HostPorts × HostPorts
  | (fromPubPorts, toPubPorts), (from', to') =>
    if from' ≠ Blueprint.publicInternetLabel ∧ to' ≠ Blueprint.publicInternetLabel then
      (fromPubPorts, toPubPorts)
    else if conn.minPort ≠ conn.maxPort then (fromPubPorts, toPubPorts)
    else
      (if from' = Blueprint.publicInternetLabel then fromPubPorts.append to' conn.minPort
        else fromPubPorts,
      if to' = Blueprint.publicInternetLabel then toPubPorts.append from' conn.minPort
        else toPubPorts)

/-- The pairs of hosts in the order of the two inner loops. -/
def hostPairs (conn : DB.Connection) : List (String × String) :=
  conn.fromHosts.flatMap (fun from' => conn.toHosts.map (fun to' => (from', to')))

/-- The ports from and to the public internet, by host. -/
def publicPorts (conns : List DB.Connection) : HostPorts × HostPorts :=
  conns.foldl (fun acc conn => (hostPairs conn).foldl (addPublicPair conn) acc) (∅, ∅)

def toPortSet (ports : List Int) : PortSet :=
  ports.foldl (fun set port => set.insert port ()) ∅

def openflowContainer (fromPubPorts toPubPorts : HostPorts) (dbc : DB.Container) :
    Except String Container := do
  let (_, peerKelda) := patchPorts dbc.ip
  let mac ← ipStrToMac dbc.ip
  return { veth := ifName dbc.ip, patch := peerKelda, mac := mac, ip := dbc.ip,
           toPub := toPortSet ((toPubPorts.lookup dbc.hostname).getD []),
           fromPub := toPortSet ((fromPubPorts.lookup dbc.hostname).getD []) }

def openflowContainers (dbcs : List DB.Container) (conns : List DB.Connection) :
    Except String (List Container) :=
  let (fromPubPorts, toPubPorts) := publicPorts conns
  dbcs.mapM (openflowContainer fromPubPorts toPubPorts)

/-- The flows that a minion installs, from its view of the database. -/
def updateOpenflow (ords : Nat → MapOrder) (portMap : String → Option Nat) (view : DB.Database)
    (myIP : String) : Except String (List String) := do
  let conns := view.selectAll (ords 0) .connection
  let dbcs := view.select (ords 1) .container (fun dbc : DB.Container =>
    dbc.ip ≠ "" ∧ dbc.minion = myIP)
  let ofcs ← openflowContainers dbcs conns
  return allFlows (fun i => ords (i + 2)) (resolveContainers portMap ofcs)

end Containers

end Kelda.Network.Openflow
