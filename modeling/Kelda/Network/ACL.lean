import Kelda.DB.Rows
import Kelda.Lib.HashMap
import Kelda.Lib.Text
import Kelda.OVN.Match
import Kelda.Util.Str

/-! The compilation of connections to OVN ACLs and address sets. The hash of
the standard library is an argument; everything else is computed here, down to
the texts of the matches. -/
namespace Kelda.Network

open DB

structure AddressSet where
  name : String
  addresses : List String
deriving DecidableEq

/-- A connection between two endpoints. An endpoint is either the name of an
address set or an individual address. -/
structure Conn where
  fromName : String
  toName : String
  minPort : Int
  maxPort : Int
deriving DecidableEq

/-- The texts `from-lport` and `to-lport`. -/
inductive Direction where
  | fromLport
  | toLport
deriving DecidableEq

/-- The texts `allow`, `allow-related` and `drop`. -/
inductive Action where
  | allow
  | allowRelated
  | drop
deriving DecidableEq

structure ACLCore where
  priority : Int
  direction : Direction
  matchText : String
  action : Action
deriving DecidableEq

/-- The strings seen so far, with the set of them, and one more. -/
def addUnique : List String × Finset String → String → List String × Finset String
  | (uniqueStrs, strSet), str =>
    if str ∈ strSet then (uniqueStrs, strSet) else (uniqueStrs ++ [str], insert str strSet)

def uniqueStrings (strs : List String) : List String :=
  (strs.foldl addUnique ([], ∅)).1

/-- Unknown hostnames are left out. -/
def resolveHostnames (hostnames : List String) (hostnameToIP : String → Option String) :
    List String :=
  hostnames.filterMap hostnameToIP

/-- The addresses in the order in which they are hashed. -/
def sortStrings (members : List String) : List String :=
  members.insertionSort (· ≤ ·)

/-- OVN requires address set names to start with a letter. -/
def setName (sha256 : String → List UInt8) (sorted : List String) : String :=
  "sha" ++ Text.hexText (sha256 (String.join sorted))

/-- The name of an endpoint, and the address sets with that of the endpoint. -/
def endpointName (sha256 : String → List UInt8) (members : List String)
    (addressSets : AList (fun _ : String => List String)) :
    String × AList (fun _ : String => List String) :=
  match members with
  | [member] => (member, addressSets)
  | members =>
    let sorted := sortStrings members
    let name := setName sha256 sorted
    ("$" ++ name,
      if name ∈ addressSets then addressSets else addressSets.insert name sorted)

/-- The addresses of one side of a connection. -/
def resolveSide (hostnameToIP : String → Option String) (hosts : List String) : List String :=
  resolveHostnames (uniqueStrings (Str.sliceFilterOut hosts Blueprint.publicInternetLabel))
    hostnameToIP

/-- One round of the loop over the connections. A side may contain only
`public`. -/
def resolveConnection (sha256 : String → List UInt8) (hostnameToIP : String → Option String) :
    List Conn × AList (fun _ : String => List String) → Connection →
      List Conn × AList (fun _ : String => List String)
  | (conns, addressSets), dbConn =>
    let froms := resolveSide hostnameToIP dbConn.fromHosts
    let tos := resolveSide hostnameToIP dbConn.toHosts
    if froms.length = 0 ∨ tos.length = 0 then (conns, addressSets)
    else
      let (fromName, addressSets) := endpointName sha256 froms addressSets
      let (toName, addressSets) := endpointName sha256 tos addressSets
      (conns ++ [⟨fromName, toName, dbConn.minPort, dbConn.maxPort⟩], addressSets)

def resolveConnections (sha256 : String → List UInt8) (ord : MapOrder)
    (dbConns : List Connection) (hostnameToIP : String → Option String) :
    List Conn × List AddressSet :=
  let (conns, addressSets) :=
    dbConns.foldl (resolveConnection sha256 hostnameToIP) ([], ∅)
  (conns, (ord.walk addressSets.entries).map (fun e => ⟨e.1, e.2⟩))

/-- The same ACL in both directions. -/
def directedACLs (priority : Int) (action : Action) (matchText : String) : List ACLCore :=
  [Direction.fromLport, .toLport].map (fun dir => ⟨priority, dir, matchText, action⟩)

def fromMatch (ip : String) : String := "ip4.src == " ++ ip

def toMatch (ip : String) : String := "ip4.dst == " ++ ip

def orMatch (predicates : List String) : String :=
  "(" ++ " || ".intercalate predicates ++ ")"

def andMatch (predicates : List String) : String :=
  "(" ++ " && ".intercalate predicates ++ ")"

/-- One range of the port constraint. -/
def portRange (proto : String) (minPort maxPort : Int) (direction : String) : String :=
  minPort.repr ++ " <= " ++ (proto ++ "." ++ direction) ++ " <= " ++ maxPort.repr

def portConstraint (minPort maxPort : Int) (direction : String) : String :=
  "(" ++ portRange "udp" minPort maxPort direction ++ " || " ++
    portRange "tcp" minPort maxPort direction ++ ")"

/-- From may talk to To with the appropriate destination port, and the response
of To may reach From with the corresponding source port. -/
def getMatchString (conn : Conn) : String :=
  orMatch
    [andMatch [fromMatch conn.fromName, toMatch conn.toName,
      portConstraint conn.minPort conn.maxPort "dst"],
    andMatch [fromMatch conn.toName, toMatch conn.fromName,
      portConstraint conn.minPort conn.maxPort "src"]]

def icmpMatch (conn : Conn) : String :=
  andMatch [fromMatch conn.fromName, toMatch conn.toName, "icmp"]

/-- The ACLs of one connection. An ICMP match is added once. -/
def addACLs : List ACLCore × Finset String → Conn → List ACLCore × Finset String
  | (expACLs, icmpMatches), conn =>
    let expACLs := expACLs ++ directedACLs 1 .allow (getMatchString conn)
    if icmpMatch conn ∈ icmpMatches then (expACLs, icmpMatches)
    else
      (expACLs ++ directedACLs 1 .allowRelated (icmpMatch conn),
        insert (icmpMatch conn) icmpMatches)

/-- The ACLs that syncACLs puts into OVN. -/
def expectedACLs (connections : List Conn) : List ACLCore :=
  (connections.foldl addACLs (directedACLs 0 .drop "ip", ∅)).1

end Kelda.Network
