import Mathlib.Data.Finmap

/-! The blueprint, as the bindings send it, and the rows of the database
tables. Strings, string lists and maps follow the Go structures; nil and empty
lists are the same value here. A map field is compared as a map, without an
order of its entries. -/
namespace Kelda

/-- A map with string keys, as a field of a row holds it. -/
abbrev StringMap (α : Type) := Finmap (fun _ : String => α)

namespace Blueprint

/-- A magic label that allows connections to or from the public network. -/
def publicInternetLabel : String := "public"

/-- The permissible values of a container map: a string, or the name of a
secret. -/
inductive ContainerValue where
  | string (value : String)
  | secret (nameOfSecret : String)
deriving DecidableEq

structure VolumeMount where
  volumeName : String
  mountPath : String
deriving DecidableEq

structure Image where
  name : String
  dockerfile : String
deriving DecidableEq

structure Container where
  id : String
  image : Image
  command : List String
  env : StringMap ContainerValue
  filepathToContent : StringMap ContainerValue
  hostname : String
  privileged : Bool
  volumeMounts : List VolumeMount
deriving DecidableEq

structure LoadBalancer where
  name : String
  hostnames : List String
deriving DecidableEq

/-- Any hostname of From may speak with any hostname of To on the ports of the
range. -/
structure Connection where
  fromHosts : List String
  toHosts : List String
  minPort : Int
  maxPort : Int
deriving DecidableEq

structure Placement where
  targetContainer : String
  exclusive : Bool
  provider : String
  size : String
  region : String
  floatingIP : String
deriving DecidableEq

structure Machine where
  provider : String
  role : String
  size : String
  diskSize : Int
  region : String
  sshKeys : List String
  floatingIP : String
  preemptible : Bool
deriving DecidableEq

/-- The kind of the volume, with the settings of this kind. -/
structure Volume where
  name : String
  type : String
  conf : StringMap String
deriving DecidableEq

end Blueprint

structure Blueprint where
  containers : List Blueprint.Container
  loadBalancers : List Blueprint.LoadBalancer
  connections : List Blueprint.Connection
  placements : List Blueprint.Placement
  machines : List Blueprint.Machine
  adminACL : List String := []
  nameSpace : String := ""
  volumes : List Blueprint.Volume := []
deriving DecidableEq

namespace DB

/-- The role a machine may take on within the cluster. It is a text; what other
minions report need not be one of the constants. -/
inductive Role where
  | none
  | worker
  | master
  | other (name : String) (h : name ≠ "" ∧ name ≠ "Worker" ∧ name ≠ "Master")
deriving DecidableEq, Repr

def Role.text : Role → String
  | .none => ""
  | .worker => "Worker"
  | .master => "Master"
  | .other name _ => name

def Role.ofText (name : String) : Role :=
  if hNone : name = "" then .none
  else if hWorker : name = "Worker" then .worker
  else if hMaster : name = "Master" then .master
  else .other name ⟨hNone, hWorker, hMaster⟩

theorem Role.ofText_text (r : Role) : Role.ofText r.text = r := by
  cases r with
  | none => rfl
  | worker => rfl
  | master => rfl
  | other name h => simp [Role.text, Role.ofText, h.1, h.2.1, h.2.2]

theorem Role.text_inj {r r' : Role} (h : r.text = r'.text) : r = r' := by
  rw [← r.ofText_text, h, r'.ofText_text]

/-- The error is the text of the source. -/
def parseRole (role : String) : Except String Role :=
  if role = "Master" then .ok .master
  else if role = "Worker" then .ok .worker
  else if role = "" then .ok .none
  else .error "unknown role"

structure BlueprintRow where
  id : Nat
  blueprint : Blueprint
deriving DecidableEq

structure Machine where
  id : Nat
  provider : String := ""
  region : String := ""
  size : String := ""
  diskSize : Int := 0
  sshKeys : List String := []
  floatingIP : String := ""
  preemptible : Bool := false
  cloudID : String := ""
  publicIP : String := ""
  privateIP : String := ""
  status : String := ""
  role : Role := .none
  connected : Bool := false
deriving DecidableEq

/-- The status of an image that has been built. -/
def built : String := "built"

def building : String := "building"

/-- The values of the field `status` of a machine. -/
def stopping : String := "stopping"

def booting : String := "booting"

def connecting : String := "connecting"

def reconnecting : String := "reconnecting"

def connected : String := "connected"

/-- A machine that was connected before is shown as reconnecting; one that has
a public address, but never was, as connecting. -/
def connectionStatus (m : Machine) : String :=
  if m.publicIP ≠ "" ∧ m.connected then connected
  else if m.status = connected ∨ m.status = reconnecting then reconnecting
  else if m.publicIP ≠ "" then connecting
  else ""

/-- `created` is the number of nanoseconds since the zero time. -/
structure Container where
  id : Nat
  ip : String := ""
  minion : String := ""
  blueprintID : String := ""
  podName : String := ""
  status : String := ""
  command : List String := []
  env : StringMap Blueprint.ContainerValue := ∅
  filepathToContent : StringMap Blueprint.ContainerValue := ∅
  hostname : String := ""
  created : Int := 0
  privileged : Bool := false
  volumeMounts : List Blueprint.VolumeMount := []
  image : String := ""
  dockerfile : String := ""
deriving DecidableEq

structure Minion where
  id : Nat
  self : Bool := false
  authorizedKeys : String := ""
  role : Role := .none
  privateIP : String := ""
  provider : String := ""
  size : String := ""
  region : String := ""
  floatingIP : String := ""
  hostSubnets : List String := []
deriving DecidableEq

structure Connection where
  id : Nat
  fromHosts : List String := []
  toHosts : List String := []
  minPort : Int := 0
  maxPort : Int := 0
deriving DecidableEq

structure LoadBalancer where
  id : Nat
  name : String := ""
  ip : String := ""
  hostnames : List String := []
deriving DecidableEq

structure Etcd where
  id : Nat
  etcdIPs : List String := []
  leader : Bool := false
  leaderIP : String := ""
deriving DecidableEq

structure Placement where
  id : Nat
  targetContainer : String := ""
  exclusive : Bool := false
  otherContainer : String := ""
  provider : String := ""
  size : String := ""
  region : String := ""
  floatingIP : String := ""
deriving DecidableEq

structure Image where
  id : Nat
  name : String := ""
  dockerfile : String := ""
  repoDigest : String := ""
  status : String := ""
deriving DecidableEq

structure Hostname where
  id : Nat
  hostname : String := ""
  ip : String := ""
deriving DecidableEq

/-- The tables of the database. -/
inductive TableType where
  | blueprint
  | machine
  | container
  | minion
  | connection
  | loadBalancer
  | etcd
  | placement
  | image
  | hostname
deriving DecidableEq, Repr

/-- The type of the rows of a table. -/
abbrev RowOf : TableType → Type
  | .blueprint => BlueprintRow
  | .machine => Machine
  | .container => Container
  | .minion => Minion
  | .connection => Connection
  | .loadBalancer => LoadBalancer
  | .etcd => Etcd
  | .placement => Placement
  | .image => Image
  | .hostname => Hostname

instance : (tt : TableType) → DecidableEq (RowOf tt)
  | .blueprint => inferInstanceAs (DecidableEq BlueprintRow)
  | .machine => inferInstanceAs (DecidableEq Machine)
  | .container => inferInstanceAs (DecidableEq Container)
  | .minion => inferInstanceAs (DecidableEq Minion)
  | .connection => inferInstanceAs (DecidableEq Connection)
  | .loadBalancer => inferInstanceAs (DecidableEq LoadBalancer)
  | .etcd => inferInstanceAs (DecidableEq Etcd)
  | .placement => inferInstanceAs (DecidableEq Placement)
  | .image => inferInstanceAs (DecidableEq Image)
  | .hostname => inferInstanceAs (DecidableEq Hostname)

def getID : (tt : TableType) → RowOf tt → Nat
  | .blueprint, r => r.id
  | .machine, r => r.id
  | .container, r => r.id
  | .minion, r => r.id
  | .connection, r => r.id
  | .loadBalancer, r => r.id
  | .etcd, r => r.id
  | .placement, r => r.id
  | .image, r => r.id
  | .hostname, r => r.id

/-- The zero row with an ID, as the Insert functions create it. -/
def blankRow : (tt : TableType) → Nat → RowOf tt
  | .blueprint, id => (⟨id, ⟨[], [], [], [], [], [], "", []⟩⟩ : BlueprintRow)
  | .machine, id => ({ id } : Machine)
  | .container, id => ({ id } : Container)
  | .minion, id => ({ id } : Minion)
  | .connection, id => ({ id } : Connection)
  | .loadBalancer, id => ({ id } : LoadBalancer)
  | .etcd, id => ({ id } : Etcd)
  | .placement, id => ({ id } : Placement)
  | .image, id => ({ id } : Image)
  | .hostname, id => ({ id } : Hostname)

@[simp] theorem getID_blankRow (tt : TableType) (id : Nat) : getID tt (blankRow tt id) = id := by
  cases tt <;> rfl

end DB

end Kelda
