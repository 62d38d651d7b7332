import Kelda.Blueprint.Values
import Kelda.DB.Slices
import Kelda.Etcd.Codec
import Kelda.Etcd.Store
import Kelda.Minion.Engine

/-! Three tables of the leader are copied to the other minions through the
store. The leader writes its rows as one value; every other minion reads the
value and joins its table with the rows in it. The error of the decoder is
dropped. -/
namespace Kelda.Etcd

open DB Join Minion

/-- The failures of the connection that a run meets. -/
structure Faults where
  get : Option Error := none
  set : Option Error := none

/-- Why a run failed: "etcd read error" or "etcd write error". -/
inductive RunError where
  | read (err : Error)
  | write (err : Error)
deriving DecidableEq

/-- What a run leaves behind. `sets` are the values that it asked the store to
set. -/
structure Outcome where
  store : Store
  view : Database
  sets : List String
  err : Option RunError

/-- A missing key should be interpreted as empty. -/
def readEtcdNode (faults : Faults) (store : Store) (path : String) : Except Error String :=
  match faults.get.elim (store.get path) .error with
  | .ok value => .ok value
  | .error err => if err = .client errorCodeKeyNotFound then .ok "" else .error err

/-- The value is only written if it is a new one. -/
def writeEtcdSlice {α : Type} (codec : SliceCodec α) (less : α → α → Bool) (faults : Faults)
    (store : Store) (path old : String) (new : List α) : Store × List String × Option Error :=
  match codec.jsonMarshal (sortSlice less new) with
  | .error text => (store, [], some (.other text))
  | .ok newStr =>
    if newStr = old then (store, [], none)
    else
      match faults.set.elim (store.set path newStr 0) .error with
      | .ok store => (store, [newStr], none)
      | .error err => (store, [newStr], some err)

/-- How one table is copied: the rows that the leader writes, and what the other
minions do with the rows that they read. -/
structure Synced (tt : TableType) where
  path : String
  codec : SliceCodec (RowOf tt)
  less : RowOf tt → RowOf tt → Bool
  check : RowOf tt → Bool
  updateNonLeader : (Nat → MapOrder) → Database → List (RowOf tt) → Except String Database

namespace Synced

variable {tt : TableType} (table : Synced tt)

def updateLeader (ord : MapOrder) (faults : Faults) (store : Store) (view : Database)
    (etcdStr : String) : Outcome :=
  let (store, sets, err) := writeEtcdSlice table.codec table.less faults store table.path etcdStr
    (view.select ord tt table.check)
  ⟨store, view, sets, err.map .write⟩

def runOnce (ords : Nat → MapOrder) (faults : Faults) (store : Store) (view : Database) :
    Except String Outcome :=
  match readEtcdNode faults store table.path with
  | .error err => .ok ⟨store, view, [], some (.read err)⟩
  | .ok etcdStr =>
    if etcdLeader (ords 0) view then
      .ok (table.updateLeader (ords 1) faults store view etcdStr)
    else do
      let view ← table.updateNonLeader (laterOrders ords 1) view (table.codec.unmarshal etcdStr).1
      .ok ⟨store, view, [], none⟩

end Synced

/-- Rows that the other side lacks are removed, and its new rows are added under
IDs of their own. -/
def joinRows {κ : Type} [DecidableEq κ] (tt : TableType) (key : RowOf tt → κ)
    (setID : RowOf tt → RowOf tt → RowOf tt) (ords : Nat → MapOrder) (view : Database)
    (etcdRows : List (RowOf tt)) : Except String Database :=
  let res := hashJoin (ords 1) (view.selectAll (ords 0) tt) etcdRows key key
  (view.removeAll tt res.lonelyLefts).addAll tt setID res.lonelyRights

section Connection

def connectionPath : String := "/connections"

def renumberConnection (etcdConn conn : Connection) : Connection := { etcdConn with id := conn.id }

def joinConnections : (Nat → MapOrder) → Database → List Connection → Except String Database :=
  joinRows .connection dbcKey renumberConnection

def connections : Synced .connection where
  path := connectionPath
  codec := connectionCodec
  less := Connection.less
  check := fun _ => true
  updateNonLeader := joinConnections

def runConnectionOnce : (Nat → MapOrder) → Faults → Store → Database → Except String Outcome :=
  connections.runOnce

end Connection

section Hostname

def hostnamePath : String := "/hostnames"

def hostnameKey (h : Hostname) : Hostname := { h with id := 0 }

def renumberHostname (etcdHostname dbHostname : Hostname) : Hostname :=
  { etcdHostname with id := dbHostname.id }

def joinHostnames : (Nat → MapOrder) → Database → List Hostname → Except String Database :=
  joinRows .hostname hostnameKey renumberHostname

def hostnames : Synced .hostname where
  path := hostnamePath
  codec := hostnameCodec
  less := Hostname.less
  check := fun _ => true
  updateNonLeader := joinHostnames

def runHostnameOnce : (Nat → MapOrder) → Faults → Store → Database → Except String Outcome :=
  hostnames.runOnce

end Hostname

section Container

def containerPath : String := "/containers"

/-- The fields that require a restart of the container. -/
structure ContainerKey where
  hostname : String
  ip : String
  blueprintID : String
  image : String
  command : String
  env : String
  filepathToContent : String
  privileged : Bool
  volumeMounts : String
deriving DecidableEq

/-- The default format of a slice of mounts. -/
def formatVolumeMounts (mounts : List Blueprint.VolumeMount) : String :=
  Str.formatSlice (mounts.map (fun m => "\x7b" ++ m.volumeName ++ " " ++ m.mountPath ++ "\x7d"))

def containerValueMapKey (ords : Nat → MapOrder) (x : StringMap Blueprint.ContainerValue) :
    String :=
  Blueprint.valueMapAsString ords x

def containerKey (ords : Nat → MapOrder) (dbc : Container) : ContainerKey where
  hostname := dbc.hostname
  ip := dbc.ip
  blueprintID := dbc.blueprintID
  image := dbc.image
  command := Str.formatSlice dbc.command
  env := containerValueMapKey ords dbc.env
  filepathToContent := containerValueMapKey (laterOrders ords 2) dbc.filepathToContent
  privileged := dbc.privileged
  volumeMounts := formatVolumeMounts dbc.volumeMounts

def copyContainer (edbc dbc : Container) : Container :=
  { dbc with
    ip := edbc.ip
    minion := edbc.minion
    blueprintID := edbc.blueprintID
    image := edbc.image
    command := edbc.command
    env := edbc.env
    filepathToContent := edbc.filepathToContent
    hostname := edbc.hostname
    privileged := edbc.privileged
    volumeMounts := edbc.volumeMounts }

/-- The pairs and the new rows are committed with the fields of the other side. -/
def joinContainers (ords : Nat → MapOrder) (view : Database) (etcdDBCs : List Container) :
    Except String Database :=
  let key := containerKey (laterOrders ords 2)
  let res := (hashJoin (ords 1) (view.selectAll (ords 0) .container) etcdDBCs key key).swap
  let view := view.removeAll .container res.lonelyRights
  let (news, view) := view.insertAll .container res.lonelyLefts
  view.commitAll .container copyContainer (res.pairs ++ news)

/-- A worker only keeps the containers that run on it. -/
def updateNonLeader (ords : Nat → MapOrder) (view : Database) (rawEtcdDBCs : List Container) :
    Except String Database := do
  let self ← minionSelf (ords 0) view
  let etcdDBCs := rawEtcdDBCs.filter (fun dbc =>
    self.role = .master ∨ dbc.minion = self.privateIP)
  joinContainers (laterOrders ords 1) view etcdDBCs

def containers (fmt : TimeFormat) : Synced .container where
  path := containerPath
  codec := containerCodec fmt
  less := Container.less
  check := fun dbc => dbc.minion ≠ "" ∧ dbc.ip ≠ ""
  updateNonLeader := updateNonLeader

def runContainerOnce (fmt : TimeFormat) :
    (Nat → MapOrder) → Faults → Store → Database → Except String Outcome :=
  (containers fmt).runOnce

end Container

end Kelda.Etcd
