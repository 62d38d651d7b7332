import Mathlib.Data.List.Dedup
import Kelda.Cloud.Acl
import Kelda.DB.Loops

/-! The join of the machines of one provider and region with the blueprint. A
panic is an error with the text of the source. -/
namespace Kelda

/-- A provider and region. -/
structure Cloud where
  providerName : String
  region : String
deriving DecidableEq

/-- A thread that keeps the machines of one namespace in one provider and region. -/
structure CloudThread extends Cloud where
  nameSpace : String
deriving DecidableEq

namespace Cloud

open DB Join

def defaultDiskSize : Int := 32

section Desired

/-- The row for a machine of the blueprint. One of another provider or region,
or with a role that cannot be parsed, is left out. -/
def desiredMachine (cld : Cloud) (adminKey : String) (bpm : Blueprint.Machine) :
    Option Machine :=
  if bpm.provider ≠ cld.providerName ∨ bpm.region ≠ cld.region then none
  else
    match parseRole bpm.role with
    | .error _ => none
    | .ok role =>
      some
        { id := 0
          region := bpm.region
          floatingIP := bpm.floatingIP
          role := role
          provider := bpm.provider
          preemptible := bpm.preemptible
          size := bpm.size
          diskSize := if bpm.diskSize = 0 then defaultDiskSize else bpm.diskSize
          sshKeys := if adminKey ≠ "" then bpm.sshKeys ++ [adminKey] else bpm.sshKeys }

/-- The machines of a blueprint for this provider and region. -/
def desiredMachines (cld : Cloud) (adminKey : String) (bpms : List Blueprint.Machine) :
    List Machine :=
  bpms.filterMap (cld.desiredMachine adminKey)

/-- A row of this provider and region. -/
def owns (cld : Cloud) (dbm : Machine) : Bool :=
  dbm.provider = cld.providerName ∧ dbm.region = cld.region

def selectMachines (cld : Cloud) (ord : MapOrder) (view : Database) : List Machine :=
  view.select ord .machine cld.owns

end Desired

/-- A machine of which only one side knows the role or the disk size may match.
Lower scores are better. -/
def machineScore (l r : Machine) : Except String Int :=
  if l.provider ≠ r.provider ∨ l.region ≠ r.region then .error "Invalid Provider or Region"
  else if l.preemptible ≠ r.preemptible then .ok (-1)
  else if l.size ≠ r.size then .ok (-1)
  else if l.diskSize ≠ 0 ∧ r.diskSize ≠ 0 ∧ l.diskSize ≠ r.diskSize then .ok (-1)
  else if l.role ≠ .none ∧ r.role ≠ .none ∧ l.role ≠ r.role then .ok (-1)
  else if l.cloudID ≠ "" ∧ r.cloudID ≠ "" ∧ l.cloudID = r.cloudID then .ok 0
  else
    let score := 10
    let score := if l.floatingIP ≠ "" ∧ r.floatingIP ≠ "" ∧ l.floatingIP = r.floatingIP then
      score - 2 else score
    .ok (if l.role ≠ .none ∧ r.role ≠ .none then score - 1 else score)

section Sync

/-- The row of a machine that the provider listed. Providers do not know about
some fields, so these are not overwritten. -/
def syncedRow (dbm cm : Machine) : Machine :=
  { cm with
    id := dbm.id
    status := dbm.status
    sshKeys := dbm.sshKeys
    role := dbm.role
    connected := dbm.connected }

/-- Update the rows of this provider and region from the machines that run. -/
def syncDBWithCloud (cld : Cloud) (cloudMachines : List Machine) (ord : MapOrder)
    (view : Database) : Except String Database := do
  let dbms := cld.selectMachines ord view
  let joined ← joinM dbms cloudMachines machineScore
  let (missing, view) := view.insertAll .machine joined.lonelyRights
  let pairs := joined.pairs ++ missing.map (fun p => ⟨p.R, p.L⟩)
  let view := joined.lonelyLefts.foldl (fun view dbm => view.remove .machine dbm) view
  pairs.foldlM (fun view p => view.commit .machine (syncedRow p.L p.R)) view

structure JoinResult where
  boot : List Machine
  terminate : List Machine
  updateIPs : List Machine
  isActive : Bool

/-- The row of a matched machine: the SSH keys of the blueprint, and the status
of its connection if there is one. -/
def matchedRow (bpm dbm : Machine) : Machine :=
  let dbm := { dbm with sshKeys := bpm.sshKeys }
  let status := connectionStatus dbm
  if status ≠ "" then { dbm with status } else dbm

/-- Floating IPs are updated only once the role is set. -/
def keepMachine : JoinResult × Database → Pair Machine Machine →
    Except String (JoinResult × Database)
  | (res, view), p => do
    let dbm := matchedRow p.L p.R
    let view ← view.commit .machine dbm
    if dbm.role ≠ .none ∧ p.L.floatingIP ≠ dbm.floatingIP then
      let dbm := { dbm with floatingIP := p.L.floatingIP }
      .ok ({ res with updateIPs := res.updateIPs ++ [dbm] }, view)
    else .ok (res, view)

def stopMachine : JoinResult × Database → Machine → Except String (JoinResult × Database)
  | (res, view), dbm => do
    let dbm := { dbm with status := stopping }
    let view ← view.commit .machine dbm
    .ok ({ res with terminate := res.terminate ++ [dbm] }, view)

/-- The role is not written to the database, since it is unknown which machine
gets it until there is a connection. -/
def bootMachine : JoinResult × Database → Machine → Except String (JoinResult × Database)
  | (res, view), bpm => do
    let (dbm, view) := view.insert .machine
    let bpm := { bpm with id := dbm.id, status := booting }
    let view ← view.commit .machine { bpm with role := .none }
    .ok ({ res with boot := res.boot ++ [bpm] }, view)

/-- Match the machines of the blueprint with the rows, and note which machines to
boot and to stop. -/
def syncDBWithBlueprint (cld : Cloud) (adminKey : String) (ords : Nat → MapOrder)
    (view : Database) : Except String (JoinResult × Database) := do
  match ← getBlueprint (ords 0) view with
  | .error err => .error ("Unreachable error: " ++ err)
  | .ok bp =>
    let dbms := cld.selectMachines (ords 1) view
    let bpms := cld.desiredMachines adminKey bp.blueprint.machines
    let isActive := 0 < bpms.length ∨ 0 < dbms.length
    let joined ← joinM bpms dbms machineScore
    let st ← joined.pairs.foldlM keepMachine (⟨[], [], [], isActive⟩, view)
    let st ← joined.lonelyRights.foldlM stopMachine st
    joined.lonelyLefts.foldlM bootMachine st

/-- What has to be allowed for a blueprint. Traffic from the controller is always
allowed. The result is a set; a range over it visits each element once. -/
def desiredACLs (bp : Blueprint) : List ACL :=
  let allowed := (bp.adminACL ++ ["local"]).map (fun cidr => ACL.mk cidr 1 65535)
  let conns := bp.connections.filter
    (fun conn => Blueprint.publicInternetLabel ∈ conn.fromHosts)
  (allowed ++ conns.map (fun conn => ACL.mk "0.0.0.0/0" conn.minPort conn.maxPort)).dedup

end Sync

end Cloud

namespace CloudThread

open DB Cloud

/-- The transaction of one join, for the machines that the provider has listed
before. The inner error is returned to the caller. -/
def joinImpl (cld : CloudThread) (adminKey : String) (ords : Nat → MapOrder)
    (machines : List Machine) (view : Database) :
    Except String (Except String ((JoinResult × List ACL) × Database)) := do
  match ← getBlueprint (ords 0) view with
  | .error err => .ok (.error err)
  | .ok bp =>
    if cld.nameSpace ≠ bp.blueprint.nameSpace then
      .ok (.error "namespace change during a cloud run")
    else
      let view ← cld.syncDBWithCloud machines (ords 1) view
      let (res, view) ← cld.syncDBWithBlueprint adminKey (fun n => ords (n + 2)) view
      -- regions without machines have their ACLs cleared
      let acls := if 0 < machines.length then (ords 4).walk (desiredACLs bp.blueprint) else []
      .ok (.ok ((res, acls), view))

end CloudThread

end Kelda
