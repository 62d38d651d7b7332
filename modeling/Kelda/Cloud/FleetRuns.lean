import Mathlib.Control.Monad.Cont
import Kelda.Cloud.Fleet

/-! Runs of one cloud thread with its provider, the foreman and restarts of the
daemon, under one blueprint. The thread boots the machines of the blueprint once.
From then on it leaves them alone, whatever the database knows about them. -/
namespace Kelda.Cloud

open DB Database Join GreedyMatching

section Requests

/-- The fields that the provider should care about. -/
def sanitizeMachine (m : Machine) : Machine :=
  { id := 0
    cloudID := m.cloudID
    size := m.size
    diskSize := m.diskSize
    preemptible := m.preemptible
    sshKeys := m.sshKeys
    role := m.role
    provider := m.provider
    region := m.region
    floatingIP := m.floatingIP }

def sanitizeMachines (machines : List Machine) : List Machine := machines.map sanitizeMachine

/-- The provider boots what it was asked for. The machine gets its floating IP later. -/
structure Launches (disks : Bool × String → Bool) (asked : Machine) (inst : Instance) : Prop where
  spec : spec disks inst.machine = spec disks asked
  role : inst.role = asked.role
  floatingIP : inst.machine.floatingIP = ""

/-- The provider stops a machine. -/
def haltMachine (asked : Machine) (fleet : List Instance) : List Instance :=
  fleet.filter (fun inst => inst.machine.cloudID ≠ asked.cloudID)

/-- The provider moves a floating IP. -/
def setFloatingIP (asked : Machine) (inst : Instance) : Instance :=
  if inst.machine.cloudID = asked.cloudID then
    { inst with machine := { inst.machine with floatingIP := asked.floatingIP } }
  else inst

/-- The provider gives a machine its addresses. -/
def setAddresses (cloudID publicIP privateIP : String) (inst : Instance) : Instance :=
  if inst.machine.cloudID = cloudID then
    { inst with machine := { inst.machine with publicIP, privateIP } }
  else inst

end Requests

/-- The database, the machines that run in one region, and what the last join asked
the provider for. -/
structure Region where
  db : Database
  fleet : List Instance
  pending : JoinResult

def noRequests : JoinResult := ⟨[], [], [], false⟩

section Steps

variable (cld : CloudThread) (adminKey : String) (disks : Bool × String → Bool)

/-- The steps around one region. The requests of a join are carried out in any
number before the next join replaces them; machines are booted all at once. -/
inductive Region.Step (w : Region) : Region → Prop where
  | join {ords : Nat → MapOrder} {machines : List Machine} {res : JoinResult} {acls : List ACL}
      {db' : Database} (hList : machines.Perm (w.fleet.map Instance.machine))
      (hRun : cld.joinImpl adminKey ords machines w.db = .ok (.ok ((res, acls), db'))) :
      Step w ⟨db', w.fleet, res⟩
  | boot {launched : List Instance}
      (hBoot : List.Forall₂ (Launches disks) (sanitizeMachines w.pending.boot) launched)
      (hList : Listable cld.toCloud disks (w.fleet ++ launched))
      (hFresh : ∀ inst ∈ launched, ∀ dbm ∈ w.db.rows .machine,
        dbm.cloudID ≠ inst.machine.cloudID) :
      Step w ⟨w.db, w.fleet ++ launched, { w.pending with boot := [] }⟩
  | stop {asked : Machine} (hStop : asked ∈ sanitizeMachines w.pending.terminate) :
      Step w { w with fleet := haltMachine asked w.fleet }
  | move {asked : Machine} (hMove : asked ∈ sanitizeMachines w.pending.updateIPs) :
      Step w { w with fleet := w.fleet.map (setFloatingIP asked) }
  | address (cloudID publicIP privateIP : String) :
      Step w { w with fleet := w.fleet.map (setAddresses cloudID publicIP privateIP) }
  | status {ord : MapOrder} {cloudID : String} {code : Int} {role : Role} {isConnected : Bool}
      {db' : Database} (hCode : pbToRole code = .ok role)
      (hTrue : role = .none ∨ ∃ inst ∈ w.fleet, cloudID = inst.machine.cloudID ∧ role = inst.role)
      (hRun : setMinionStatus ord cloudID code isConnected w.db = .ok db') :
      Step w { w with db := db' }
  | other {db' : Database} (hBlueprint : db'.rows .blueprint = w.db.rows .blueprint)
      (hOwned : (db'.rows .machine).filter cld.owns = (w.db.rows .machine).filter cld.owns) :
      Step w { w with db := db' }
  | restart {db' : Database} (hBlueprint : db'.rows .blueprint = w.db.rows .blueprint)
      (hNone : (db'.rows .machine).filter cld.owns = []) :
      Step w ⟨db', w.fleet, noRequests⟩

end Steps

section Frames

variable {cld : Cloud} {disks : Bool × String → Bool} {bpms : List Machine}
  {fleet : List Instance} {f : Instance → Instance}

/-- Only addresses change. -/
structure Keeps (f : Instance → Instance) : Prop where
  role : ∀ inst, (f inst).role = inst.role
  machine : ∀ inst, ∃ floatingIP publicIP privateIP,
    (f inst).machine = { inst.machine with floatingIP, publicIP, privateIP }

theorem keeps_setFloatingIP (asked : Machine) : Keeps (setFloatingIP asked) := by
  refine ⟨fun inst => ?_, fun inst => ?_⟩
  · rw [setFloatingIP]
    split_ifs <;> rfl
  · rw [setFloatingIP]
    split_ifs
    · exact ⟨_, _, _, rfl⟩
    · exact ⟨_, _, _, rfl⟩

theorem keeps_setAddresses (cloudID publicIP privateIP : String) :
    Keeps (setAddresses cloudID publicIP privateIP) := by
  refine ⟨fun inst => ?_, fun inst => ?_⟩
  · rw [setAddresses]
    split_ifs <;> rfl
  · rw [setAddresses]
    split_ifs
    · exact ⟨_, _, _, rfl⟩
    · exact ⟨_, _, _, rfl⟩

theorem Keeps.field {β : Type} {g : Machine → β} (h : Keeps f)
    (hg : ∀ (m : Machine) floatingIP publicIP privateIP,
      g { m with floatingIP, publicIP, privateIP } = g m) (inst : Instance) :
    g (f inst).machine = g inst.machine := by
  obtain ⟨floatingIP, publicIP, privateIP, hMachine⟩ := h.machine inst
  rw [hMachine, hg]

theorem Keeps.cloudID (h : Keeps f) (inst : Instance) :
    (f inst).machine.cloudID = inst.machine.cloudID := h.field (fun _ _ _ _ => rfl) inst

theorem Keeps.spec (h : Keeps f) (inst : Instance) :
    spec disks (f inst).machine = spec disks inst.machine :=
  h.field (g := Cloud.spec disks) (fun _ _ _ _ => rfl) inst

theorem Listable.map (hFleet : Listable cld disks fleet) (h : Keeps f) :
    Listable cld disks (fleet.map f) := by
  have hMem : ∀ {P : Machine → Prop}, (∀ m ∈ fleet.map Instance.machine, P m) →
      (∀ (m : Machine) floatingIP publicIP privateIP, P m →
        P { m with floatingIP, publicIP, privateIP }) →
      ∀ m ∈ (fleet.map f).map Instance.machine, P m := by
    intro P hAll hCongr m hm
    rw [List.map_map] at hm
    obtain ⟨inst, hInst, rfl⟩ := List.mem_map.mp hm
    obtain ⟨floatingIP, publicIP, privateIP, hMachine⟩ := h.machine inst
    rw [Function.comp_apply, hMachine]
    exact hCongr _ _ _ _ (hAll _ (List.mem_map_of_mem hInst))
  refine ⟨⟨?_, ?_, ?_, ?_⟩, ?_⟩
  · exact hMem hFleet.list.owned (fun _ _ _ _ hOwns => hOwns)
  · have hIDs : ((fleet.map f).map Instance.machine).map Machine.cloudID =
        (fleet.map Instance.machine).map Machine.cloudID := by
      simp only [List.map_map]
      exact List.map_congr_left (fun inst _ => h.cloudID inst)
    rw [hIDs]
    exact hFleet.list.distinct
  · exact hMem hFleet.list.named (fun _ _ _ _ hNamed => hNamed)
  · exact hMem hFleet.list.noRole (fun _ _ _ _ hNone => hNone)
  · intro inst' hInst'
    obtain ⟨inst, hInst, rfl⟩ := List.mem_map.mp hInst'
    obtain ⟨floatingIP, publicIP, privateIP, hMachine⟩ := h.machine inst
    rw [hMachine]
    exact hFleet.disk inst hInst

theorem Truthful.map {dbms : List Machine} (hTruth : Truthful fleet dbms) (h : Keeps f) :
    Truthful (fleet.map f) dbms := by
  refine ⟨fun dbm hdbm inst' hInst' hID => ?_, fun dbm hdbm => ?_, hTruth.once⟩
  · obtain ⟨inst, hInst, rfl⟩ := List.mem_map.mp hInst'
    have hDescribes := hTruth.agrees dbm hdbm inst hInst (hID.trans (h.cloudID inst))
    obtain ⟨floatingIP, publicIP, privateIP, hMachine⟩ := h.machine inst
    constructor <;> rw [hMachine]
    · exact hDescribes.preemptible
    · exact hDescribes.size
    · exact hDescribes.diskSize
  · refine (hTruth.known dbm hdbm).imp id ?_
    rintro ⟨inst, hInst, hID, hRole⟩
    exact ⟨f inst, List.mem_map_of_mem hInst, hID.trans (h.cloudID inst).symm,
      hRole.trans (h.role inst).symm⟩

theorem Keeps.kinds (h : Keeps f) (fleet : List Instance) :
    (fleet.map f).map (fun inst => (Cloud.spec disks inst.machine, inst.role)) =
      fleet.map (fun inst => (Cloud.spec disks inst.machine, inst.role)) := by
  rw [List.map_map]
  refine List.map_congr_left (fun inst _ => ?_)
  rw [Function.comp_apply, h.spec, h.role]

end Frames

section Floating

variable {cld : Cloud} {disks : Bool × String → Bool} {bpms updates : List Machine}
  {fleet : List Instance}

/-- The floating IPs that are asked for go to machines without one, and are not at
any other machine. -/
structure Moves (disks : Bool × String → Bool) (bpms : List Machine) (fleet : List Instance)
    (updates : List Machine) : Prop where
  target : ∀ m ∈ updates, m.floatingIP ≠ "" ∧ ∃ bpm ∈ bpms, bpm.floatingIP = m.floatingIP ∧
    ∃ inst ∈ fleet, inst.machine.cloudID = m.cloudID ∧ spec disks bpm = spec disks inst.machine ∧
      bpm.role = inst.role
  free : ∀ m ∈ updates, ∀ inst ∈ fleet, inst.machine.floatingIP = m.floatingIP →
    inst.machine.cloudID = m.cloudID
  apart : ∀ m ∈ updates, ∀ m' ∈ updates, m.floatingIP = m'.floatingIP → m.cloudID = m'.cloudID

theorem Moves.nil : Moves disks bpms fleet [] := ⟨by simp, by simp, by simp⟩

theorem floatingIP_of_eq {m : Machine} {inst : Instance} (h : inst.machine.cloudID = m.cloudID) :
    (setFloatingIP m inst).machine.floatingIP = m.floatingIP := by
  rw [setFloatingIP, if_pos h]

theorem floatingIP_of_ne {m : Machine} {inst : Instance} (h : inst.machine.cloudID ≠ m.cloudID) :
    (setFloatingIP m inst).machine.floatingIP = inst.machine.floatingIP := by
  rw [setFloatingIP, if_neg h]

theorem Moves.map {f : Instance → Instance} (h : Moves disks bpms fleet updates) (hKeeps : Keeps f)
    (hFree : ∀ m ∈ updates, ∀ inst ∈ fleet, (f inst).machine.floatingIP = m.floatingIP →
      inst.machine.cloudID = m.cloudID) : Moves disks bpms (fleet.map f) updates := by
  refine ⟨fun m hm => ?_, fun m hm inst' hInst' hIP => ?_, h.apart⟩
  · obtain ⟨hSome, bpm, hbpm, hIP, inst, hInst, hID, hSpec, hRole⟩ := h.target m hm
    exact ⟨hSome, bpm, hbpm, hIP, f inst, List.mem_map_of_mem hInst,
      (hKeeps.cloudID inst).trans hID, hSpec.trans (hKeeps.spec inst).symm,
      hRole.trans (hKeeps.role inst).symm⟩
  · obtain ⟨inst, hInst, rfl⟩ := List.mem_map.mp hInst'
    exact (hKeeps.cloudID inst).trans (hFree m hm inst hInst hIP)

/-- One move keeps the other ones possible. -/
theorem Moves.move (h : Moves disks bpms fleet updates) {m : Machine} (hm : m ∈ updates) :
    Moves disks bpms (fleet.map (setFloatingIP m)) updates := by
  refine h.map (keeps_setFloatingIP m) (fun m' hm' inst hInst hIP => ?_)
  by_cases hID : inst.machine.cloudID = m.cloudID
  · rw [floatingIP_of_eq hID] at hIP
    exact hID.trans (h.apart m hm m' hm' hIP)
  · rw [floatingIP_of_ne hID] at hIP
    exact h.free m' hm' inst hInst hIP

/-- A move makes no machine wrong. -/
theorem Right.move (h : Right disks bpms fleet) (hFleet : Listable cld disks fleet)
    (hMoves : Moves disks bpms fleet updates) {m : Machine} (hm : m ∈ updates) :
    Right disks bpms (fleet.map (setFloatingIP m)) := by
  have hKeeps := keeps_setFloatingIP m
  obtain ⟨hSome, bpm, hbpm, hIP, target, hTarget, hTargetID, hSpec, hRole⟩ := hMoves.target m hm
  refine ⟨?_, fun inst' hInst' hSome' => ?_, ?_⟩
  · rw [hKeeps.kinds]
    exact h.kinds
  · obtain ⟨inst, hInst, rfl⟩ := List.mem_map.mp hInst'
    rw [hKeeps.spec, hKeeps.role]
    by_cases hID : inst.machine.cloudID = m.cloudID
    · obtain rfl := hFleet.eq_of_cloudID hInst hTarget (hID.trans hTargetID.symm)
      rw [floatingIP_of_eq hID]
      exact ⟨bpm, hbpm, hIP, hSpec, hRole⟩
    · rw [floatingIP_of_ne hID] at hSome' ⊢
      exact h.floating inst hInst hSome'
  · have hApart : fleet.Pairwise
        (fun inst inst' => inst.machine.cloudID ≠ inst'.machine.cloudID) :=
      List.pairwise_map.mp hFleet.nodup_cloudIDs
    rw [List.pairwise_map]
    refine (h.held.and hApart).imp_of_mem (fun {inst inst'} hInst hInst' hBoth hSame => ?_)
    obtain ⟨hOld, hNe⟩ := hBoth
    by_cases hID : inst.machine.cloudID = m.cloudID
    · have hID' : inst'.machine.cloudID ≠ m.cloudID := fun hEq => hNe (hID.trans hEq.symm)
      rw [floatingIP_of_eq hID, floatingIP_of_ne hID'] at hSame
      exact absurd (hMoves.free m hm inst' hInst' hSame.symm) hID'
    · by_cases hID' : inst'.machine.cloudID = m.cloudID
      · rw [floatingIP_of_ne hID, floatingIP_of_eq hID'] at hSame
        exact absurd (hMoves.free m hm inst hInst hSame) hID
      · rw [floatingIP_of_ne hID, floatingIP_of_ne hID'] at hSame
        rw [floatingIP_of_ne hID]
        exact hOld hSame

theorem floatingIP_setAddresses (cloudID publicIP privateIP : String) (inst : Instance) :
    (setAddresses cloudID publicIP privateIP inst).machine.floatingIP = inst.machine.floatingIP := by
  rw [setAddresses]
  split_ifs <;> rfl

theorem Right.address (h : Right disks bpms fleet) (cloudID publicIP privateIP : String) :
    Right disks bpms (fleet.map (setAddresses cloudID publicIP privateIP)) := by
  have hKeeps := keeps_setAddresses cloudID publicIP privateIP
  refine ⟨?_, fun inst' hInst' hSome => ?_, ?_⟩
  · rw [hKeeps.kinds]
    exact h.kinds
  · obtain ⟨inst, hInst, rfl⟩ := List.mem_map.mp hInst'
    rw [floatingIP_setAddresses] at hSome ⊢
    rw [hKeeps.spec, hKeeps.role]
    exact h.floating inst hInst hSome
  · rw [List.pairwise_map]
    simp only [floatingIP_setAddresses]
    exact h.held

theorem Moves.address (h : Moves disks bpms fleet updates) (cloudID publicIP privateIP : String) :
    Moves disks bpms (fleet.map (setAddresses cloudID publicIP privateIP)) updates := by
  refine h.map (keeps_setAddresses _ _ _) (fun m hm inst hInst hIP => h.free m hm inst hInst ?_)
  rwa [floatingIP_setAddresses] at hIP

end Floating

section Join

variable {cld : CloudThread} {adminKey : String} {disks : Bool × String → Bool}
  {ords : Nat → MapOrder} {machines : List Machine} {view view' : Database} {bpRow : BlueprintRow}
  {fleet : List Instance} {res : JoinResult} {acls : List ACL}

theorem joinImpl_stages (hBlueprint : view.rows .blueprint = [bpRow])
    (h : cld.joinImpl adminKey ords machines view = .ok (.ok ((res, acls), view'))) :
    ∃ synced, cld.syncDBWithCloud machines (ords 1) view = .ok synced ∧
      synced.rows .blueprint = [bpRow] ∧ view'.rows .blueprint = [bpRow] ∧
      cld.syncDBWithBlueprint adminKey (fun n => ords (n + 2)) synced = .ok (res, view') := by
  rw [CloudThread.joinImpl, getBlueprint_single hBlueprint] at h
  obtain ⟨found, hFound, h⟩ := Except.exists_of_bind_eq_ok h
  cases hFound
  dsimp only at h
  by_cases hNamespace : cld.nameSpace ≠ bpRow.blueprint.nameSpace
  · rw [if_pos hNamespace] at h
    cases Except.ok.inj h
  · rw [if_neg hNamespace] at h
    obtain ⟨synced, hSync, hRest⟩ := Except.exists_of_bind_eq_ok h
    obtain ⟨⟨res', last⟩, hLast, hOut⟩ := Except.exists_of_bind_eq_ok hRest
    obtain ⟨hRes, rfl⟩ := Prod.mk.inj (Except.ok.inj (Except.ok.inj hOut))
    obtain rfl := (Prod.mk.inj hRes).1
    have hSynced := ((World.syncDBWithCloud_writes hSync).touches.rows .blueprint
      (by decide)).trans hBlueprint
    exact ⟨synced, hSync, hSynced, ((World.syncDBWithBlueprint_writes hLast).touches.rows .blueprint
      (by decide)).trans hSynced, hLast⟩

/-- A join with a list of the region succeeds in its own namespace. -/
theorem joinImpl_succeeds (hBlueprint : view.rows .blueprint = [bpRow])
    (hNamespace : cld.nameSpace = bpRow.blueprint.nameSpace)
    (hOwned : ∀ cm ∈ machines, cld.owns cm = true) (ords : Nat → MapOrder) :
    ∃ res acls view', cld.joinImpl adminKey ords machines view =
      .ok (.ok ((res, acls), view')) := by
  obtain ⟨synced, -, -, -, hSync, -⟩ := syncDBWithCloud_rows cld.toCloud hOwned (ords 1) view rfl
  have hSame : synced.rows .blueprint = [bpRow] :=
    ((World.syncDBWithCloud_writes hSync).touches.rows .blueprint (by decide)).trans hBlueprint
  obtain ⟨res, view', -, -, -, hLast, -⟩ := syncDBWithBlueprint_rows cld.toCloud adminKey
    (fun n => ords (n + 2)) hSame rfl rfl
  refine ⟨res, if 0 < machines.length then (ords 4).walk (desiredACLs bpRow.blueprint) else [],
    view', ?_⟩
  rw [CloudThread.joinImpl, getBlueprint_single hBlueprint]
  show (if cld.nameSpace ≠ bpRow.blueprint.nameSpace then _ else _) = _
  rw [if_neg (not_not.mpr hNamespace), hSync]
  show (cld.syncDBWithBlueprint adminKey (fun n => ords (n + 2)) synced >>= _) = _
  rw [hLast]
  rfl

theorem Rows.perm {dbms dbms' : List Machine} (h : Rows fleet dbms) (hPerm : dbms'.Perm dbms) :
    Rows fleet dbms' :=
  ⟨(hPerm.map cloudPart).trans h.listed, fun dbm hdbm => h.truthful dbm (hPerm.mem_iff.mp hdbm)⟩

/-- The rows of a region after the second half of a join that neither boots nor
stops anything. -/
theorem owned_perm {cld : Cloud} {bpms dbms : List Machine}
    {M : List (Fin bpms.length × Fin dbms.length)} {lr : List (Fin dbms.length)}
    (hOwned : ∀ dbm ∈ dbms, cld.owns dbm = true)
    (hRights : (M.map Prod.snd ++ lr).Perm (List.finRange dbms.length)) (hNone : lr = [])
    (hRows : (view'.rows .machine).Perm ((view.rows .machine).filter (fun dbm => !cld.owns dbm) ++
      M.map (fun p => matchedRow (bpms.get p.1) (dbms.get p.2)))) :
    (∀ r ∈ (view'.rows .machine).filter cld.owns,
        ∃ bpm, ∃ dbm ∈ dbms, r = matchedRow bpm dbm) ∧
      (((view'.rows .machine).filter cld.owns).map Machine.cloudID).Perm
        (dbms.map Machine.cloudID) := by
  have hPerm : ((view'.rows .machine).filter cld.owns).Perm
      (M.map (fun p => matchedRow (bpms.get p.1) (dbms.get p.2))) := by
    refine (hRows.filter _).trans (List.Perm.of_eq (filter_owns_append cld view ?_))
    intro r hr
    obtain ⟨p, -, rfl⟩ := List.mem_map.mp hr
    rw [matchedRow_settled]
    exact hOwned (dbms.get p.2) (List.get_mem _ _)
  constructor
  · intro r hr
    obtain ⟨p, -, rfl⟩ := List.mem_map.mp (hPerm.mem_iff.mp hr)
    exact ⟨_, _, List.get_mem dbms p.2, rfl⟩
  · refine (hPerm.map _).trans ?_
    have hIDs := (Lists.get_perm hRights).map Machine.cloudID
    rw [hNone, List.map_nil, List.append_nil] at hIDs
    refine List.Perm.trans (List.Perm.of_eq ?_) hIDs
    simp only [List.map_map]
    refine List.map_congr_left (fun p _ => ?_)
    simp only [Function.comp_apply, matchedRow_settled]

/-- A join over the right machines asks for nothing but floating IPs. -/
theorem join_right (hBlueprint : view.rows .blueprint = [bpRow])
    (hDefinite : Definite (cld.desiredMachines adminKey bpRow.blueprint.machines))
    (hFleet : Listable cld.toCloud disks fleet)
    (hRight : Right disks (cld.desiredMachines adminKey bpRow.blueprint.machines) fleet)
    (hTruth : Truthful fleet ((view.rows .machine).filter cld.owns))
    (hList : machines.Perm (fleet.map Instance.machine))
    (hRun : cld.joinImpl adminKey ords machines view = .ok (.ok ((res, acls), view'))) :
    res.boot = [] ∧ res.terminate = [] ∧
      Truthful fleet ((view'.rows .machine).filter cld.owns) ∧
      Moves disks (cld.desiredMachines adminKey bpRow.blueprint.machines) fleet res.updateIPs := by
  obtain ⟨synced, hSync, hSynced, -, hLast⟩ := joinImpl_stages hBlueprint hRun
  set bpms := cld.desiredMachines adminKey bpRow.blueprint.machines with hBPMs
  set dbms := cld.selectMachines (ords 3) synced with hDBMs
  have hOwned : ∀ dbm ∈ dbms, cld.owns dbm = true := fun dbm h => (synced.mem_select.mp h).2
  have hRows : Rows fleet dbms := by
    refine (syncDBWithCloud_truthful hFleet hList hTruth hSync).perm ?_
    exact ((ords 3).perm (synced.rows .machine)).filter _
  have hFits := hRight.fits hFleet hBPMs.symm hDefinite hOwned hRows
  obtain ⟨res', after, M, ll, lr, hRun', hPositions, hRanked, hBoot, hTerminate, hUpdate, hTable,
    -⟩ := syncDBWithBlueprint_rows cld.toCloud adminKey (fun n => ords (n + 2)) hSynced hBPMs.symm
      hDBMs.symm
  obtain ⟨rfl, rfl⟩ := Prod.mk.inj (Except.ok.inj (hRun'.symm.trans hLast))
  have hStable := stable_of_rank hRanked
  obtain ⟨hLefts, hRights⟩ := hFits.nothing_lonely hStable hPositions
  rw [hLefts] at hBoot
  rw [hRights] at hTerminate
  have hNoBoot : res'.boot = [] := hBoot
  have hNoStop : res'.terminate = [] := hTerminate
  rw [hNoBoot, hNoStop, List.map_nil, List.append_nil, List.append_nil] at hTable
  obtain ⟨hFrom, hIDs⟩ := owned_perm hOwned hPositions.rights hRights hTable
  refine ⟨hNoBoot, hNoStop, ?_, ?_⟩
  · exact hRows.matched_truthful hFleet hFrom (hIDs.nodup_iff.mpr (hRows.nodup_cloudIDs hFleet))
  · have hOrigin : ∀ m ∈ res'.updateIPs, ∃ p ∈ M, (dbms.get p.2).role ≠ .none ∧
        (bpms.get p.1).floatingIP ≠ (dbms.get p.2).floatingIP ∧
        m.floatingIP = (bpms.get p.1).floatingIP ∧ m.cloudID = (dbms.get p.2).cloudID := by
      intro m hm
      rw [hUpdate] at hm
      obtain ⟨p, hp, hSome⟩ := List.mem_filterMap.mp hm
      rw [floatingUpdate, matchedRow_settled] at hSome
      split_ifs at hSome with hDue
      cases hSome
      exact ⟨p, hp, hDue.1, hDue.2, rfl, rfl⟩
    refine ⟨fun m hm => ?_, fun m hm inst hInst hIP => ?_, fun m hm m' hm' hIP => ?_⟩
    · obtain ⟨⟨i, j⟩, hp, hKnown, hDiffer, hIP, hID⟩ := hOrigin m hm
      obtain ⟨hSome, -⟩ := hFits.floating_free hStable hp hDiffer
      obtain ⟨hSpec, hRole⟩ := hFits.true_role hStable hp (Or.inl hKnown)
      obtain ⟨inst, hInst, hPart, hInstID⟩ := exists_instance hRows (List.get_mem dbms j)
      refine ⟨hIP ▸ hSome, bpms.get i, List.get_mem _ _, hIP.symm, inst, hInst,
        hInstID.symm.trans hID.symm, hSpec.trans (spec_eq_of_cloudPart hPart), ?_⟩
      rw [hRole, hFleet.roleOf_eq hInst hInstID]
    · obtain ⟨⟨i, j⟩, hp, -, hDiffer, hIP', -⟩ := hOrigin m hm
      obtain ⟨-, hFree⟩ := hFits.floating_free hStable hp hDiffer
      have hMem : inst.machine.floatingIP ∈ dbms.map Machine.floatingIP := by
        rw [(map_field_perm (f := Machine.floatingIP) (fun _ => rfl) hRows).mem_iff]
        exact List.mem_map_of_mem hInst
      obtain ⟨dbm, hdbm, hRowIP⟩ := List.mem_map.mp hMem
      exact absurd (hRowIP.trans (hIP.trans hIP')) (hFree dbm hdbm)
    · obtain ⟨⟨i, j⟩, hp, -, hDiffer, hEq, hID⟩ := hOrigin m hm
      obtain ⟨⟨i', j'⟩, hp', -, -, hEq', hID'⟩ := hOrigin m' hm'
      obtain ⟨hSome, -⟩ := hFits.floating_free hStable hp hDiffer
      have hLeft : i = i' := position_eq_of_floatingIP hDefinite.distinct
        (hEq.symm.trans (hIP.trans hEq')) hSome
      have hRight' : j = j' :=
        congrArg Prod.snd (List.inj_on_of_nodup_map hStable.matching.left hp hp' hLeft)
      rw [hID, hID', hRight']

theorem map_bootedMachines {β : Type} {f : Machine → β}
    (hf : ∀ id bpm, f (bootedMachine id bpm) = f bpm) (curID : Nat) (bpms : List Machine) :
    (bootedMachines curID bpms).map f = bpms.map f := by
  induction bpms generalizing curID with
  | nil => rfl
  | cons bpm bpms ih => rw [bootedMachines_cons, List.map_cons, List.map_cons, hf, ih]

/-- A join over an empty region asks for all machines of the blueprint. -/
theorem join_empty (hBlueprint : view.rows .blueprint = [bpRow])
    (hTruth : Truthful [] ((view.rows .machine).filter cld.owns))
    (hRun : cld.joinImpl adminKey ords [] view = .ok (.ok ((res, acls), view'))) :
    (res.boot.map (fun bpm => (spec disks bpm, bpm.role))).Perm
        ((cld.desiredMachines adminKey bpRow.blueprint.machines).map
          (fun bpm => (spec disks bpm, bpm.role))) ∧
      res.terminate = [] ∧ res.updateIPs = [] ∧
      ∀ r ∈ (view'.rows .machine).filter cld.owns, r.role = .none := by
  obtain ⟨synced, hSync, hSynced, -, hLast⟩ := joinImpl_stages hBlueprint hRun
  have hRows := syncDBWithCloud_truthful (.nil : Listable _ disks []) (List.Perm.refl _) hTruth hSync
  have hSelect : cld.selectMachines (ords 3) synced = [] := by
    have hNil := (hRows.perm (((ords 3).perm (synced.rows .machine)).filter cld.owns)).listed
    exact List.map_eq_nil_iff.mp (List.perm_nil.mp hNil)
  obtain ⟨res', after, M, ll, lr, hRun', hPositions, -, hBoot, hTerminate, hUpdate, hTable,
    -⟩ := syncDBWithBlueprint_rows cld.toCloud adminKey (fun n => ords (n + 2)) hSynced rfl
      hSelect
  obtain ⟨rfl, rfl⟩ := Prod.mk.inj (Except.ok.inj (hRun'.symm.trans hLast))
  have hNoPairs : M = [] := List.eq_nil_iff_forall_not_mem.mpr (fun p _ => p.2.elim0)
  have hNoRights : lr = [] := List.eq_nil_iff_forall_not_mem.mpr (fun j _ => j.elim0)
  subst hNoPairs hNoRights
  have hAll := Lists.get_perm hPositions.lefts
  rw [List.map_nil, List.map_nil, List.nil_append] at hAll
  refine ⟨?_, hTerminate, hUpdate, ?_⟩
  · rw [hBoot]
    exact List.Perm.trans (List.Perm.of_eq (map_bootedMachines (fun _ _ => rfl) _ _)) (hAll.map _)
  · intro r hr
    obtain ⟨hMem, hOwns⟩ := List.mem_filter.mp hr
    rw [hTerminate] at hTable
    simp only [List.map_nil, List.append_nil] at hTable
    rcases List.mem_append.mp (hTable.mem_iff.mp hMem) with hOther | hBooted
    · have hNot := (List.mem_filter.mp hOther).2
      rw [hOwns] at hNot
      cases hNot
    · obtain ⟨bpm, -, rfl⟩ := List.mem_map.mp hBooted
      rfl

end Join

section Status

variable {cld : Cloud} {fleet : List Instance} {view view' : Database}

theorem mem_rows_commit {tt : TableType} {r old : RowOf tt} (hOld : old ∈ view.rows tt)
    (hID : getID tt old = getID tt r) (h : view.commit tt r = .ok view') (r' : RowOf tt) :
    r' ∈ view'.rows tt ↔ r' = r ∨ r' ∈ view.rows tt ∧ r' ≠ old := by
  obtain ⟨after, hAfter, hRows, -⟩ := view.commit_spec hOld hID
  cases hAfter.symm.trans h
  rw [hRows, replaceRow, List.mem_map]
  constructor
  · rintro ⟨other, hOther, rfl⟩
    by_cases hSame : getID tt other = getID tt r
    · exact Or.inl (if_pos hSame)
    · rw [if_neg hSame]
      exact Or.inr ⟨hOther, fun hEq => hSame (hEq ▸ hID)⟩
  · rintro (rfl | ⟨hr, hNe⟩)
    · exact ⟨old, hOld, if_pos hID⟩
    · exact ⟨r', hr, if_neg (fun hSame => hNe (view.eq_of_getID_eq hr hOld (hSame.trans hID.symm)))⟩

/-- The foreman changes at most the row of the one machine with the cloud ID, and
of this only what it has learned. -/
theorem setMinionStatus_rows {ord : MapOrder} {cloudID : String} {code : Int} {role : Role}
    {isConnected : Bool} (hCode : pbToRole code = .ok role)
    (hRun : setMinionStatus ord cloudID code isConnected view = .ok view') :
    view' = view ∨ ∃ dbm status, dbm ∈ view.rows .machine ∧ dbm.cloudID = cloudID ∧
      (∀ r ∈ view.rows .machine, r.cloudID = cloudID → r = dbm) ∧
      ∀ r, r ∈ view'.rows .machine ↔
        r = { dbm with role, connected := isConnected, status } ∨
          r ∈ view.rows .machine ∧ r ≠ dbm := by
  rw [setMinionStatus] at hRun
  split at hRun
  case h_2 => exact Or.inl (Except.ok.inj hRun).symm
  case h_1 dbm hSelect =>
    have hMem : ∀ r, r = dbm ↔ r ∈ view.rows .machine ∧ r.cloudID = cloudID := by
      intro r
      rw [← List.mem_singleton, ← hSelect]
      simp [view.mem_select]
    split_ifs at hRun with hStopping
    · exact Or.inl (Except.ok.inj hRun).symm
    · rw [hCode] at hRun
      obtain ⟨hRow, hID⟩ := (hMem dbm).mp rfl
      have hCommit : ∃ status, view.commit .machine
          ({ dbm with role, connected := isConnected, status } : Machine) = .ok view' := by
        dsimp only [bind, Except.bind] at hRun
        split_ifs at hRun
        · exact ⟨_, hRun⟩
        · exact ⟨dbm.status, hRun⟩
      obtain ⟨status, hCommit⟩ := hCommit
      refine Or.inr ⟨dbm, status, hRow, hID, fun r hr hSame => (hMem r).mpr ⟨hr, hSame⟩, ?_⟩
      exact @mem_rows_commit view view' .machine _ dbm hRow rfl hCommit

theorem Truthful.status {ord : MapOrder} {cloudID : String} {code : Int} {role : Role}
    {isConnected : Bool} (hTruth : Truthful fleet ((view.rows .machine).filter cld.owns))
    (hCode : pbToRole code = .ok role)
    (hTrue : role = .none ∨ ∃ inst ∈ fleet, cloudID = inst.machine.cloudID ∧ role = inst.role)
    (hRun : setMinionStatus ord cloudID code isConnected view = .ok view') :
    Truthful fleet ((view'.rows .machine).filter cld.owns) := by
  rcases setMinionStatus_rows hCode hRun with rfl | ⟨dbm, status, hRow, hID, hOnly, hRows⟩
  · exact hTruth
  have hCases : ∀ r ∈ (view'.rows .machine).filter cld.owns,
      (r = { dbm with role, connected := isConnected, status } ∧ cld.owns dbm = true) ∨
        (r ∈ (view.rows .machine).filter cld.owns ∧ r.cloudID ≠ cloudID) := by
    intro r hr
    obtain ⟨hMem, hOwns⟩ := List.mem_filter.mp hr
    rcases (hRows r).mp hMem with rfl | ⟨hOld, hNe⟩
    · exact Or.inl ⟨rfl, hOwns⟩
    · exact Or.inr ⟨List.mem_filter.mpr ⟨hOld, hOwns⟩, fun hSame => hNe (hOnly r hOld hSame)⟩
  refine ⟨fun r hr inst hInst hSame => ?_, fun r hr => ?_, fun r hr r' hr' hKnown hSame => ?_⟩
  · rcases hCases r hr with ⟨rfl, hOwns⟩ | ⟨hOld, -⟩
    · obtain ⟨hPreemptible, hSize, hDisk⟩ :=
        hTruth.agrees dbm (List.mem_filter.mpr ⟨hRow, hOwns⟩) inst hInst hSame
      exact ⟨hPreemptible, hSize, hDisk⟩
    · exact hTruth.agrees r hOld inst hInst hSame
  · rcases hCases r hr with ⟨rfl, -⟩ | ⟨hOld, -⟩
    · refine hTrue.imp id ?_
      rintro ⟨inst, hInst, hSame, hRole⟩
      exact ⟨inst, hInst, hID.trans hSame, hRole⟩
    · exact hTruth.known r hOld
  · rcases hCases r hr with ⟨rfl, -⟩ | ⟨hOld, hOther⟩ <;>
      rcases hCases r' hr' with ⟨rfl, -⟩ | ⟨hOld', hOther'⟩
    · rfl
    · exact absurd (hSame.symm.trans hID) hOther'
    · exact absurd (hSame.trans hID) hOther
    · exact hTruth.once r hOld r' hOld' hKnown hSame

end Status

section Runs

variable {cld : CloudThread} {adminKey : String} {disks : Bool × String → Bool}
  {bpRow : BlueprintRow} {w w' : Region}

/-- What holds in all runs: the region is empty, or its machines are the right ones. -/
structure Region.Steady (cld : CloudThread) (adminKey : String) (disks : Bool × String → Bool)
    (bpRow : BlueprintRow) (w : Region) : Prop where
  blueprint : w.db.rows .blueprint = [bpRow]
  listable : Listable cld.toCloud disks w.fleet
  truthful : Truthful w.fleet ((w.db.rows .machine).filter cld.owns)
  fleet : w.fleet = [] ∧ (w.pending.boot = [] ∨
      (w.pending.boot.map (fun bpm => (spec disks bpm, bpm.role))).Perm
        ((cld.desiredMachines adminKey bpRow.blueprint.machines).map
          (fun bpm => (spec disks bpm, bpm.role)))) ∨
    Right disks (cld.desiredMachines adminKey bpRow.blueprint.machines) w.fleet ∧
      w.pending.boot = []
  terminate : w.pending.terminate = []
  moves : Moves disks (cld.desiredMachines adminKey bpRow.blueprint.machines) w.fleet
    w.pending.updateIPs

theorem truthful_of_noRole {dbms : List Machine} (h : ∀ dbm ∈ dbms, dbm.role = .none)
    {fleet : List Instance} (hFresh : ∀ inst ∈ fleet, ∀ dbm ∈ dbms,
      dbm.cloudID ≠ inst.machine.cloudID) : Truthful fleet dbms :=
  ⟨fun dbm hdbm inst hInst hID => absurd hID (hFresh inst hInst dbm hdbm),
    fun dbm hdbm => Or.inl (h dbm hdbm), fun dbm hdbm _ _ hKnown => absurd (h dbm hdbm) hKnown⟩

/-- All machines are booted at once, and have no floating IPs yet. -/
theorem right_of_launched {bpms asked : List Machine} {launched : List Instance}
    (hKinds : (asked.map (fun bpm => (spec disks bpm, bpm.role))).Perm
      (bpms.map (fun bpm => (spec disks bpm, bpm.role))))
    (hBoot : List.Forall₂ (Launches disks) (sanitizeMachines asked) launched) :
    Right disks bpms launched := by
  have hSame : (sanitizeMachines asked).map (fun m => ((spec disks m, m.role), "")) =
      launched.map (fun inst =>
        ((spec disks inst.machine, inst.role), inst.machine.floatingIP)) := by
    rw [← List.forall₂_eq_eq_eq, List.forall₂_map_left_iff, List.forall₂_map_right_iff]
    refine hBoot.imp (fun m inst hLaunch => ?_)
    rw [hLaunch.spec, hLaunch.role, hLaunch.floatingIP]
  have hNoIP : ∀ inst ∈ launched, inst.machine.floatingIP = "" := by
    intro inst hInst
    have hMem : ((spec disks inst.machine, inst.role), inst.machine.floatingIP) ∈
        (sanitizeMachines asked).map (fun m => ((spec disks m, m.role), "")) :=
      hSame ▸ List.mem_map_of_mem hInst
    obtain ⟨m, -, hEq⟩ := List.mem_map.mp hMem
    exact (Prod.mk.inj hEq).2.symm
  refine ⟨?_, fun inst hInst hSome => absurd (hNoIP inst hInst) hSome, ?_⟩
  · have hFirst := congrArg (List.map Prod.fst) hSame
    rw [List.map_map, List.map_map, sanitizeMachines, List.map_map] at hFirst
    exact List.Perm.trans (List.Perm.of_eq hFirst.symm) hKinds
  · exact List.pairwise_of_forall_mem_list (fun inst hInst _ _ _ => hNoIP inst hInst)

/-- Each step keeps it. -/
theorem Region.Steady.step
    (hDefinite : Definite (cld.desiredMachines adminKey bpRow.blueprint.machines))
    (h : w.Steady cld adminKey disks bpRow) (hStep : Region.Step cld adminKey disks w w') :
    w'.Steady cld adminKey disks bpRow := by
  obtain ⟨hBlueprint, hListable, hTruth, hFleet, hTerminate, hMoves⟩ := h
  cases hStep with
  | @join ords machines res acls db' hList hRun =>
      obtain ⟨-, -, -, hSame, -⟩ := joinImpl_stages hBlueprint hRun
      rcases hFleet with ⟨hEmpty, -⟩ | ⟨hRight, -⟩
      · rw [hEmpty] at hList hTruth
        obtain rfl : machines = [] := hList.eq_nil
        obtain ⟨hBoot, hStop, hUpdate, hNoRole⟩ := join_empty hBlueprint hTruth hRun
        refine ⟨hSame, hListable, ?_, Or.inl ⟨hEmpty, Or.inr hBoot⟩, hStop, ?_⟩
        · exact truthful_of_noRole hNoRole (by simp [hEmpty])
        · rw [hUpdate]
          exact Moves.nil
      · obtain ⟨hBoot, hStop, hTruth', hMoves'⟩ :=
          join_right hBlueprint hDefinite hListable hRight hTruth hList hRun
        exact ⟨hSame, hListable, hTruth', Or.inr ⟨hRight, hBoot⟩, hStop, hMoves'⟩
  | @boot launched hBoot hList hFresh =>
      by_cases hNone : w.pending.boot = []
      · rw [hNone] at hBoot
        cases hBoot
        rw [List.append_nil]
        exact ⟨hBlueprint, hListable, hTruth, hFleet.imp (fun hLeft => ⟨hLeft.1, Or.inl rfl⟩)
          (fun hRight => ⟨hRight.1, rfl⟩), hTerminate, hMoves⟩
      · obtain ⟨hEmpty, hKinds⟩ := hFleet.resolve_right (fun hRight => hNone hRight.2)
        rw [hEmpty, List.nil_append] at hList ⊢
        rw [hEmpty] at hTruth hMoves
        refine ⟨hBlueprint, hList, ?_, Or.inr ⟨?_, rfl⟩, hTerminate, ?_⟩
        · refine truthful_of_noRole (fun dbm hdbm => (hTruth.known dbm hdbm).resolve_right ?_)
            (fun inst hInst dbm hdbm => hFresh inst hInst dbm (List.mem_filter.mp hdbm).1)
          rintro ⟨inst, hInst, -⟩
          cases hInst
        · exact right_of_launched (hKinds.resolve_left hNone) hBoot
        · have hNoMoves : w.pending.updateIPs = [] := by
            refine List.eq_nil_iff_forall_not_mem.mpr (fun m hm => ?_)
            obtain ⟨-, -, -, -, inst, hInst, -⟩ := hMoves.target m hm
            cases hInst
          rw [hNoMoves]
          exact Moves.nil
  | @stop asked hStop =>
      rw [hTerminate] at hStop
      cases hStop
  | @move asked hMove =>
      obtain ⟨m, hm, rfl⟩ := List.mem_map.mp hMove
      have hKeeps := keeps_setFloatingIP m
      rcases hFleet with ⟨hEmpty, -⟩ | ⟨hRight, hBoot⟩
      · obtain ⟨-, -, -, -, inst, hInst, -⟩ := hMoves.target m hm
        rw [hEmpty] at hInst
        cases hInst
      · exact ⟨hBlueprint, hListable.map hKeeps, hTruth.map hKeeps,
          Or.inr ⟨(hRight.move hListable hMoves hm :), hBoot⟩, hTerminate, (hMoves.move hm :)⟩
  | address cloudID publicIP privateIP =>
      have hKeeps := keeps_setAddresses cloudID publicIP privateIP
      refine ⟨hBlueprint, hListable.map hKeeps, hTruth.map hKeeps, ?_, hTerminate,
        hMoves.address _ _ _⟩
      refine hFleet.imp (fun hLeft => ⟨?_, hLeft.2⟩)
        (fun hRight => ⟨hRight.1.address _ _ _, hRight.2⟩)
      rw [hLeft.1]
      rfl
  | @status ord cloudID code role isConnected db' hCode hTrue hRun =>
      have hSame : db'.rows .blueprint = [bpRow] := ((World.setMinionStatus_writes
        hRun).1.touches.rows .blueprint (by decide)).trans hBlueprint
      exact ⟨hSame, hListable, hTruth.status hCode hTrue hRun, hFleet, hTerminate, hMoves⟩
  | @other db' hSame hOwned =>
      exact ⟨hSame.trans hBlueprint, hListable, hOwned ▸ hTruth, hFleet, hTerminate, hMoves⟩
  | @restart db' hSame hNone =>
      refine ⟨hSame.trans hBlueprint, hListable, ?_, ?_, rfl, Moves.nil⟩
      · rw [hNone]
        exact truthful_of_noRole (by simp) (by simp)
      · exact hFleet.imp (fun hLeft => ⟨hLeft.1, Or.inl rfl⟩) (fun hRight => ⟨hRight.1, rfl⟩)

theorem Region.Steady.run
    (hDefinite : Definite (cld.desiredMachines adminKey bpRow.blueprint.machines))
    (h : w.Steady cld adminKey disks bpRow)
    (hRun : Relation.ReflTransGen (Region.Step cld adminKey disks) w w') :
    w'.Steady cld adminKey disks bpRow := by
  induction hRun with
  | refl => exact h
  | tail _ hStep ih => exact ih.step hDefinite hStep

/-- Start the daemon on an empty region, or on one with the right machines. Once
there are machines, they are those of the blueprint, and no join boots or stops any:
not after a restart, whichever roles the foreman has learned or forgotten, while
floating IPs are moved, and in whatever order the machines are listed. -/
theorem fleet_left_alone {start : Region}
    (hDefinite : Definite (cld.desiredMachines adminKey bpRow.blueprint.machines))
    (hNamespace : cld.nameSpace = bpRow.blueprint.nameSpace)
    (hBlueprint : start.db.rows .blueprint = [bpRow])
    (hNoRows : (start.db.rows .machine).filter cld.owns = []) (hIdle : start.pending = noRequests)
    (hListable : Listable cld.toCloud disks start.fleet)
    (hStart : start.fleet = [] ∨
      Right disks (cld.desiredMachines adminKey bpRow.blueprint.machines) start.fleet)
    (hRun : Relation.ReflTransGen (Region.Step cld adminKey disks) start w)
    (hSome : w.fleet ≠ []) :
    Right disks (cld.desiredMachines adminKey bpRow.blueprint.machines) w.fleet ∧
      ∀ ords machines, machines.Perm (w.fleet.map Instance.machine) →
        ∃ res acls db', cld.joinImpl adminKey ords machines w.db = .ok (.ok ((res, acls), db')) ∧
          res.boot = [] ∧ res.terminate = [] := by
  have hFirst : start.Steady cld adminKey disks bpRow := by
    refine ⟨hBlueprint, hListable, ?_, ?_, ?_, ?_⟩
    · rw [hNoRows]
      exact truthful_of_noRole (by simp) (by simp)
    · rw [hIdle]
      exact hStart.imp (fun hEmpty => ⟨hEmpty, Or.inl rfl⟩) (fun hRight => ⟨hRight, rfl⟩)
    · rw [hIdle]
      rfl
    · rw [hIdle]
      exact Moves.nil
  obtain ⟨hSame, hList, hTruth, hFleet, -, -⟩ := hFirst.run hDefinite hRun
  obtain ⟨hRight, -⟩ := hFleet.resolve_left (fun hEmpty => hSome hEmpty.1)
  refine ⟨hRight, fun ords machines hPerm => ?_⟩
  obtain ⟨res, acls, db', hJoin⟩ := joinImpl_succeeds hSame hNamespace
    (hList.list.perm hPerm).owned ords
  obtain ⟨hBoot, hStop, -⟩ := join_right hSame hDefinite hList hRight hTruth hPerm hJoin
  exact ⟨res, acls, db', hJoin, hBoot, hStop⟩

/-- A master and a worker of one size. The worker has a floating IP. -/
def pairBlueprint : BlueprintRow :=
  ⟨1, ⟨[], [], [], [], [⟨"Amazon", "Master", "m4.large", 0, "us-west-1", [], "", false⟩,
    ⟨"Amazon", "Worker", "m4.large", 0, "us-west-1", [], "5.6.7.8", false⟩], [], "ns", []⟩⟩

def pairThread : CloudThread := ⟨⟨"Amazon", "us-west-1"⟩, "ns"⟩

def pairDB : Database where
  rows
    | .blueprint => [pairBlueprint]
    | _ => []
  shouldAlert := fun _ => false
  curID := 1
  nodup := fun tt => by cases tt <;> decide
  bounded := fun tt => by cases tt <;> decide

/-- What the provider makes of the two requests. -/
def pairFleet : List Instance :=
  [⟨{ id := 0, provider := "Amazon", region := "us-west-1", size := "m4.large", diskSize := 32,
      cloudID := "i-1" }, .master⟩,
    ⟨{ id := 0, provider := "Amazon", region := "us-west-1", size := "m4.large", diskSize := 32,
       cloudID := "i-2" }, .worker⟩]

theorem fleet_left_alone_pair :
    ∃ w, Relation.ReflTransGen (Region.Step pairThread "" (fun _ => true))
        ⟨pairDB, [], noRequests⟩ w ∧ w.fleet = pairFleet ∧
      ∀ ords machines, machines.Perm (w.fleet.map Instance.machine) →
        ∃ res acls db', pairThread.joinImpl "" ords machines w.db = .ok (.ok ((res, acls), db')) ∧
          res.boot = [] ∧ res.terminate = [] := by
  have hJoin : (pairThread.joinImpl "" (fun _ => .stored) [] pairDB >>= fun found =>
      found >>= fun out => .ok (
        decide (out.1.1.boot.map (fun m => ((spec (fun _ => true) m, m.role), "")) =
          pairFleet.map (fun inst =>
            ((spec (fun _ => true) inst.machine, inst.role), inst.machine.floatingIP))),
        decide (∀ dbm ∈ out.2.rows .machine, dbm.cloudID = ""))) = .ok (true, true) := by
    decide +kernel
  obtain ⟨found, hRun, hJoin⟩ := Except.exists_of_bind_eq_ok hJoin
  obtain ⟨⟨⟨res, acls⟩, db'⟩, rfl, hJoin⟩ := Except.exists_of_bind_eq_ok hJoin
  obtain ⟨hBoot, hIDs⟩ := Prod.mk.inj (Except.ok.inj hJoin)
  replace hBoot := of_decide_eq_true hBoot
  rw [← List.forall₂_eq_eq_eq, List.forall₂_map_left_iff, List.forall₂_map_right_iff] at hBoot
  have hListable : Listable pairThread.toCloud (fun _ => true) pairFleet :=
    ⟨⟨by decide, by decide, by decide, by decide⟩, by decide⟩
  have hFirst : Region.Step pairThread "" (fun _ => true) ⟨pairDB, [], noRequests⟩ ⟨db', [], res⟩ :=
    .join (List.Perm.refl _) hRun
  have hSecond : Region.Step pairThread "" (fun _ => true) ⟨db', [], res⟩
      ⟨db', pairFleet, { res with boot := [] }⟩ := by
    refine .boot ?_ hListable (fun inst hInst dbm hdbm hSame => ?_)
    · rw [sanitizeMachines, List.forall₂_map_left_iff]
      refine hBoot.imp (fun m inst hEq => ?_)
      obtain ⟨hKind, hIP⟩ := Prod.mk.inj hEq
      exact ⟨(Prod.mk.inj hKind).1.symm, (Prod.mk.inj hKind).2.symm, hIP.symm⟩
    · refine hListable.list.named inst.machine (List.mem_map_of_mem hInst) ?_
      exact hSame.symm.trans (of_decide_eq_true hIDs dbm hdbm)
  have hSteps := (Relation.ReflTransGen.single hFirst).tail hSecond
  refine ⟨_, hSteps, rfl, ?_⟩
  exact (fleet_left_alone ⟨by decide, by decide⟩ rfl rfl rfl rfl .nil (Or.inl rfl) hSteps
    (by simp [pairFleet])).2

end Runs

end Kelda.Cloud
