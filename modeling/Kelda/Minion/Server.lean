import Kelda.Blueprint.Json
import Kelda.Minion.Policy
import Kelda.Network.ACL

/-! The server through which the daemon reads and writes the config of a minion. -/
namespace Kelda

namespace PB

/-- The role of a minion, as messages carry it. -/
inductive Role where
  | none
  | worker
  | master
deriving DecidableEq

/-- The config of a minion. Its ID is never set. -/
structure MinionConfig where
  role : Role
  privateIP : String
  blueprint : String
  provider : String
  size : String
  region : String
  floatingIP : String
  etcdMembers : List String
  authorizedKeys : List String
deriving DecidableEq

end PB

namespace DB

/-- The message has the three known roles only. -/
def roleToPB : Role → Except String PB.Role
  | .none => .ok .none
  | .worker => .ok .worker
  | .master => .ok .master
  | .other _ _ => .error "Not Reached"

theorem roleToPB_eq_none {r : Role} : roleToPB r = .ok .none ↔ r = .none := by
  cases r <;> simp [roleToPB]

end DB

namespace Minion

open DB PB

section Server

def getMinionConfig (ords : Nat → MapOrder) (view : Database) : Except String MinionConfig := do
  let m ← minionSelf (ords 0) view
  let role ← roleToPB m.role
  let etcd ← getEtcd (ords 1) view
  let bp ← getBlueprint (ords 2) view
  pure
    { role := role
      privateIP := m.privateIP
      blueprint := match bp with
        | .ok blueprintRow => blueprintRow.blueprint.toString
        | .error _ => ""
      provider := m.provider
      size := m.size
      region := m.region
      -- the floating IP is not copied
      floatingIP := ""
      etcdMembers := match etcd with
        | .ok etcdRow => etcdRow.etcdIPs
        | .error _ => []
      authorizedKeys := Text.split '\n' m.authorizedKeys }

/-- Write the row that was found, or a new one if there was none. -/
def storeRow (tt : TableType) (fill : RowOf tt → RowOf tt) (view : Database) :
    Except String (RowOf tt) → Except String Database
  | .ok row => view.commit tt (fill row)
  | .error _ => view.addRow tt fill

/-- The row of the minion under a config. -/
def configured (msg : MinionConfig) (minion : Minion) : Minion :=
  { minion with
    privateIP := msg.privateIP
    provider := msg.provider
    size := msg.size
    region := msg.region
    floatingIP := msg.floatingIP
    authorizedKeys := "\n".intercalate msg.authorizedKeys
    self := true }

def setBlueprint (bp : Blueprint) (row : BlueprintRow) : BlueprintRow := { row with blueprint := bp }

def setEtcdIPs (ips : List String) (row : Etcd) : Etcd :=
  { row with etcdIPs := Network.sortStrings ips }

/-- The transaction of SetMinionConfig. -/
def applyConfig (ords : Nat → MapOrder) (msg : MinionConfig) (bp : Blueprint) (view : Database) :
    Except String Database := do
  let blueprintRow ← getBlueprint (ords 0) view
  let view ← storeRow .blueprint (setBlueprint bp) view blueprintRow
  let minion ← minionSelf (ords 1) view
  let view ← view.commit .minion (configured msg minion)
  let etcdRow ← getEtcd (ords 2) view
  let view ← storeRow .etcd (setEtcdIPs msg.etcdMembers) view etcdRow
  updatePolicy (laterOrders ords 3) view

/-- A blueprint that cannot be parsed is an error of the call, and nothing is
changed. -/
def setMinionConfig (ords : Nat → MapOrder) (msg : MinionConfig) (view : Database) :
    Except String (Except Json.UnmarshalError Database) :=
  match Blueprint.fromJSON msg.blueprint with
  | .error err => .ok (.error err)
  | .ok bp => (applyConfig ords msg bp view).map .ok

end Server

section Serving

/-- What the server reads: the row of the minion, the members of etcd and the
text of the blueprint. -/
structure Stored (view : Database) (m : Minion) (etcdIPs : List String) (blueprint : String) :
    Prop where
  self : (view.rows .minion).filter Minion.self = [m]
  etcd : (view.rows .etcd = [] ∧ etcdIPs = []) ∨
    ∃ row, view.rows .etcd = [row] ∧ row.etcdIPs = etcdIPs
  blueprint : (view.rows .blueprint = [] ∧ blueprint = "") ∨
    ∃ row, view.rows .blueprint = [row] ∧ row.blueprint.toString = blueprint

/-- The role is one that the message has. -/
structure Serves (view : Database) (m : Minion) (role : PB.Role) (etcdIPs : List String)
    (blueprint : String) : Prop extends Stored view m etcdIPs blueprint where
  role : roleToPB m.role = .ok role

def answer (m : Minion) (role : PB.Role) (etcdIPs : List String) (blueprint : String) :
    MinionConfig where
  role := role
  privateIP := m.privateIP
  blueprint := blueprint
  provider := m.provider
  size := m.size
  region := m.region
  floatingIP := ""
  etcdMembers := etcdIPs
  authorizedKeys := Text.split '\n' m.authorizedKeys

variable {ords : Nat → MapOrder} {view : Database} {m : Minion} {role : PB.Role}
  {etcdIPs : List String} {blueprint : String}

theorem Serves.getMinionConfig_eq (h : Serves view m role etcdIPs blueprint) :
    getMinionConfig ords view = .ok (answer m role etcdIPs blueprint) := by
  have hSelf : minionSelf (ords 0) view = .ok m := minionSelf_eq_ok_iff.mpr h.self
  rcases h.etcd with ⟨hEtcd, rfl⟩ | ⟨etcd, hEtcd, rfl⟩ <;>
    rcases h.blueprint with ⟨hBp, rfl⟩ | ⟨bp, hBp, rfl⟩
  · simp only [getMinionConfig, hSelf, h.role, getEtcd_none hEtcd, getBlueprint_none hBp, bind,
      Except.bind]
    rfl
  · simp only [getMinionConfig, hSelf, h.role, getEtcd_none hEtcd, getBlueprint_single hBp, bind,
      Except.bind]
    rfl
  · simp only [getMinionConfig, hSelf, h.role, getEtcd_single hEtcd, getBlueprint_none hBp, bind,
      Except.bind]
    rfl
  · simp only [getMinionConfig, hSelf, h.role, getEtcd_single hEtcd, getBlueprint_single hBp, bind,
      Except.bind]
    rfl

/-- The server answers exactly if there is one row of the minion and at most one
row of each of the other tables. -/
theorem getMinionConfig_eq_ok_iff {cfg : MinionConfig} :
    getMinionConfig ords view = .ok cfg ↔
      ∃ m role etcdIPs blueprint, Serves view m role etcdIPs blueprint ∧
        cfg = answer m role etcdIPs blueprint := by
  constructor
  · intro hGet
    obtain ⟨m, hSelf, h⟩ := Except.exists_of_bind_eq_ok hGet
    obtain ⟨role, hRole, h⟩ := Except.exists_of_bind_eq_ok h
    obtain ⟨etcd, hEtcd, h⟩ := Except.exists_of_bind_eq_ok h
    obtain ⟨bp, hBp, -⟩ := Except.exists_of_bind_eq_ok h
    have hEtcdRows : ∃ ips, (view.rows .etcd = [] ∧ ips = []) ∨
        ∃ row, view.rows .etcd = [row] ∧ row.etcdIPs = ips := by
      cases etcd with
      | error => exact ⟨[], .inl ⟨rows_of_getEtcd_error hEtcd, rfl⟩⟩
      | ok row => exact ⟨row.etcdIPs, .inr ⟨row, rows_of_getEtcd hEtcd, rfl⟩⟩
    have hBpRows : ∃ text, (view.rows .blueprint = [] ∧ text = "") ∨
        ∃ row, view.rows .blueprint = [row] ∧ row.blueprint.toString = text := by
      cases bp with
      | error => exact ⟨"", .inl ⟨rows_of_getBlueprint_error hBp, rfl⟩⟩
      | ok row => exact ⟨row.blueprint.toString, .inr ⟨row, rows_of_getBlueprint hBp, rfl⟩⟩
    obtain ⟨ips, hIPs⟩ := hEtcdRows
    obtain ⟨text, hText⟩ := hBpRows
    have hServes : Serves view m role ips text :=
      ⟨⟨minionSelf_eq_ok_iff.mp hSelf, hIPs, hText⟩, hRole⟩
    rw [hServes.getMinionConfig_eq] at hGet
    exact ⟨m, role, ips, text, hServes, (Except.ok.inj hGet).symm⟩
  · rintro ⟨m, role, etcdIPs, blueprint, hServes, rfl⟩
    exact hServes.getMinionConfig_eq

end Serving

section Applying

variable {ords : Nat → MapOrder} {view : Database} {m : Minion} {msg : MinionConfig}

/-- The only row of a table, or an error if there is none. -/
def Found (tt : TableType) (view : Database) (found : Except String (RowOf tt)) : Prop :=
  (view.rows tt = [] ∧ ∃ err, found = .error err) ∨ ∃ row, view.rows tt = [row] ∧ found = .ok row

/-- A table with at most one row has exactly one afterwards. -/
theorem Found.storeRow {tt : TableType} {found : Except String (RowOf tt)}
    (hFound : Found tt view found) {fill : RowOf tt → RowOf tt}
    (hFill : ∀ r, getID tt (fill r) = getID tt r) :
    ∃ view' row, storeRow tt fill view found = .ok view' ∧ view'.rows tt = [fill row] ∧
      Database.Touches tt view view' := by
  rcases hFound with ⟨hNone, err, rfl⟩ | ⟨row, hRow, rfl⟩
  · obtain ⟨view', hAdd, hRows, -, hTouches⟩ :=
      view.addRow_spec ((hFill _).trans (getID_blankRow tt _))
    exact ⟨view', _, hAdd, by rw [hRows, hNone, List.nil_append], hTouches⟩
  · have hMem : row ∈ view.rows tt := hRow ▸ List.mem_singleton_self row
    obtain ⟨view', hCommit, hRows, -, hTouches⟩ := view.commit_spec hMem (hFill row).symm
    refine ⟨view', row, hCommit, ?_, hTouches⟩
    rw [hRows, hRow, Database.replaceRow, List.map_singleton, if_pos (hFill row).symm]

/-- A new version of the own row is put in its place only. -/
theorem replaced_self {m' : Minion} (hSelf : (view.rows .minion).filter Minion.self = [m])
    (hID : m'.id = m.id) (hSelf' : m'.self = true) :
    ∀ old ∈ view.rows .minion,
      (if getID .minion old = getID .minion m' then m' else old).self = old.self := by
  have hm : m ∈ view.rows .minion ∧ m.self = true := by
    rw [← List.mem_filter, hSelf]
    exact List.mem_singleton_self m
  intro old hOld
  split_ifs with hEq
  · rw [view.eq_of_getID_eq hOld hm.1 (hEq.trans hID), hm.2, hSelf']
  · rfl

theorem filter_self_replaceRow {m' : Minion} (hSelf : (view.rows .minion).filter Minion.self = [m])
    (hID : m'.id = m.id) (hSelf' : m'.self = true) :
    (Database.replaceRow .minion m' (view.rows .minion)).filter Minion.self = [m'] := by
  have hID' : getID .minion m = getID .minion m' := hID.symm
  have hFilter := List.filter_congr (replaced_self hSelf hID hSelf')
  rw [Database.replaceRow, List.filter_map]
  refine (congrArg (List.map _) (hFilter.trans hSelf)).trans ?_
  rw [List.map_singleton, if_pos hID']

/-- The policy is about other tables. -/
theorem updatePolicy_frame {row : BlueprintRow} (hBp : view.rows .blueprint = [row]) :
    ∃ view', updatePolicy ords view = .ok view' ∧
      ∀ tt ∉ [TableType.image, .container, .loadBalancer, .connection, .placement],
        view'.rows tt = view.rows tt := by
  rw [updatePolicy, getBlueprint_single hBp]
  split_ifs
  · obtain ⟨view', hApply, hApplied⟩ := applyPolicy_applied ords view row.blueprint
    exact ⟨view', hApply, hApplied.others⟩
  · exact ⟨view, rfl, fun _ _ => rfl⟩

/-- Every config is applied. Of the minions only the own row changes. -/
theorem Stored.applyConfig {etcdIPs : List String} {blueprint : String}
    (h : Stored view m etcdIPs blueprint) (bp : Blueprint) :
    ∃ view', applyConfig ords msg bp view = .ok view' ∧
      Stored view' (configured msg m) (Network.sortStrings msg.etcdMembers) bp.toString ∧
      view'.rows .minion = Database.replaceRow .minion (configured msg m) (view.rows .minion) := by
  obtain ⟨foundBp, hGetBp, hFoundBp⟩ : ∃ found, getBlueprint (ords 0) view = .ok found ∧
      Found .blueprint view found := by
    rcases h.blueprint with ⟨hNone, -⟩ | ⟨row, hRow, -⟩
    · exact ⟨_, getBlueprint_none hNone, .inl ⟨hNone, _, rfl⟩⟩
    · exact ⟨_, getBlueprint_single hRow, .inr ⟨row, hRow, rfl⟩⟩
  obtain ⟨v₁, bpRow, hBp, hBpRows, t₁⟩ := hFoundBp.storeRow (fun row => rfl : ∀ row,
    getID .blueprint (setBlueprint bp row) = getID .blueprint row)
  have hSelf₁ : (v₁.rows .minion).filter Minion.self = [m] := by
    rw [t₁.rows _ (by decide)]
    exact h.self
  have hm : m ∈ v₁.rows .minion := (minionSelf_mem (minionSelf_eq_ok_iff.mpr hSelf₁ :
    minionSelf (ords 1) v₁ = .ok m)).1
  obtain ⟨v₂, hMinion, hMinionRows, -, t₂⟩ := v₁.commit_spec (r := configured msg m) hm rfl
  have hEtcdRows : v₂.rows .etcd = view.rows .etcd := by
    rw [t₂.rows _ (by decide), t₁.rows _ (by decide)]
  obtain ⟨foundEtcd, hGetEtcd, hFoundEtcd⟩ : ∃ found, getEtcd (ords 2) v₂ = .ok found ∧
      Found .etcd v₂ found := by
    rcases h.etcd with ⟨hNone, -⟩ | ⟨row, hRow, -⟩
    · exact ⟨_, getEtcd_none (hEtcdRows.trans hNone), .inl ⟨hEtcdRows.trans hNone, _, rfl⟩⟩
    · exact ⟨_, getEtcd_single (hEtcdRows.trans hRow), .inr ⟨row, hEtcdRows.trans hRow, rfl⟩⟩
  obtain ⟨v₃, etcdRow, hEtcd, hEtcdRows₃, t₃⟩ := hFoundEtcd.storeRow (fun row => rfl : ∀ row,
    getID .etcd (setEtcdIPs msg.etcdMembers row) = getID .etcd row)
  have hBpRows₃ : v₃.rows .blueprint = [setBlueprint bp bpRow] := by
    rw [t₃.rows _ (by decide), t₂.rows _ (by decide), hBpRows]
  obtain ⟨v₄, hPolicy, hOthers⟩ := updatePolicy_frame hBpRows₃
  have hMinions : v₄.rows .minion =
      Database.replaceRow .minion (configured msg m) (v₁.rows .minion) := by
    rw [hOthers _ (by decide), t₃.rows _ (by decide), hMinionRows]
  refine ⟨v₄, ?_, ⟨?_, ?_, ?_⟩, ?_⟩
  · rw [Minion.applyConfig, hGetBp]
    simp only [bind, Except.bind, hBp, minionSelf_eq_ok_iff.mpr hSelf₁, hMinion, hGetEtcd, hEtcd]
    exact hPolicy
  · rw [hMinions]
    exact filter_self_replaceRow hSelf₁ rfl rfl
  · exact .inr ⟨_, (hOthers _ (by decide)).trans hEtcdRows₃, rfl⟩
  · exact .inr ⟨_, (hOthers _ (by decide)).trans hBpRows₃, rfl⟩
  · rw [hMinions, t₁.rows _ (by decide)]

end Applying

end Minion

end Kelda
