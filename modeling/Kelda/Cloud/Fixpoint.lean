import Kelda.Cloud.Plan

/-! A run that neither boots nor stops a machine nor moves a floating IP, and the
runs that follow it. The table may be read in another order each time, and rows
of the same kind then change places. They carry the SSH keys of the machine of
the blueprint that they were matched with last. -/
namespace Kelda.Cloud

open DB Database Join GreedyMatching

section Statement

/-- There is nothing to do for the provider. -/
def Idle (res : JoinResult) : Prop := res.boot = [] ∧ res.terminate = [] ∧ res.updateIPs = []

/-- A row without what a run writes into it. -/
def unkeyed (dbm : Machine) : Machine := { dbm with sshKeys := [], status := "" }

/-- When a machine of the blueprint and a row are due: by their score, then by the
place of the machine in the blueprint. Which row of several comes first is left
to the order in which the table is read. -/
def turn (bpms rows : List Machine) (i : Fin bpms.length) (dbm : Machine) : Int :=
  if dbm ∈ rows ∧ 0 ≤ scoreOf (bpms.get i) dbm then
    scoreOf (bpms.get i) dbm * bpms.length + i.val
  else -1

/-- A matching with nothing to do: no machine to boot, no row to stop, and every
row with a known role has the floating IP of its machine. -/
structure Served (bpms rows : List Machine) (S : List (Fin bpms.length × Machine)) : Prop where
  machines : ∀ i, ∃ dbm, (i, dbm) ∈ S
  rows : ∀ dbm ∈ rows, ∃ i, (i, dbm) ∈ S
  addresses : ∀ p ∈ S, p.2.role ≠ .none → (bpms.get p.1).floatingIP = p.2.floatingIP

/-- If one of the matchings that are stable by turns is served, then all of them are,
and they give a row the same SSH keys. -/
def Rigid (bpms rows : List Machine) : Prop :=
  ∀ S S', Stable (turn bpms rows) S → Served bpms rows S → Stable (turn bpms rows) S' →
    Served bpms rows S' ∧ ∀ p ∈ S, ∀ p' ∈ S', p.2 = p'.2 →
      (bpms.get p.1).sshKeys = (bpms.get p'.1).sshKeys

/-- The machines that a row can be matched with agree in disk size and role, with one
floating IP also in the SSH keys, and for a row of unknown role in the floating
IP. -/
def Unambiguous (bpms rows : List Machine) : Prop :=
  ∀ bpm ∈ bpms, ∀ bpm' ∈ bpms, ∀ dbm ∈ rows, Matches bpm dbm → Matches bpm' dbm →
    bpm.diskSize = bpm'.diskSize ∧ bpm.role = bpm'.role ∧
      (dbm.role = .none → bpm.floatingIP = bpm'.floatingIP) ∧
      (bpm.floatingIP = bpm'.floatingIP → bpm.sshKeys = bpm'.sshKeys)

end Statement

section Status

/-- The status of a row once it has been matched. -/
def settledStatus (dbm : Machine) : String :=
  if connectionStatus dbm ≠ "" then connectionStatus dbm else dbm.status

theorem matchedRow_settled (bpm dbm : Machine) :
    matchedRow bpm dbm = { dbm with sshKeys := bpm.sshKeys, status := settledStatus dbm } := by
  have hStatus : connectionStatus { dbm with sshKeys := bpm.sshKeys } = connectionStatus dbm := rfl
  rw [matchedRow, settledStatus]
  simp only [hStatus]
  split_ifs <;> rfl

theorem unkeyed_matchedRow (bpm dbm : Machine) : unkeyed (matchedRow bpm dbm) = unkeyed dbm := by
  rw [matchedRow_settled]
  rfl

theorem settledStatus_eq (dbm : Machine) :
    settledStatus dbm =
      if dbm.publicIP ≠ "" ∧ dbm.connected then connected
      else if dbm.status = connected ∨ dbm.status = reconnecting then reconnecting
      else if dbm.publicIP ≠ "" then connecting
      else dbm.status := by
  rw [settledStatus, connectionStatus]
  split_ifs <;> simp_all [connected, reconnecting, connecting]

/-- Matching a row again with the same keys changes nothing. -/
theorem matchedRow_matchedRow {bpm bpm' dbm : Machine} (hKeys : bpm'.sshKeys = bpm.sshKeys) :
    matchedRow bpm' (matchedRow bpm dbm) = matchedRow bpm dbm := by
  have hAgain : settledStatus (matchedRow bpm dbm) = settledStatus dbm := by
    rw [settledStatus_eq, matchedRow_settled, settledStatus_eq]
    dsimp only
    split_ifs <;> simp_all [connected, reconnecting, connecting]
  rw [matchedRow_settled bpm' (matchedRow bpm dbm), hAgain, hKeys, matchedRow_settled]

end Status

section Turns

variable {bpms dbms rows : List Machine}

theorem turn_nonneg_iff {i : Fin bpms.length} {dbm : Machine} :
    0 ≤ turn bpms rows i dbm ↔ dbm ∈ rows ∧ Matches (bpms.get i) dbm := by
  rw [turn, matches_iff]
  split_ifs with h
  · have := Int.mul_nonneg h.2 (Int.natCast_nonneg bpms.length)
    exact iff_of_true (by omega) h
  · exact iff_of_false (by decide) h

/-- The place of a pair in the order of the join is its turn, with ties broken by
the order of the rows. -/
theorem rank_eq_tieBroken (hRows : ∀ dbm, dbm ∈ rows ↔ dbm ∈ dbms.map unkeyed)
    (hNodup : (dbms.map unkeyed).Nodup) {i : Fin bpms.length} {j : Fin dbms.length}
    (h : 0 ≤ rank bpms dbms scoreOf i j) :
    rank bpms dbms scoreOf i j =
      tieBroken (turn bpms rows) (dbms.map unkeyed) i (unkeyed (dbms.get j)) := by
  have hScore : 0 ≤ indexScore bpms dbms scoreOf i j := rank_nonneg_iff.mp h
  have hMem : unkeyed (dbms.get j) ∈ rows :=
    (hRows _).mpr (List.mem_map_of_mem (List.get_mem dbms j))
  have hIdx : (dbms.map unkeyed).idxOf (unkeyed (dbms.get j)) = j := by
    have hPlace := hNodup.idxOf_getElem j.val (by simp)
    rwa [List.getElem_map] at hPlace
  have hTurn : turn bpms rows i (unkeyed (dbms.get j)) =
      indexScore bpms dbms scoreOf i j * bpms.length + i.val := if_pos ⟨hMem, hScore⟩
  rw [rank, if_neg hScore.not_gt, tieBroken, if_neg (turn_nonneg_iff.mpr
    ⟨hMem, matches_iff.mpr hScore⟩).not_gt, hIdx, hTurn, List.length_map]
  push_cast
  ring

/-- The pairs of a run, with the rows as they are before and after it. -/
def assigned (bpms dbms : List Machine) (M : List (Fin bpms.length × Fin dbms.length)) :
    List (Fin bpms.length × Machine) :=
  M.map (Prod.map id (fun j => unkeyed (dbms.get j)))

variable {M : List (Fin bpms.length × Fin dbms.length)} {S : List (Fin bpms.length × Machine)}

theorem get_unkeyed_inj (hNodup : (dbms.map unkeyed).Nodup) {j j' : Fin dbms.length}
    (h : unkeyed (dbms.get j) = unkeyed (dbms.get j')) : j = j' := by
  rw [← List.ofFn_get dbms, List.map_ofFn, List.nodup_ofFn] at hNodup
  exact hNodup h

theorem stable_assigned (hRows : ∀ dbm, dbm ∈ rows ↔ dbm ∈ dbms.map unkeyed)
    (hNodup : (dbms.map unkeyed).Nodup) (h : Stable (rank bpms dbms scoreOf) M) :
    Stable (tieBroken (turn bpms rows) (dbms.map unkeyed)) (assigned bpms dbms M) := by
  apply h.map_right
  · exact fun j j' => get_unkeyed_inj hNodup
  · intro i dbm hs
    obtain ⟨dbm', hdbm', rfl⟩ := List.mem_map.mp
      ((hRows dbm).mp (turn_nonneg_iff.mp (tieBroken_nonneg_iff.mp hs)).1)
    obtain ⟨j, rfl⟩ := List.get_of_mem hdbm'
    exact ⟨j, rfl⟩
  · intro i j
    rw [tieBroken_nonneg_iff, turn_nonneg_iff, rank_nonneg_iff, ← matches_iff]
    exact and_iff_right ((hRows _).mpr (List.mem_map_of_mem (List.get_mem dbms j)))
  · intro i j i' j' hs hs' hLe
    rwa [← rank_eq_tieBroken hRows hNodup hs, ← rank_eq_tieBroken hRows hNodup hs']

theorem mem_assigned {i : Fin bpms.length} {dbm : Machine} :
    (i, dbm) ∈ assigned bpms dbms M ↔ ∃ j, (i, j) ∈ M ∧ unkeyed (dbms.get j) = dbm := by
  simp [assigned]

theorem turn_eq {i : Fin bpms.length} {dbm : Machine} (h : 0 ≤ turn bpms rows i dbm) :
    turn bpms rows i dbm = scoreOf (bpms.get i) dbm * bpms.length + i.val :=
  if_pos ((turn_nonneg_iff.mp h).imp_right matches_iff.mp)

/-- With ties broken there is one stable matching. -/
theorem mem_iff_of_tieBroken {order : List Machine} (hRows : ∀ dbm ∈ rows, dbm ∈ order)
    {S' : List (Fin bpms.length × Machine)} (h : Stable (tieBroken (turn bpms rows) order) S)
    (h' : Stable (tieBroken (turn bpms rows) order) S') (p : Fin bpms.length × Machine) :
    p ∈ S ↔ p ∈ S' := by
  refine h.mem_iff h' (fun i dbm i' dbm' => tieBroken_inj ?_ ?_) p
  · exact fun i dbm hs => hRows dbm (turn_nonneg_iff.mp hs).1
  · intro i i' dbm hs hEq
    have hs' : 0 ≤ turn bpms rows i' dbm := hEq ▸ hs
    rw [turn_eq hs, turn_eq hs'] at hEq
    have hLe := (mul_add_le_iff i.isLt i'.isLt).mp hEq.le
    have hGe := (mul_add_le_iff i'.isLt i.isLt).mp hEq.ge
    exact Fin.ext (by omega)

theorem Served.congr (h : Served bpms rows S) {S' : List (Fin bpms.length × Machine)}
    (hS : ∀ p, p ∈ S ↔ p ∈ S') : Served bpms rows S' where
  machines := fun i => (h.machines i).imp (fun _ => (hS _).mp)
  rows := fun dbm hdbm => (h.rows dbm hdbm).imp (fun _ => (hS _).mp)
  addresses := fun p hp => h.addresses p ((hS p).mpr hp)

end Turns

section Unambiguous

variable {bpms rows : List Machine} {S S' : List (Fin bpms.length × Machine)}

/-- The provider, region, preemptibility, size, disk size and role of a machine. -/
abbrev Look : Type := String × String × Bool × String × Int × Role

/-- What a machine is matched by, apart from its floating IP. -/
def look (m : Machine) : Look :=
  (m.provider, m.region, m.preemptible, m.size, m.diskSize, m.role)

theorem matches_of_look_eq {bpm bpm' dbm : Machine} (hLook : look bpm = look bpm')
    (h : Matches bpm dbm) : Matches bpm' dbm := by
  simp only [look, Prod.mk.injEq] at hLook
  obtain ⟨h₁, h₂, h₃, h₄, h₅, h₆⟩ := hLook
  rw [matches_iff_compatible] at h ⊢
  rwa [h₁, h₂, h₃, h₄, h₅, h₆] at h

theorem Unambiguous.look_eq (h : Unambiguous bpms rows) {i i' : Fin bpms.length} {dbm : Machine}
    (hdbm : dbm ∈ rows) (hMatch : Matches (bpms.get i) dbm) (hMatch' : Matches (bpms.get i') dbm) :
    look (bpms.get i) = look (bpms.get i') := by
  obtain ⟨hDisk, hRole, -⟩ :=
    h _ (List.get_mem _ _) _ (List.get_mem _ _) dbm hdbm hMatch hMatch'
  obtain ⟨h₁, h₂, h₃, h₄, -⟩ := matches_iff_compatible.mp hMatch
  obtain ⟨h₁', h₂', h₃', h₄', -⟩ := matches_iff_compatible.mp hMatch'
  rw [look, look, h₁, h₂, h₃, h₄, h₁', h₂', h₃', h₄', hDisk, hRole]

theorem score_le_of_turn_le {i i' : Fin bpms.length} {dbm dbm' : Machine}
    (hs : 0 ≤ turn bpms rows i dbm) (hs' : 0 ≤ turn bpms rows i' dbm')
    (hLe : turn bpms rows i dbm ≤ turn bpms rows i' dbm') :
    scoreOf (bpms.get i) dbm ≤ scoreOf (bpms.get i') dbm' := by
  rw [turn_eq hs, turn_eq hs', mul_add_le_iff i.isLt i'.isLt] at hLe
  omega

/-- Among known roles, whatever is as good as a pair with a shared floating IP shares
one. -/
theorem sharesIP_of_le {bpm bpm' dbm dbm' : Machine} (hMatch : Matches bpm dbm)
    (hMatch' : Matches bpm' dbm') (hNoID : bpm.cloudID = "") (hNoID' : bpm'.cloudID = "")
    (hRole : bpm.role = bpm'.role) (hKnown : dbm.role ≠ .none) (hKnown' : dbm'.role ≠ .none)
    (hShares : SharesIP bpm dbm) (hLe : scoreOf bpm' dbm' ≤ scoreOf bpm dbm) :
    SharesIP bpm' dbm' := by
  rw [scoreOf_desired hMatch hNoID, scoreOf_desired hMatch' hNoID', if_pos hShares, hRole] at hLe
  by_contra hNot
  simp only [if_neg hNot, ne_eq, hKnown, hKnown', not_false_eq_true, and_true] at hLe
  split_ifs at hLe <;> omega

/-- What a machine is matched by. -/
def kind (m : Machine) : Look × String := (look m, m.floatingIP)

/-- The row is matched with a machine of this kind. -/
def OfKind (S : List (Fin bpms.length × Machine)) (k : Look × String) (dbm : Machine) : Prop :=
  ∃ i, (i, dbm) ∈ S ∧ kind (bpms.get i) = k

/-- Within a kind, the second matching pairs the machines with the rows that the first
one has paired them with. -/
def PairedWithin (S S' : List (Fin bpms.length × Machine)) (k : Look × String) : Prop :=
  (∀ i, kind (bpms.get i) = k → ∃ dbm, OfKind S k dbm ∧ (i, dbm) ∈ S') ∧
    ∀ dbm, OfKind S k dbm → ∃ i, kind (bpms.get i) = k ∧ (i, dbm) ∈ S'

variable {k : Look × String}

theorem matches_of_mem (hS : Stable (turn bpms rows) S) {i : Fin bpms.length} {dbm : Machine}
    (hm : (i, dbm) ∈ S) : dbm ∈ rows ∧ Matches (bpms.get i) dbm :=
  turn_nonneg_iff.mp (hS.nonneg _ hm)

theorem matches_of_kind (hS : Stable (turn bpms rows) S) {i : Fin bpms.length} {dbm : Machine}
    (hi : kind (bpms.get i) = k) (hdbm : OfKind S k dbm) :
    dbm ∈ rows ∧ Matches (bpms.get i) dbm := by
  obtain ⟨i₀, hm, hKind⟩ := hdbm
  exact (matches_of_mem hS hm).imp_right
    (matches_of_look_eq (congrArg Prod.fst (hKind.trans hi.symm)))

/-- A kind is paired within itself if nothing of another kind is as good. -/
theorem Served.pairedWithin (hServed : Served bpms rows S) (hS : Stable (turn bpms rows) S)
    (hS' : Stable (turn bpms rows) S')
    (hLeft : ∀ i dbm dbm', kind (bpms.get i) = k → OfKind S k dbm → (i, dbm') ∈ S' →
      scoreOf (bpms.get i) dbm' ≤ scoreOf (bpms.get i) dbm → OfKind S k dbm')
    (hRight : ∀ i dbm i', kind (bpms.get i) = k → OfKind S k dbm → (i', dbm) ∈ S' →
      scoreOf (bpms.get i') dbm ≤ scoreOf (bpms.get i) dbm → kind (bpms.get i') = k) :
    PairedWithin S S' k := by
  classical
  let X : Finset (Fin bpms.length) := Finset.univ.filter (fun i => kind (bpms.get i) = k)
  let Y : Finset Machine := rows.toFinset.filter (OfKind S k)
  have hX : ∀ i, i ∈ X ↔ kind (bpms.get i) = k := by simp [X]
  have hY : ∀ dbm, dbm ∈ Y ↔ OfKind S k dbm := by
    intro dbm
    simp only [Y, Finset.mem_filter, List.mem_toFinset, and_iff_right_iff_imp]
    exact fun ⟨i, hm, _⟩ => (matches_of_mem hS hm).1
  have hCard : X.card = Y.card := by
    refine hS.matching.card_eq (fun i hi => ?_) (fun dbm hdbm => ?_)
    · obtain ⟨dbm, hm⟩ := hServed.machines i
      exact ⟨dbm, (hY dbm).mpr ⟨i, hm, (hX i).mp hi⟩, hm⟩
    · obtain ⟨i, hm, hKind⟩ := (hY dbm).mp hdbm
      exact ⟨i, (hX i).mpr hKind, hm⟩
  have hTurn : ∀ i ∈ X, ∀ dbm ∈ Y, 0 ≤ turn bpms rows i dbm := fun i hi dbm hdbm =>
    turn_nonneg_iff.mpr (matches_of_kind hS ((hX i).mp hi) ((hY dbm).mp hdbm))
  have hPairs := hS'.pairs_within hCard hTurn
    (fun i hi dbm hdbm dbm' hm hLe => (hY dbm').mpr (hLeft i dbm dbm' ((hX i).mp hi)
      ((hY dbm).mp hdbm) hm (score_le_of_turn_le (hS'.nonneg _ hm) (hTurn i hi dbm hdbm) hLe)))
    (fun i hi dbm hdbm i' hm hLe => (hX i').mpr (hRight i dbm i' ((hX i).mp hi)
      ((hY dbm).mp hdbm) hm (score_le_of_turn_le (hS'.nonneg _ hm) (hTurn i hi dbm hdbm) hLe)))
  simpa only [PairedWithin, hX, hY] using hPairs

section Paired

variable (h : Unambiguous bpms rows) (hNoID : ∀ bpm ∈ bpms, bpm.cloudID = "")
  (hServed : Served bpms rows S) (hS : Stable (turn bpms rows) S) (hS' : Stable (turn bpms rows) S')
include h hNoID hServed hS hS'

/-- Machines and rows with a floating IP prefer each other, and a row of unknown role
has no choice. -/
theorem paired_floating (hIP : k.2 ≠ "") : PairedWithin S S' k := by
  have hGet := List.get_mem bpms
  have hShares : ∀ {i dbm}, kind (bpms.get i) = k → OfKind S k dbm → dbm.role ≠ .none →
      SharesIP (bpms.get i) dbm := by
    rintro i dbm rfl ⟨i₀, hm, hKind⟩ hKnown
    have hSame := (congrArg Prod.snd hKind).symm.trans (hServed.addresses _ hm hKnown)
    exact ⟨hSame, hSame ▸ hIP⟩
  apply hServed.pairedWithin hS hS'
  · intro i dbm dbm' hi hdbm hm hLe
    obtain ⟨hRow, hMatch⟩ := matches_of_kind hS hi hdbm
    obtain ⟨hRow', hMatch'⟩ := matches_of_mem hS' hm
    obtain ⟨i', hm'⟩ := hServed.rows dbm' hRow'
    have hOwner := (matches_of_mem hS hm').2
    have hLook := h.look_eq hRow' hMatch' hOwner
    refine ⟨i', hm', (Prod.ext hLook ?_ : kind _ = kind _).symm.trans hi⟩
    by_cases hUnknown : dbm'.role = .none
    · exact (h _ (hGet i) _ (hGet i') dbm' hRow' hMatch' hOwner).2.2.1 hUnknown
    · by_cases hUnsure : dbm.role = .none
      · exact (h _ (hGet i) _ (hGet i') dbm hRow hMatch
          (matches_of_look_eq hLook hMatch)).2.2.1 hUnsure
      · exact (sharesIP_of_le hMatch hMatch' (hNoID _ (hGet i)) (hNoID _ (hGet i)) rfl hUnsure
          hUnknown (hShares hi hdbm hUnsure) hLe).1.trans (hServed.addresses _ hm' hUnknown).symm
  · intro i dbm i' hi hdbm hm hLe
    obtain ⟨hRow, hMatch⟩ := matches_of_kind hS hi hdbm
    have hMatch' := (matches_of_mem hS' hm).2
    obtain ⟨hDisk, hRole, hUnsure, -⟩ := h _ (hGet i) _ (hGet i') dbm hRow hMatch hMatch'
    refine (Prod.ext (h.look_eq hRow hMatch hMatch') ?_ : kind _ = kind _).symm.trans hi
    by_cases hKnown : dbm.role = .none
    · exact hUnsure hKnown
    · exact (hShares hi hdbm hKnown).1.trans (sharesIP_of_le hMatch hMatch' (hNoID _ (hGet i))
        (hNoID _ (hGet i')) hRole hKnown hKnown (hShares hi hdbm hKnown) hLe).1.symm

/-- Those without one are left with each other. -/
theorem paired_plain (hNone : k.2 = "") : PairedWithin S S' k := by
  apply hServed.pairedWithin hS hS'
  · intro i dbm dbm' hi _ hm _
    obtain ⟨hRow', hMatch'⟩ := matches_of_mem hS' hm
    obtain ⟨i', hm'⟩ := hServed.rows dbm' hRow'
    have hLook := h.look_eq hRow' hMatch' (matches_of_mem hS hm').2
    refine ⟨i', hm', ?_⟩
    by_cases hIP : (kind (bpms.get i')).2 = ""
    · exact Prod.ext (hLook.symm.trans (congrArg Prod.fst hi)) (hIP.trans hNone.symm)
    · obtain ⟨i₂, hKind, hm₂⟩ := (paired_floating h hNoID hServed hS hS' hIP).2 dbm' ⟨i', hm', rfl⟩
      obtain rfl := hS'.matching.right_inj hm hm₂
      exact hKind.symm.trans hi
  · intro i dbm i' hi hdbm hm _
    obtain ⟨hRow, hMatch⟩ := matches_of_kind hS hi hdbm
    have hLook := h.look_eq hRow hMatch (matches_of_mem hS' hm).2
    by_cases hIP : (kind (bpms.get i')).2 = ""
    · exact Prod.ext (hLook.symm.trans (congrArg Prod.fst hi)) (hIP.trans hNone.symm)
    · obtain ⟨dbm₂, ⟨i₂, hm₂, hKind⟩, hm'⟩ :=
        (paired_floating h hNoID hServed hS hS' hIP).1 i' rfl
      obtain rfl := hS'.matching.left_inj hm hm'
      obtain ⟨i₀, hm₀, hKind₀⟩ := hdbm
      obtain rfl := hS.matching.right_inj hm₀ hm₂
      exact hKind.symm.trans hKind₀

theorem paired (k : Look × String) : PairedWithin S S' k := by
  by_cases hIP : k.2 = ""
  · exact paired_plain h hNoID hServed hS hS' hIP
  · exact paired_floating h hNoID hServed hS hS' hIP

end Paired

/-- Where no row leaves a choice, the order of the rows does not matter. -/
theorem Unambiguous.rigid (h : Unambiguous bpms rows) (hNoID : ∀ bpm ∈ bpms, bpm.cloudID = "") :
    Rigid bpms rows := by
  intro S S' hS hServed hS'
  have hKinds : ∀ {i i' dbm}, (i, dbm) ∈ S → (i', dbm) ∈ S' →
      kind (bpms.get i) = kind (bpms.get i') := by
    intro i i' dbm hm hm'
    obtain ⟨i₂, hKind, hm₂⟩ := (paired h hNoID hServed hS hS' _).2 dbm ⟨i, hm, rfl⟩
    obtain rfl := hS'.matching.right_inj hm' hm₂
    exact hKind.symm
  refine ⟨⟨fun i => ?_, fun dbm hdbm => ?_, fun p hp hKnown => ?_⟩, ?_⟩
  · obtain ⟨dbm, -, hm⟩ := (paired h hNoID hServed hS hS' _).1 i rfl
    exact ⟨dbm, hm⟩
  · obtain ⟨i, hm⟩ := hServed.rows dbm hdbm
    obtain ⟨i', -, hm'⟩ := (paired h hNoID hServed hS hS' _).2 dbm ⟨i, hm, rfl⟩
    exact ⟨i', hm'⟩
  · obtain ⟨i, hm⟩ := hServed.rows p.2 (matches_of_mem hS' hp).1
    exact (congrArg Prod.snd (hKinds hm hp)).symm.trans (hServed.addresses _ hm hKnown)
  · rintro ⟨i, dbm⟩ hm ⟨i', dbm'⟩ hm' hRow
    obtain rfl : dbm = dbm' := hRow
    obtain ⟨hdbm, hMatch⟩ := matches_of_mem hS hm
    exact (h _ (List.get_mem _ _) _ (List.get_mem _ _) dbm hdbm hMatch
      (matches_of_mem hS' hm').2).2.2.2 (congrArg Prod.snd (hKinds hm hm'))

end Unambiguous

section Runs

variable {cld : Cloud} {adminKey : String} {ords : Nat → MapOrder} {view : Database}
  {bpRow : BlueprintRow} {bpms dbms rows : List Machine}

theorem desiredMachine_fields {b : Blueprint.Machine} {bpm : Machine}
    (h : cld.desiredMachine adminKey b = some bpm) : bpm.diskSize ≠ 0 ∧ bpm.cloudID = "" := by
  rw [desiredMachine] at h
  by_cases hOther : b.provider ≠ cld.providerName ∨ b.region ≠ cld.region
  · rw [if_pos hOther] at h
    cases h
  · rw [if_neg hOther] at h
    cases hRole : parseRole b.role with
    | error e =>
        rw [hRole] at h
        cases h
    | ok role =>
        rw [hRole] at h
        cases h
        refine ⟨?_, rfl⟩
        dsimp only
        split_ifs with hDisk
        · decide
        · exact hDisk

theorem nodup_unkeyed (cld : Cloud) (view : Database) :
    (((view.rows .machine).filter cld.owns).map unkeyed).Nodup := by
  apply List.Nodup.of_map Machine.id
  rw [List.map_map]
  exact (view.nodup .machine).sublist (List.filter_sublist.map _)

theorem idle_iff_served {M : List (Fin bpms.length × Fin dbms.length)} {ll : List (Fin bpms.length)}
    {lr : List (Fin dbms.length)} {res : JoinResult} {curID : Nat}
    (hRows : ∀ dbm, dbm ∈ rows ↔ dbm ∈ dbms.map unkeyed) (hNodup : (dbms.map unkeyed).Nodup)
    (hPositions : Positions bpms dbms (join bpms dbms scoreOf) M ll lr)
    (hBoot : res.boot = bootedMachines curID (ll.map bpms.get))
    (hTerminate : res.terminate = lr.map (fun j => stoppedRow (dbms.get j)))
    (hUpdate : res.updateIPs = M.filterMap (fun p =>
      floatingUpdate (bpms.get p.1) (dbms.get p.2))) :
    Idle res ↔ Served bpms rows (assigned bpms dbms M) := by
  have hNoBoot : res.boot = [] ↔ ∀ i, ∃ dbm, (i, dbm) ∈ assigned bpms dbms M := by
    rw [hBoot, bootedMachines, List.mapIdx_eq_nil_iff, List.map_eq_nil_iff,
      hPositions.lefts_nil_iff]
    simp [mem_assigned]
  have hNoTerminate : res.terminate = [] ↔ ∀ dbm ∈ rows, ∃ i, (i, dbm) ∈ assigned bpms dbms M := by
    rw [hTerminate, List.map_eq_nil_iff, hPositions.rights_nil_iff]
    constructor
    · intro hAll dbm hdbm
      obtain ⟨dbm', hdbm', rfl⟩ := List.mem_map.mp ((hRows dbm).mp hdbm)
      obtain ⟨j, rfl⟩ := List.get_of_mem hdbm'
      obtain ⟨i, hm⟩ := hAll j
      exact ⟨i, mem_assigned.mpr ⟨j, hm, rfl⟩⟩
    · intro hAll j
      obtain ⟨i, hm⟩ := hAll _ ((hRows _).mpr (List.mem_map_of_mem (List.get_mem dbms j)))
      obtain ⟨j', hm', hEq⟩ := mem_assigned.mp hm
      exact ⟨i, get_unkeyed_inj hNodup hEq ▸ hm'⟩
  have hNoUpdate : res.updateIPs = [] ↔ ∀ p ∈ assigned bpms dbms M, p.2.role ≠ .none →
      (bpms.get p.1).floatingIP = p.2.floatingIP := by
    rw [hUpdate, List.filterMap_eq_nil_iff, assigned, List.forall_mem_map]
    refine forall₂_congr (fun p _ => ?_)
    rw [floatingUpdate, matchedRow_settled]
    simp [unkeyed]
  rw [Idle, hNoBoot, hNoTerminate, hNoUpdate]
  constructor
  · rintro ⟨hBoots, hStops, hMoves⟩
    exact ⟨hBoots, hStops, hMoves⟩
  · exact fun h => ⟨h.machines, h.rows, h.addresses⟩

/-- A run and the matching that it ends with. An idle run writes the SSH keys of the
machines into the rows, and nothing if they are there already. -/
structure Outcome (cld : Cloud) (bpms rows : List Machine) (ord : MapOrder) (view : Database)
    (res : JoinResult) (view' : Database) (S : List (Fin bpms.length × Machine)) : Prop where
  stable : Stable (tieBroken (turn bpms rows) ((cld.selectMachines ord view).map unkeyed)) S
  idle_iff : Idle res ↔ Served bpms rows S
  blueprint : view'.rows .blueprint = view.rows .blueprint
  written : Idle res → ∀ p ∈ S, ∃ r ∈ (view'.rows .machine).filter cld.owns,
    unkeyed r = p.2 ∧ r.sshKeys = (bpms.get p.1).sshKeys
  origin : Idle res → ∀ r ∈ (view'.rows .machine).filter cld.owns, ∃ p ∈ S, unkeyed r = p.2 ∧
    ∀ bpm : Machine, bpm.sshKeys = (bpms.get p.1).sshKeys → matchedRow bpm r = r
  kept : Idle res → (∀ p ∈ S, ∀ r ∈ (view.rows .machine).filter cld.owns, unkeyed r = p.2 →
    matchedRow (bpms.get p.1) r = r) → view' = view

theorem selected_perm (cld : Cloud) (ord : MapOrder) (view : Database) :
    ((cld.selectMachines ord view).map unkeyed).Perm
      (((view.rows .machine).filter cld.owns).map unkeyed) :=
  ((ord.perm (view.rows .machine)).filter _).map _

variable {ord : MapOrder} {res : JoinResult} {view' : Database}
  {S : List (Fin bpms.length × Machine)}

theorem Outcome.stable_turn (h : Outcome cld bpms rows ord view res view' S)
    (hRows : ∀ dbm, dbm ∈ rows ↔ dbm ∈ ((view.rows .machine).filter cld.owns).map unkeyed) :
    Stable (turn bpms rows) S :=
  h.stable.of_tieBroken (fun _ dbm hs => (selected_perm cld ord view).mem_iff.mpr
    ((hRows dbm).mp (turn_nonneg_iff.mp hs).1))

/-- An idle run leaves the rows as they are, up to what it writes. -/
theorem Outcome.mem_rows_iff (h : Outcome cld bpms rows ord view res view' S) (hIdle : Idle res)
    (dbm : Machine) :
    dbm ∈ rows ↔ dbm ∈ ((view'.rows .machine).filter cld.owns).map unkeyed := by
  constructor
  · intro hdbm
    obtain ⟨i, hm⟩ := (h.idle_iff.mp hIdle).rows dbm hdbm
    obtain ⟨r, hr, hEq, -⟩ := h.written hIdle _ hm
    exact List.mem_map.mpr ⟨r, hr, hEq⟩
  · intro hdbm
    obtain ⟨r, hr, rfl⟩ := List.mem_map.mp hdbm
    obtain ⟨p, hp, hEq, -⟩ := h.origin hIdle r hr
    rw [hEq]
    exact (turn_nonneg_iff.mp (tieBroken_nonneg_iff.mp (h.stable.nonneg p hp))).1

/-- After an idle run the table has the rows of the pairs. -/
theorem Idle.owned_perm (hIdle : Idle res) {M : List (Fin bpms.length × Fin dbms.length)}
    (hOwned : ∀ dbm ∈ dbms, cld.owns dbm = true)
    (hTable : (view'.rows .machine).Perm ((view.rows .machine).filter (fun dbm => !cld.owns dbm) ++
      M.map (fun p => matchedRow (bpms.get p.1) (dbms.get p.2)) ++ res.terminate ++
      res.boot.map bootedRow)) :
    ((view'.rows .machine).filter cld.owns).Perm
      (M.map (fun p => matchedRow (bpms.get p.1) (dbms.get p.2))) := by
  rw [hIdle.1, hIdle.2.1, List.map_nil, List.append_nil, List.append_nil] at hTable
  refine (hTable.filter _).trans (List.Perm.of_eq (filter_owns_append cld view ?_))
  intro r hr
  obtain ⟨p, -, rfl⟩ := List.mem_map.mp hr
  rw [matchedRow_settled]
  exact hOwned (dbms.get p.2) (List.get_mem dbms p.2)

variable (hBlueprint : view.rows .blueprint = [bpRow])
  (hBPMs : cld.desiredMachines adminKey bpRow.blueprint.machines = bpms)

include hBlueprint hBPMs

theorem view_eq_of_stored (hDBMs : cld.selectMachines (ords 1) view = dbms)
    (hRun : cld.syncDBWithBlueprint adminKey ords view = .ok (res, view'))
    (hLefts : (join bpms dbms scoreOf).lonelyLefts = [])
    (hRights : (join bpms dbms scoreOf).lonelyRights = [])
    (hStored : ∀ p ∈ (join bpms dbms scoreOf).pairs, matchedRow p.L p.R ∈ view.rows .machine) :
    view' = view := by
  have hDesired : ∀ bpm ∈ bpms, cld.owns bpm = true :=
    fun bpm h => owns_desiredMachines (hBPMs.symm ▸ h)
  have hCommit : view.commitAll .machine matchedRow (join bpms dbms scoreOf).pairs = .ok view :=
    @commitAll_self .machine Machine view matchedRow _ hStored
  rw [syncDBWithBlueprint_eq cld adminKey ords hBlueprint hBPMs hDBMs,
    joinM_machineScore hDesired (owns_of_select hDBMs)] at hRun
  change ((join bpms dbms scoreOf).pairs.foldlM keepMachine _).bind _ = _ at hRun
  rw [foldlM_keepMachine, hCommit, hLefts, hRights] at hRun
  exact (congrArg Prod.snd (Except.ok.inj hRun)).symm

variable (hRows : ∀ dbm, dbm ∈ rows ↔ dbm ∈ ((view.rows .machine).filter cld.owns).map unkeyed)

include hRows

variable (ords) in
theorem exists_outcome :
    ∃ res view' S, cld.syncDBWithBlueprint adminKey ords view = .ok (res, view') ∧
      Outcome cld bpms rows (ords 1) view res view' S := by
  obtain ⟨dbms, hDBMs⟩ : ∃ dbms, cld.selectMachines (ords 1) view = dbms := ⟨_, rfl⟩
  have hPerm := selected_perm cld (ords 1) view
  rw [hDBMs] at hPerm
  have hRows : ∀ dbm, dbm ∈ rows ↔ dbm ∈ dbms.map unkeyed :=
    fun dbm => (hRows dbm).trans hPerm.mem_iff.symm
  have hNodup := hPerm.nodup_iff.mpr (nodup_unkeyed cld view)
  have hOwned : ∀ dbm ∈ dbms, dbm ∈ (view.rows .machine).filter cld.owns := by
    intro dbm hdbm
    rw [← hDBMs] at hdbm
    exact List.mem_filter.mpr (view.mem_select.mp hdbm)
  obtain ⟨res, view', M, ll, lr, hRun, hPositions, hStable, hBoot, hTerminate, hUpdate, hTable,
    hTouches⟩ := syncDBWithBlueprint_rows cld adminKey ords hBlueprint hBPMs hDBMs
  have hWritten := fun hIdle : Idle res => hIdle.owned_perm (owns_of_select hDBMs) hTable
  refine ⟨res, view', assigned bpms dbms M, hRun, hDBMs ▸ stable_assigned hRows hNodup hStable,
    idle_iff_served hRows hNodup hPositions hBoot hTerminate hUpdate,
    hTouches.rows .blueprint (by decide), ?_, ?_, ?_⟩
  · intro hIdle p hp
    obtain ⟨q, hq, rfl⟩ := List.mem_map.mp hp
    refine ⟨_, (hWritten hIdle).mem_iff.mpr (List.mem_map_of_mem hq), unkeyed_matchedRow _ _, ?_⟩
    rw [matchedRow_settled]
    rfl
  · intro hIdle r hr
    obtain ⟨q, hq, rfl⟩ := List.mem_map.mp ((hWritten hIdle).mem_iff.mp hr)
    exact ⟨_, List.mem_map_of_mem hq, unkeyed_matchedRow _ _,
      fun bpm hKeys => matchedRow_matchedRow hKeys⟩
  · intro hIdle hKept
    have hLefts : ll.map bpms.get = [] := by
      have hNone := hIdle.1
      rwa [hBoot, bootedMachines, List.mapIdx_eq_nil_iff] at hNone
    have hRights : lr = [] := by
      have hNone := hIdle.2.1
      rwa [hTerminate, List.map_eq_nil_iff] at hNone
    refine view_eq_of_stored hBlueprint hBPMs hDBMs hRun ?_ ?_ ?_
    · rw [hPositions.lonelyLefts, hLefts]
    · rw [hPositions.lonelyRights, hRights, List.map_nil]
    · rw [hPositions.pairs, List.forall_mem_map]
      intro q hq
      have hRow := hOwned (dbms.get q.2) (List.get_mem dbms q.2)
      have hSame : matchedRow (bpms.get q.1) (dbms.get q.2) = dbms.get q.2 :=
        hKept _ (List.mem_map_of_mem hq) _ hRow rfl
      rw [hSame]
      exact (List.mem_filter.mp hRow).1

/-- Every stable matching is the one of a run. -/
theorem exists_outcome_eq (hS : Stable (turn bpms rows) S) :
    ∃ ord res view' S', cld.syncDBWithBlueprint adminKey (fun _ => ord) view = .ok (res, view') ∧
      Outcome cld bpms rows ord view res view' S' ∧ ∀ p, p ∈ S' ↔ p ∈ S := by
  obtain ⟨order, hPerm, hOrder⟩ := hS.exists_order (nodup_unkeyed cld view)
    (fun i dbm hs => (hRows dbm).mp (turn_nonneg_iff.mp hs).1)
  obtain ⟨dbms, hDBMs, rfl⟩ := List.Perm.exists_map_eq hPerm.symm
  obtain ⟨ord, rfl⟩ := exists_selectMachines_eq cld view hDBMs.symm
  obtain ⟨res, view', S', hRun, hOutcome⟩ := exists_outcome (fun _ => ord) hBlueprint hBPMs hRows
  refine ⟨ord, res, view', S', hRun, hOutcome, mem_iff_of_tieBroken ?_ hOutcome.stable hOrder⟩
  exact fun dbm hdbm => hPerm.mem_iff.mp ((hRows dbm).mp hdbm)

end Runs

/-- Every run that follows an idle run is idle and changes no row, in whatever orders
the table is read, exactly if the machines of the blueprint and the rows are
rigid. -/
theorem syncDBWithBlueprint_fixpoint_iff (cld : Cloud) (adminKey : String) (view : Database)
    (bpRow : BlueprintRow) (hBlueprint : view.rows .blueprint = [bpRow]) :
    (∀ ords res view', cld.syncDBWithBlueprint adminKey ords view = .ok (res, view') → Idle res →
      ∀ ords', ∃ res' view'', cld.syncDBWithBlueprint adminKey ords' view' = .ok (res', view'') ∧
        Idle res' ∧ view''.rows .machine = view'.rows .machine) ↔
      Rigid (cld.desiredMachines adminKey bpRow.blueprint.machines)
        (((view.rows .machine).filter cld.owns).map unkeyed) := by
  constructor
  · intro hStays S S' hS hServed hS'
    obtain ⟨ord, res, view', S₁, hRun, hFirst, hS₁⟩ :=
      exists_outcome_eq hBlueprint rfl (fun _ => Iff.rfl) hS
    have hIdle := hFirst.idle_iff.mpr (hServed.congr (fun p => (hS₁ p).symm))
    obtain ⟨ord', res', view'', S₂, hRun', hSecond, hS₂⟩ :=
      exists_outcome_eq (hFirst.blueprint.trans hBlueprint) rfl (hFirst.mem_rows_iff hIdle) hS'
    obtain ⟨res₂, view₂, hRun₂, hIdle', hSame⟩ := hStays _ _ _ hRun hIdle (fun _ => ord')
    obtain ⟨rfl, rfl⟩ := Prod.mk.inj (Except.ok.inj (hRun₂.symm.trans hRun'))
    refine ⟨(hSecond.idle_iff.mp hIdle').congr hS₂, fun p hp p' hp' hRow => ?_⟩
    obtain ⟨r, hr, hEq, hKeys⟩ := hFirst.written hIdle p ((hS₁ p).mpr hp)
    obtain ⟨r', hr', hEq', hKeys'⟩ := hSecond.written hIdle' p' ((hS₂ p').mpr hp')
    rw [hSame] at hr'
    have hID : (unkeyed r).id = (unkeyed r').id := by rw [hEq, hEq', hRow]
    have hMem : r ∈ view'.rows .machine := (List.mem_filter.mp hr).1
    rw [← hKeys, ← hKeys', view'.eq_of_getID_eq hMem (List.mem_filter.mp hr').1 hID]
  · intro hRigid ords res view' hRun hIdle ords'
    obtain ⟨res₁, view₁, S, hRun₁, hFirst⟩ := exists_outcome ords hBlueprint rfl (fun _ => Iff.rfl)
    obtain ⟨rfl, rfl⟩ := Prod.mk.inj (Except.ok.inj (hRun₁.symm.trans hRun))
    have hRows := hFirst.mem_rows_iff hIdle
    obtain ⟨res', view'', S', hRun', hSecond⟩ :=
      exists_outcome ords' (hFirst.blueprint.trans hBlueprint) rfl hRows
    obtain ⟨hServed, hKeys⟩ := hRigid S S' (hFirst.stable_turn (fun _ => Iff.rfl))
      (hFirst.idle_iff.mp hIdle) (hSecond.stable_turn hRows)
    have hIdle' := hSecond.idle_iff.mpr hServed
    refine ⟨res', view'', hRun', hIdle', ?_⟩
    rw [hSecond.kept hIdle' (fun p hp r hr hRow => ?_)]
    obtain ⟨p₀, hp₀, hRow₀, hKept⟩ := hFirst.origin hIdle r hr
    exact hKept _ (hKeys p₀ hp₀ p hp (hRow₀.symm.trans hRow)).symm

section Samples

/-- A connected worker without a floating IP. -/
def sampleWorker (id : Nat) (cloudID : String) (sshKeys : List String) : Machine :=
  { id, sshKeys, cloudID, provider := "Amazon", region := "us-west-1", size := "m4.large",
    diskSize := 32, publicIP := "1.2.3.4", role := .worker, connected := true,
    status := "connected" }

/-- Two workers with these SSH keys. -/
def workersBlueprint (keys keys' : List String) : BlueprintRow :=
  ⟨1, ⟨[], [], [], [], [⟨"Amazon", "Worker", "m4.large", 0, "us-west-1", keys, "", false⟩,
    ⟨"Amazon", "Worker", "m4.large", 0, "us-west-1", keys', "", false⟩], [], "", []⟩⟩

def sampleWorkers (keys keys' : List String) : Database where
  rows
    | .blueprint => [workersBlueprint keys keys']
    | .machine => [sampleWorker 2 "i-2" keys, sampleWorker 3 "i-3" keys']
    | _ => []
  shouldAlert := fun _ => false
  curID := 3
  nodup := fun tt => by cases tt <;> simp [sampleWorker, getID]
  bounded := fun tt => by cases tt <;> simp [sampleWorker, workersBlueprint, getID]

/-- An idle run, and a run that reads the same table backwards and gives each of
the two workers the keys of the other one. -/
theorem syncDBWithBlueprint_swaps_keys :
    ∃ res view' res' view'',
      syncDBWithBlueprint ⟨"Amazon", "us-west-1"⟩ "" (fun _ => MapOrder.stored)
        (sampleWorkers ["alice"] ["bob"]) = .ok (res, view') ∧ Idle res ∧
      syncDBWithBlueprint ⟨"Amazon", "us-west-1"⟩ "" (fun _ => MapOrder.reversed) view' =
        .ok (res', view'') ∧
      view'.rows .machine = [sampleWorker 2 "i-2" ["alice"], sampleWorker 3 "i-3" ["bob"]] ∧
      view''.rows .machine = [sampleWorker 2 "i-2" ["bob"], sampleWorker 3 "i-3" ["alice"]] := by
  have hEval : ((syncDBWithBlueprint ⟨"Amazon", "us-west-1"⟩ "" (fun _ => MapOrder.stored)
      (sampleWorkers ["alice"] ["bob"])).bind (fun first =>
        (syncDBWithBlueprint ⟨"Amazon", "us-west-1"⟩ "" (fun _ => MapOrder.reversed) first.2).map
          (fun second => ((first.1.boot, first.1.terminate, first.1.updateIPs),
            first.2.rows .machine, second.2.rows .machine)))).toOption =
      some (([], [], []), [sampleWorker 2 "i-2" ["alice"], sampleWorker 3 "i-3" ["bob"]],
        [sampleWorker 2 "i-2" ["bob"], sampleWorker 3 "i-3" ["alice"]]) := by
    decide +kernel
  cases hFirst : syncDBWithBlueprint ⟨"Amazon", "us-west-1"⟩ "" (fun _ => MapOrder.stored)
      (sampleWorkers ["alice"] ["bob"]) with
  | error e =>
      rw [hFirst] at hEval
      cases hEval
  | ok first =>
      rw [hFirst] at hEval
      cases hSecond : syncDBWithBlueprint ⟨"Amazon", "us-west-1"⟩ ""
          (fun _ => MapOrder.reversed) first.2 with
      | error e =>
          rw [Except.bind, hSecond] at hEval
          cases hEval
      | ok second =>
          rw [Except.bind, hSecond] at hEval
          obtain ⟨hIdle, hRows⟩ := Prod.mk.inj (Option.some.inj hEval)
          obtain ⟨hBefore, hAfter⟩ := Prod.mk.inj hRows
          obtain ⟨hBoot, hRest⟩ := Prod.mk.inj hIdle
          obtain ⟨hTerminate, hUpdate⟩ := Prod.mk.inj hRest
          exact ⟨first.1, first.2, second.1, second.2, rfl, ⟨hBoot, hTerminate, hUpdate⟩, hSecond,
            hBefore, hAfter⟩

def googleBlueprint : BlueprintRow :=
  ⟨1, ⟨[], [], [], [], List.replicate 2
    ⟨"Google", "Worker", "n1-standard-1", 0, "us-east1-b", ["alice"], "", false⟩, [], "", []⟩⟩

/-- Two Google workers, one of them connected and the other one booting. Neither disk
size is known, nor the role of the second worker. -/
def googleWorkers : Database where
  rows
    | .blueprint => [googleBlueprint]
    | .machine => [
        { id := 2, provider := "Google", region := "us-east1-b", size := "n1-standard-1",
          sshKeys := ["alice"], cloudID := "kelda-2", publicIP := "1.2.3.4", role := .worker,
          connected := true, status := connected },
        { id := 3, provider := "Google", region := "us-east1-b", size := "n1-standard-1",
          sshKeys := ["alice"], cloudID := "kelda-3", status := booting }]
    | _ => []
  shouldAlert := fun _ => false
  curID := 3
  nodup := fun tt => by cases tt <;> decide
  bounded := fun tt => by cases tt <;> decide

theorem syncDBWithBlueprint_fixpoint_workers :
    ∃ res view', syncDBWithBlueprint ⟨"Google", "us-east1-b"⟩ "" (fun _ => MapOrder.stored)
        googleWorkers = .ok (res, view') ∧ Idle res ∧
      ∀ ords', ∃ res' view'',
        syncDBWithBlueprint ⟨"Google", "us-east1-b"⟩ "" ords' view' = .ok (res', view'') ∧
        Idle res' ∧ view''.rows .machine = view'.rows .machine := by
  have hEval : (syncDBWithBlueprint ⟨"Google", "us-east1-b"⟩ "" (fun _ => MapOrder.stored)
      googleWorkers).toOption.map (fun first =>
        (first.1.boot, first.1.terminate, first.1.updateIPs)) = some ([], [], []) := by
    decide +kernel
  cases hFirst : syncDBWithBlueprint ⟨"Google", "us-east1-b"⟩ "" (fun _ => MapOrder.stored)
      googleWorkers with
  | error e =>
      rw [hFirst] at hEval
      cases hEval
  | ok first =>
      rw [hFirst] at hEval
      obtain ⟨hBoot, hRest⟩ := Prod.mk.inj (Option.some.inj hEval)
      obtain ⟨hTerminate, hUpdate⟩ := Prod.mk.inj hRest
      have hIdle : Idle first.1 := ⟨hBoot, hTerminate, hUpdate⟩
      refine ⟨first.1, first.2, rfl, hIdle,
        (syncDBWithBlueprint_fixpoint_iff _ _ _ _ rfl).mpr ?_ _ _ _ hFirst hIdle⟩
      have hDesired : ∀ bpm ∈ desiredMachines ⟨"Google", "us-east1-b"⟩ ""
            googleBlueprint.blueprint.machines,
          ∀ bpm' ∈ desiredMachines ⟨"Google", "us-east1-b"⟩ "" googleBlueprint.blueprint.machines,
            bpm.diskSize = bpm'.diskSize ∧ bpm.role = bpm'.role ∧
              bpm.floatingIP = bpm'.floatingIP ∧ bpm.sshKeys = bpm'.sshKeys := by
        decide
      refine Unambiguous.rigid (fun bpm hbpm bpm' hbpm' dbm _ _ _ => ?_) (by decide)
      obtain ⟨hDisk, hRole, hIP, hKeys⟩ := hDesired bpm hbpm bpm' hbpm'
      exact ⟨hDisk, hRole, fun _ => hIP, fun _ => hKeys⟩

end Samples

end Kelda.Cloud
