import Kelda.Lib.RefStore

/-! Transactions on a database of references. A transaction is a list of operations
that takes effect as a whole: at its end it is refused if a reference has lost its
row or a column with an index holds a value twice. -/
namespace RefStore

open UuidTable

variable {Part Holder : Type}

/-- A row that exists, or one that the same transaction inserts under a name. -/
inductive Ref where
  | uuid (id : Nat)
  | named (name : String)
deriving DecidableEq

inductive Op (S : Schema Part Holder) where
  | create (h : Holder) (name : String)
  | insert (p : Part) (row : S.Row p) (uuidName : Option String)
  | delete (p : Part) (uuid : Nat)
  | deleteWhere (p : Part) (cond : S.Row p → Bool)
  | attach (p : Part) (owner : String) (ref : Ref)
  | detach (p : Part) (owner : String) (uuid : Nat)
  | update (p : Part) (cond : S.Row p → Bool) (set : S.Row p → S.Row p)

variable {S : Schema Part Holder}

/-- The kind of the parts that an operation is about. -/
def Op.part : Op S → Option Part
  | .create _ _ => none
  | .insert p _ _ | .delete p _ | .deleteWhere p _ | .attach p _ _ | .detach p _ _
  | .update p _ _ => some p

section Transactions

variable [DecidableEq Part] [DecidableEq Holder]

/-- A transaction on its way, with the identifiers of the rows that it has named. -/
structure Txn (S : Schema Part Holder) where
  store : Store S
  names : List (String × Part × Nat)

/-- A name has to be that of a row of the right kind. -/
def Ref.resolve (p : Part) (names : List (String × Part × Nat)) : Ref → Option Nat
  | .uuid id => some id
  | .named name =>
    match names.lookup name with
    | some (q, id) => if q = p then some id else none
    | none => none

def Txn.step (t : Txn S) : Op S → Except String (Txn S)
  | .create h name => .ok { t with store := t.store.addHolder h name }
  | .insert p row none => .ok { t with store := t.store.setParts p ((t.store.parts p).push row) }
  | .insert p row (some uuidName) =>
    if uuidName ∈ t.names.map Prod.fst then .error "duplicate uuid-name"
    else .ok ⟨t.store.setParts p ((t.store.parts p).push row),
      (uuidName, p, (t.store.parts p).next) :: t.names⟩
  | .delete p uuid => .ok { t with store := t.store.setParts p ((t.store.parts p).delete [uuid]) }
  | .deleteWhere p cond =>
    .ok { t with store := t.store.setParts p ((t.store.parts p).deleteWhere cond) }
  | .attach p owner ref =>
    match ref.resolve p t.names with
    | none => .error "unknown uuid-name"
    | some uuid => .ok { t with store := t.store.setRefs p owner (insert uuid) }
  | .detach p owner uuid =>
    .ok { t with store := t.store.setRefs p owner (fun refs => refs.erase uuid) }
  | .update p cond set =>
    .ok { t with
          store := t.store.setParts p
            ((t.store.parts p).mapVals (fun row => if cond row then set row else row)) }

/-- What an operation can do: make a holder, change the rows of one kind of parts, or
change the references to them. -/
theorem Txn.step_cases {t t' : Txn S} {op : Op S} (h : t.step op = .ok t') :
    (∃ hd name, op = .create hd name ∧ t' = ⟨t.store.addHolder hd name, t.names⟩) ∨
      (∃ p table names, t' = ⟨t.store.setParts p table, names⟩ ∧ op.part = some p ∧
        (t.store.parts p).next ≤ table.next ∧
          (names = t.names ∨ ∃ name, names = (name, p, (t.store.parts p).next) :: t.names)) ∨
      ∃ p owner set, t' = ⟨t.store.setRefs p owner set, t.names⟩ ∧ op.part = some p ∧
        ((∀ refs, set refs ⊆ refs) ∨ ∃ ref uuid, op = .attach p owner ref ∧
          ref.resolve p t.names = some uuid ∧ set = insert uuid) := by
  cases op with
  | create hd name =>
      cases h
      exact Or.inl ⟨hd, name, rfl, rfl⟩
  | insert p row uuidName =>
      refine Or.inr (Or.inl ⟨p, (t.store.parts p).push row, ?_⟩)
      cases uuidName with
      | none =>
          cases h
          exact ⟨_, rfl, rfl, Nat.le_succ _, Or.inl rfl⟩
      | some name =>
          rw [step] at h
          split_ifs at h
          cases h
          exact ⟨_, rfl, rfl, Nat.le_succ _, Or.inr ⟨name, rfl⟩⟩
  | delete p uuid =>
      cases h
      exact Or.inr (Or.inl ⟨p, _, _, rfl, rfl, Nat.le_refl _, Or.inl rfl⟩)
  | deleteWhere p cond =>
      cases h
      exact Or.inr (Or.inl ⟨p, _, _, rfl, rfl, Nat.le_refl _, Or.inl rfl⟩)
  | attach p owner ref =>
      rw [step] at h
      cases hRef : ref.resolve p t.names with
      | none =>
          rw [hRef] at h
          cases h
      | some uuid =>
          rw [hRef] at h
          cases h
          exact Or.inr (Or.inr ⟨p, owner, _, rfl, rfl, Or.inr ⟨ref, uuid, rfl, hRef, rfl⟩⟩)
  | detach p owner uuid =>
      cases h
      exact Or.inr (Or.inr ⟨p, owner, _, rfl, rfl, Or.inl (fun refs => Finset.erase_subset _ _)⟩)
  | update p cond set =>
      cases h
      exact Or.inr (Or.inl ⟨p, _, _, rfl, rfl, Nat.le_refl _, Or.inl rfl⟩)

def Store.transact [Fintype Part] (st : Store S) (ops : List (Op S)) : Except String (Store S) := do
  let t ← ops.foldlM Txn.step ⟨st, []⟩
  t.store.commit

/-- A transaction that is refused changes nothing. -/
def Store.exec [Fintype Part] (st : Store S) (ops : List (Op S)) : Store S :=
  match st.transact ops with
  | .ok st' => st'
  | .error _ => st

theorem Store.exec_of_run [Fintype Part] {st : Store S} {ops : List (Op S)} {t : Txn S}
    (hRun : ops.foldlM Txn.step ⟨st, []⟩ = .ok t) :
    st.exec ops = match t.store.commit with
      | .ok st' => st'
      | .error _ => st := by
  rw [exec, transact, hRun]
  rfl

/-- What every operation keeps, and the collection too, is kept by a transaction,
accepted or not. -/
theorem Store.exec_keeps [Fintype Part] {P : Store S → Prop} {Q : Txn S → Prop} {st : Store S}
    {ops : List (Op S)} (hSt : P st) (hStart : Q ⟨st, []⟩)
    (hStep : ∀ op ∈ ops, ∀ t t', Q t → t.step op = .ok t' → Q t')
    (hEnd : ∀ t, Q t → t.store.collect.Sound → P t.store.collect) : P (st.exec ops) := by
  have hRun : ∀ (ops : List (Op S)) (t t' : Txn S),
      (∀ op ∈ ops, ∀ t t', Q t → t.step op = .ok t' → Q t') → Q t →
        ops.foldlM Txn.step t = .ok t' → Q t' := by
    intro ops
    induction ops with
    | nil =>
        intro t t' _ hQ h
        cases h
        exact hQ
    | cons op ops ih =>
        intro t t' hStep hQ h
        rw [List.foldlM_cons] at h
        cases hOp : t.step op with
        | error err =>
            rw [hOp] at h
            cases h
        | ok next =>
            rw [hOp] at h
            exact ih next t' (fun op' hMem => hStep op' (List.mem_cons_of_mem _ hMem))
              (hStep op List.mem_cons_self t next hQ hOp) h
  rw [exec, transact]
  cases hFold : ops.foldlM Txn.step ⟨st, []⟩ with
  | error err => exact hSt
  | ok t =>
      change P (match t.store.commit with | .ok st' => st' | .error _ => st)
      cases hCommit : t.store.commit with
      | error err => exact hSt
      | ok st' =>
          obtain ⟨hSound, rfl⟩ := commit_sound hCommit
          exact hEnd t (hRun ops _ t hStep hStart hFold) hSound

/-- New rows, each under a name of its own by which the holders refer to it. -/
def hangOps (p : Part) (owner : String) (rows : List (S.Row p × String)) : List (Op S) :=
  rows.flatMap (fun e => [.insert p e.1 (some e.2), .attach p owner (.named e.2)])

def unhangOps (p : Part) (owner : String) (uuids : List Nat) : List (Op S) :=
  uuids.flatMap (fun uuid => [.delete p uuid, .detach p owner uuid])

omit [DecidableEq Part] [DecidableEq Holder] in
theorem part_hangOps {p : Part} {owner : String} {rows : List (S.Row p × String)} {op : Op S}
    (h : op ∈ hangOps p owner rows) : op.part = some p := by
  obtain ⟨e, -, hMem⟩ := List.mem_flatMap.mp h
  rcases List.mem_pair.mp hMem with rfl | rfl <;> rfl

omit [DecidableEq Part] [DecidableEq Holder] in
theorem part_unhangOps {p : Part} {owner : String} {uuids : List Nat} {op : Op S}
    (h : op ∈ unhangOps p owner uuids) : op.part = some p := by
  obtain ⟨uuid, -, hMem⟩ := List.mem_flatMap.mp h
  rcases List.mem_pair.mp hMem with rfl | rfl <;> rfl

theorem foldlM_hangOps (p : Part) (owner : String) (rows : List (S.Row p × String)) (t : Txn S)
    (hNames : (rows.map Prod.snd).Nodup)
    (hFresh : ∀ name ∈ rows.map Prod.snd, name ∉ t.names.map Prod.fst) :
    ∃ names, (hangOps p owner rows).foldlM Txn.step t =
      .ok ⟨t.store.hangAll p owner (rows.map Prod.fst), names⟩ := by
  induction rows generalizing t with
  | nil => exact ⟨t.names, rfl⟩
  | cons e rows ih =>
      rw [List.map_cons, List.nodup_cons] at hNames
      have hNew : e.2 ∉ t.names.map Prod.fst := hFresh e.2 (by simp)
      obtain ⟨names, hRest⟩ := ih ⟨t.store.hang p owner e.1, (e.2, p, (t.store.parts p).next) :: t.names⟩
        hNames.2 (fun name hName hMem => by
          rcases List.mem_cons.mp hMem with rfl | hMem
          · exact hNames.1 hName
          · exact hFresh name (List.mem_cons_of_mem _ hName) hMem)
      refine ⟨names, ?_⟩
      have hInsert : t.step (.insert p e.1 (some e.2)) =
          .ok ⟨t.store.setParts p ((t.store.parts p).push e.1),
            (e.2, p, (t.store.parts p).next) :: t.names⟩ := if_neg hNew
      have hOps : hangOps p owner (e :: rows) =
          .insert p e.1 (some e.2) :: .attach p owner (.named e.2) :: hangOps p owner rows := rfl
      rw [hOps, List.foldlM_cons, hInsert]
      change (Txn.step _ _ >>= fun t => (hangOps p owner rows).foldlM Txn.step t) = _
      simp only [Txn.step, Ref.resolve, List.lookup_cons_self, if_true]
      exact hRest

theorem foldlM_unhangOps (p : Part) (owner : String) (uuids : List Nat) (t : Txn S) :
    (unhangOps p owner uuids).foldlM Txn.step t =
      .ok ⟨t.store.unhangAll p owner uuids, t.names⟩ := by
  induction uuids generalizing t with
  | nil => rfl
  | cons uuid uuids ih => exact ih ⟨t.store.unhang p owner uuid, t.names⟩

end Transactions

namespace Store

variable [DecidableEq Part] [DecidableEq Holder] {st : Store S} {p : Part} {owner : String}

section Tables

theorem foldlM_insert (rows : List (S.Row p)) (t : Txn S) :
    (rows.map (fun row => Op.insert p row none)).foldlM Txn.step t =
      .ok ⟨t.store.setParts p ((t.store.parts p).insert rows), t.names⟩ := by
  induction rows generalizing t with
  | nil =>
      have hSame : t.store.setParts p ((t.store.parts p).insert []) = t.store := by
        simp [setParts, Table.insert]
      rw [hSame]
      rfl
  | cons row rows ih =>
      refine (ih ⟨t.store.setParts p ((t.store.parts p).push row), t.names⟩).trans ?_
      simp [setParts, Table.insert]

theorem foldlM_deleteWhere (conds : List (S.Row p → Bool)) (t : Txn S) :
    (conds.map (Op.deleteWhere p)).foldlM Txn.step t =
      .ok ⟨t.store.setParts p ((t.store.parts p).deleteWhere (fun row => conds.any (· row))),
        t.names⟩ := by
  induction conds generalizing t with
  | nil =>
      have hSame : t.store.setParts p ((t.store.parts p).deleteWhere (fun _ => false)) =
          t.store := by
        simp [setParts, Table.deleteWhere]
      exact congrArg (fun store => Except.ok (⟨store, t.names⟩ : Txn S)) hSame.symm
  | cons cond conds ih =>
      refine (ih ⟨t.store.setParts p ((t.store.parts p).deleteWhere cond), t.names⟩).trans ?_
      simp [setParts, Table.deleteWhere, List.filter_filter, Bool.and_comm]

end Tables

section Exec

variable [Fintype Part]

/-- New rows are inserted unless an index refuses them; without a holder they are
collected at once. -/
theorem exec_hangOps {rows : List (S.Row p × String)} (hSt : st.Sound)
    (hNames : (rows.map Prod.snd).Nodup)
    (hNew : (((st.parts p).vals ++ rows.map Prod.fst).filterMap (S.index p)).Nodup) :
    st.exec (hangOps p owner rows) = (st.hangAll p owner (rows.map Prod.fst)).collect := by
  obtain ⟨names, hRun⟩ := foldlM_hangOps p owner rows ⟨st, []⟩ hNames (by simp)
  rw [exec_of_run hRun, commit_eq_collect (hangAll_intact hSt.intact _)
    (hangAll_indexed hSt.indexed hNew)]

theorem exec_hangOps_holder {rows : List (S.Row p × String)} (hSt : st.Sound)
    (hNames : (rows.map Prod.snd).Nodup)
    (hNew : (((st.parts p).vals ++ rows.map Prod.fst).filterMap (S.index p)).Nodup)
    (hHolder : st.HasHolder (S.holder p) owner) :
    st.exec (hangOps p owner rows) = st.hangAll p owner (rows.map Prod.fst) := by
  rw [exec_hangOps hSt hNames hNew]
  exact collect_eq_self (fun q hRoot => hangAll_hangs (hSt.collected q hRoot) (fun _ => hHolder) _)

/-- Parts that no operation is about are left alone, whether or not the transaction is
accepted, and go on to hang on their holders. -/
theorem exec_frame {ops : List (Op S)} {q : Part} (hOps : ∀ op ∈ ops, op.part ≠ some q) :
    ((S.isRoot q = false → st.Hangs q) → (st.exec ops).parts q = st.parts q) ∧
      (st.Hangs q → (st.exec ops).Hangs q) := by
  refine exec_keeps (P := fun st' => ((S.isRoot q = false → st.Hangs q) →
      st'.parts q = st.parts q) ∧ (st.Hangs q → st'.Hangs q))
    (Q := fun t => t.store.parts q = st.parts q ∧
      ∀ uuid, st.referenced q uuid = true → t.store.referenced q uuid = true)
    ⟨fun _ => rfl, id⟩ ⟨rfl, fun _ hRef => hRef⟩ ?_ ?_
  · rintro op hOp t t' ⟨hParts, hRefs⟩ hStep
    obtain ⟨hd, name, rfl, rfl⟩ | ⟨p, table, names, rfl, hPart, -⟩ | ⟨p, owner, set, rfl, hPart, -⟩ :=
      Txn.step_cases hStep
    · exact ⟨hParts, fun uuid hRef => addHolder_referenced.trans (hRefs uuid hRef)⟩
    · have hNe : q ≠ p := fun hEq => hOps op hOp (hEq ▸ hPart)
      exact ⟨(setParts_ne _ hNe _).trans hParts, hRefs⟩
    · have hNe : q ≠ p := fun hEq => hOps op hOp (hEq ▸ hPart)
      exact ⟨hParts, fun uuid hRef =>
        referenced_setRefs (hRefs uuid hRef) (fun hEq => (hNe hEq).elim)⟩
  · rintro t ⟨hParts, hRefs⟩ -
    have hHangs : st.Hangs q → t.store.Hangs q := fun h r hr => hRefs _ (h r (hParts ▸ hr))
    exact ⟨fun h => (collect_parts (fun hRoot => hHangs (h hRoot))).trans hParts,
      fun h => collect_hangs (hHangs h)⟩

theorem exec_hangOps_hangs {rows : List (S.Row p × String)}
    (hNames : (rows.map Prod.snd).Nodup) (h : st.Hangs p)
    (hHolder : st.HasHolder (S.holder p) owner) : (st.exec (hangOps p owner rows)).Hangs p := by
  obtain ⟨names, hRun⟩ := foldlM_hangOps p owner rows ⟨st, []⟩ hNames (by simp)
  rw [exec_of_run hRun]
  cases hCommit : (st.hangAll p owner (rows.map Prod.fst)).commit with
  | error err => exact h
  | ok st' =>
      rw [(commit_sound hCommit).2]
      exact collect_hangs (hangAll_hangs h (fun _ => hHolder) _)

/-- No rows appear but the new ones. -/
theorem exec_hangOps_vals_subset {rows : List (S.Row p × String)}
    (hNames : (rows.map Prod.snd).Nodup) : ∀ r ∈ ((st.exec (hangOps p owner rows)).parts p).vals,
      r ∈ (st.parts p).vals ∨ r ∈ rows.map Prod.fst := by
  obtain ⟨names, hRun⟩ := foldlM_hangOps p owner rows ⟨st, []⟩ hNames (by simp)
  rw [exec_of_run hRun]
  intro r hr
  cases hCommit : (st.hangAll p owner (rows.map Prod.fst)).commit with
  | error err =>
      rw [hCommit] at hr
      exact Or.inl hr
  | ok st' =>
      rw [hCommit, (commit_sound hCommit).2] at hr
      have hBefore := collect_vals_subset _ p hr
      rwa [hangAll_parts_same, Table.vals_insert, List.mem_append] at hBefore

theorem exec_unhangOps {uuids : List Nat} (hSt : st.Sound)
    (hOnly : ∀ r ∈ (st.holders (S.holder p)).rows, r.val.name = owner) :
    st.exec (unhangOps p owner uuids) = st.unhangAll p owner uuids := by
  rw [exec_of_run (foldlM_unhangOps p owner uuids ⟨st, []⟩),
    commit_of_sound (unhangAll_sound hSt hOnly uuids)]

theorem exec_create {h : Holder} {name : String} (hSt : st.Sound) :
    st.exec [.create h name] = st.addHolder h name := by
  rw [exec_of_run (t := ⟨st.addHolder h name, []⟩) rfl, commit_of_sound (addHolder_sound hSt)]

theorem exec_update {cond : S.Row p → Bool} {set : S.Row p → S.Row p} (hSt : st.Sound)
    (hIndex : ∀ row, S.index p (set row) = S.index p row) :
    st.exec [.update p cond set] =
      st.setParts p ((st.parts p).mapVals (fun row => if cond row then set row else row)) := by
  rw [exec_of_run (t := ⟨st.setParts p _, []⟩) rfl, commit_of_sound (mapVals_sound hSt ?_)]
  intro row
  split_ifs
  · exact hIndex row
  · rfl

/-- Rows that no holder refers to, inserted or deleted in the table of a root. -/
theorem exec_setParts {ops : List (Op S)} {table : Table (S.Row p)}
    (hRun : ops.foldlM Txn.step ⟨st, []⟩ = .ok ⟨st.setParts p table, []⟩) (hSt : st.Sound)
    (hRoot : S.isRoot p = true) (hFree : ∀ uuid, st.referenced p uuid = false) :
    st.exec ops = if (table.vals.filterMap (S.index p)).Nodup then st.setParts p table else st := by
  have hCollected : (st.setParts p table).Collected := by
    intro q hq
    have hPart : q ≠ p := fun hEq => by simp [hEq, hRoot] at hq
    intro r hr
    rw [setParts_ne _ hPart] at hr
    exact hSt.collected q hq r hr
  have hIntact : (st.setParts p table).Intact := by
    intro q r hr uuid hRef
    have hPart : q ≠ p := by
      rintro rfl
      have hSome : st.referenced q uuid = true := referenced_iff.mpr ⟨r, hr, hRef⟩
      simp [hFree] at hSome
    rw [setParts_ne _ hPart]
    exact hSt.intact q r hr uuid hRef
  rw [exec_of_run hRun, commit, collect_eq_self hCollected, if_neg (not_not.mpr hIntact)]
  simp only [indexed_setParts hSt.indexed, ite_not]
  split_ifs <;> rfl

/-- The names of holders are those that were there and those of the operations. -/
theorem exec_holderNames {ops : List (Op S)} {N : Holder → String → Prop}
    (hSt : ∀ h, ∀ r ∈ (st.holders h).rows, N h r.val.name)
    (hOps : ∀ h name, Op.create h name ∈ ops → N h name) :
    ∀ h, ∀ r ∈ ((st.exec ops).holders h).rows, N h r.val.name := by
  refine exec_keeps (P := fun st => ∀ h, ∀ r ∈ (st.holders h).rows, N h r.val.name)
    (Q := fun t => ∀ h, ∀ r ∈ (t.store.holders h).rows, N h r.val.name) hSt hSt ?_ ?_
  · intro op hOp t t' hT hStep
    obtain ⟨hd, name, rfl, rfl⟩ | ⟨p, table, names, rfl, -⟩ | ⟨p, owner, set, rfl, -⟩ :=
      Txn.step_cases hStep
    · intro h r hr
      rcases mem_holders_addHolder.mp hr with hr | ⟨rfl, rfl⟩
      · exact hT h r hr
      · exact hOps h name hOp
    · exact hT
    · intro h r hr
      obtain ⟨old, hOld, rfl⟩ := mem_holders_setRefs.mp hr
      split_ifs
      · exact HolderRow.setRef_name (r := old.val) ▸ hT h old hOld
      · exact hT h old hOld
  · exact fun t hT _ => hT

/-- Holders are never removed. -/
theorem exec_hasHolder {ops : List (Op S)} {h : Holder} {name : String}
    (hSt : st.HasHolder h name) : (st.exec ops).HasHolder h name := by
  refine exec_keeps (P := fun st => st.HasHolder h name)
    (Q := fun t => t.store.HasHolder h name) hSt hSt ?_ ?_
  · intro op _ t t' hT hStep
    obtain ⟨hd, name', -, rfl⟩ | ⟨p, table, names, rfl, -⟩ | ⟨p, owner, set, rfl, -⟩ :=
      Txn.step_cases hStep
    · obtain ⟨r, hr, hName⟩ := hT
      exact ⟨r, mem_holders_addHolder.mpr (Or.inl hr), hName⟩
    · exact hT
    · exact hasHolder_setRefs hT
  · exact fun t hT _ => hT

theorem exec_sound {ops : List (Op S)} (hSt : st.Sound) : (st.exec ops).Sound :=
  exec_keeps (P := Sound) (Q := fun _ => True) hSt trivial (fun _ _ _ _ _ _ => trivial)
    (fun _ _ hSound => hSound)

theorem exec_not_referenced {ops : List (Op S)} {uuid : Nat}
    (hOps : ∀ owner ref, Op.attach p owner ref ∉ ops) (hSt : st.referenced p uuid = false) :
    (st.exec ops).referenced p uuid = false := by
  refine exec_keeps (P := fun st => st.referenced p uuid = false)
    (Q := fun t => t.store.referenced p uuid = false) hSt hSt ?_ ?_
  · intro op hOp t t' hT hStep
    obtain ⟨hd, name, rfl, rfl⟩ | ⟨q, table, names, rfl, -⟩ | ⟨q, owner, set, rfl, -, hSet⟩ :=
      Txn.step_cases hStep
    · exact addHolder_referenced.trans hT
    · exact hT
    · refine not_referenced_setRefs hT ?_
      rintro rfl refs hMem
      rcases hSet with hSub | ⟨ref, id, rfl, -⟩
      · exact hSub refs hMem
      · exact (hOps owner ref hOp).elim
  · exact fun t hT _ => hT

/-- There is, or was, a row of the identifier, and no holder refers to it. -/
def Loose (st : Store S) (p : Part) (uuid : Nat) : Prop :=
  uuid < (st.parts p).next ∧ st.referenced p uuid = false

/-- A transaction that only attaches rows that it has made leaves loose rows loose. -/
theorem exec_loose {ops : List (Op S)} {uuid : Nat}
    (hOps : ∀ owner id, Op.attach p owner (.uuid id) ∉ ops) (hSt : st.Loose p uuid) :
    (st.exec ops).Loose p uuid := by
  refine exec_keeps (P := fun st => st.Loose p uuid) (Q := fun t => t.store.Loose p uuid ∧
    ∀ e ∈ t.names, e.2.1 = p → e.2.2 ≠ uuid) hSt ⟨hSt, by simp⟩ ?_ ?_
  · rintro op hOp t t' ⟨hT, hNames⟩ hStep
    obtain ⟨hd, name, rfl, rfl⟩ | ⟨q, table, names, rfl, -, hNext, hNew⟩ |
      ⟨q, owner, set, rfl, -, hSet⟩ := Txn.step_cases hStep
    · exact ⟨⟨hT.1, addHolder_referenced.trans hT.2⟩, hNames⟩
    · refine ⟨⟨?_, hT.2⟩, ?_⟩
      · by_cases hPart : p = q
        · subst hPart
          rw [setParts_same]
          exact hT.1.trans_le hNext
        · rw [setParts_ne _ hPart]
          exact hT.1
      · rcases hNew with rfl | ⟨name, rfl⟩
        · exact hNames
        · intro e he hPart
          rcases List.mem_cons.mp he with rfl | he
          · simp only at hPart
            subst hPart
            exact hT.1.ne'
          · exact hNames e he hPart
    · refine ⟨⟨hT.1, not_referenced_setRefs hT.2 ?_⟩, hNames⟩
      rintro rfl refs hMem
      rcases hSet with hSub | ⟨ref, id, rfl, hResolve, rfl⟩
      · exact hSub refs hMem
      · refine (Finset.mem_insert.mp hMem).resolve_left ?_
        rintro rfl
        cases ref with
        | uuid id => exact hOps owner id hOp
        | named name =>
            rw [Ref.resolve] at hResolve
            split at hResolve
            · rename_i q id' hLookup
              split_ifs at hResolve with hPart
              cases hResolve
              obtain ⟨before, after, hEq, -⟩ := List.lookup_eq_some_iff.mp hLookup
              exact hNames (name, q, uuid) (by simp [hEq]) hPart rfl
            · cases hResolve
  · rintro t ⟨hT, -⟩ -
    refine ⟨?_, hT.2⟩
    simp only [collect]
    split_ifs
    · exact hT.1
    · exact hT.1

end Exec

end Store

end RefStore
