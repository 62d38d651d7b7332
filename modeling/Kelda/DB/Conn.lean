import Mathlib.Data.List.Dedup
import Mathlib.Data.List.Sort
import Mathlib.Logic.Relation
import Mathlib.Tactic.Simps.Basic
import Kelda.DB.Database

/-! Concurrent use of a database connection. Threads run transactions or calls
of Trigger on shared tables. A step is one action of one thread: taking or
releasing a mutex, one operation of a transaction, one channel operation.
Actions under the locks that no other thread can observe are one step. -/
namespace Kelda.DB

/-- The name of a table, as reflection gives it. -/
def TableType.name : TableType → String
  | .blueprint => "db.Blueprint"
  | .machine => "db.Machine"
  | .container => "db.Container"
  | .minion => "db.Minion"
  | .connection => "db.Connection"
  | .loadBalancer => "db.LoadBalancer"
  | .etcd => "db.Etcd"
  | .placement => "db.Placement"
  | .image => "db.Image"
  | .hostname => "db.Hostname"

/-- The tables of a transaction, each once, in the order in which lockTables
takes their mutexes. -/
def lockOrder (tables : List TableType) : List TableType :=
  tables.dedup.insertionSort (fun tt tt' => tt.name ≤ tt'.name)

@[simp] theorem mem_lockOrder {tables : List TableType} {tt : TableType} :
    tt ∈ lockOrder tables ↔ tt ∈ tables := by
  rw [lockOrder, (List.perm_insertionSort _ _).mem_iff, List.mem_dedup]

theorem nodup_lockOrder (tables : List TableType) : (lockOrder tables).Nodup :=
  (List.perm_insertionSort _ _).nodup_iff.mpr (List.nodup_dedup tables)

/-- What a thread has been asked to do. A call of TriggerTick is a call of
Trigger that leaves a ticking goroutine behind. -/
inductive Call where
  | txn (tables : List TableType)
  | trigger (tables : List TableType) (ticks : Bool)

def Call.tables : Call → List TableType
  | .txn tables => tables
  | .trigger tables _ => tables

variable {ι : Type}

/-- Where a thread stands. A trigger is named by the thread that creates it. -/
inductive Phase (ι : Type) where
  /-- Taking the mutexes in order. -/
  | locking (locked todo : List TableType)
  /-- Inside the function given to Run. -/
  | body
  /-- Trigger has registered itself and returns from that function. -/
  | registered
  /-- Run has cleared the flags and alerts the tables that had one. -/
  | alerting (todo : List TableType)
  /-- Inside alert of one table, with the triggers it still ranges over. -/
  | visiting (tt : TableType) (pending : List ι) (todo : List TableType)
  | unlocking (rest : List TableType)
  /-- Trigger is at its blocking send. -/
  | sending
  | done

structure System (ι : Type) where
  db : Database
  /-- The thread that holds the mutex of a table. -/
  owner : TableType → Option ι
  triggers : TableType → List ι
  /-- Whether the channel of a trigger, which has capacity one, holds a token. -/
  token : ι → Bool
  stopped : ι → Bool
  ticking : ι → Bool
  phase : ι → Phase ι

namespace Database

/-- Forget that the tables have been changed. -/
def clearAlerts (view : Database) (tables : List TableType) : Database :=
  { view with shouldAlert := fun tt => view.shouldAlert tt && tt ∉ tables }

end Database

namespace System

/-- No thread has started and no trigger exists. The tables may hold any rows. -/
structure Initial (calls : ι → Call) (s : System ι) : Prop where
  flags : ∀ tt, s.db.shouldAlert tt = false
  owner : ∀ tt, s.owner tt = none
  triggers : ∀ tt, s.triggers tt = []
  token : ∀ i, s.token i = false
  stopped : ∀ i, s.stopped i = false
  ticking : ∀ i, s.ticking i = false
  phase : ∀ i, s.phase i = .locking [] (lockOrder (calls i).tables)

/-- The actions of a thread, and those of the user of its trigger. -/
inductive Action (ι : Type) where
  | lock
  | enter
  | insert (tt : TableType)
  | commit (tt : TableType) (r : RowOf tt)
  | remove (tt : TableType) (r : RowOf tt)
  | register
  | finish
  | alert (tt : TableType)
  | visit (j : ι)
  | nextTable
  | release
  | unlock (tt : TableType)
  | leave
  | send
  | receive
  | stop
  | tick
  | endTicks

variable [DecidableEq ι]

/-- Put a thread into another phase. -/
@[simps -fullyApplied] def goto (s : System ι) (i : ι) (p : Phase ι) : System ι :=
  { s with phase := Function.update s.phase i p }

@[simps -fullyApplied] def setOwner (s : System ι) (tt : TableType) (o : Option ι) : System ι :=
  { s with owner := Function.update s.owner tt o }

@[simps -fullyApplied] def setToken (s : System ι) (j : ι) (b : Bool) : System ι :=
  { s with token := Function.update s.token j b }

/-- Add a trigger to the given tables. -/
@[simps -fullyApplied] def addTrigger (s : System ι) (j : ι) (tables : List TableType) : System ι :=
  { s with triggers := fun tt =>
      if tt ∈ tables then (s.triggers tt).insert j else s.triggers tt }

/-- What alert does with one trigger: a stopped trigger is deleted, and the
send to another one is dropped if its channel is full. -/
def notify (s : System ι) (tt : TableType) (j : ι) : System ι :=
  if s.stopped j then
    { s with triggers := Function.update s.triggers tt ((s.triggers tt).erase j) }
  else s.setToken j true

/-- The function given to Run has returned: collect the changed tables and
clear their flags. -/
def finishBody (s : System ι) (calls : ι → Call) (i : ι) : System ι :=
  { s with db := s.db.clearAlerts (lockOrder (calls i).tables) }.goto i
    (.alerting ((lockOrder (calls i).tables).filter s.db.shouldAlert))

/-- One action of thread `i`. The function given to Run by a transaction does
any operations on the tables of the transaction; one that panics takes no step. -/
inductive Step (calls : ι → Call) (s : System ι) (i : ι) : Action ι → System ι → Prop where
  | lock {locked todo : List TableType} {tt : TableType}
      (hPhase : s.phase i = .locking locked (tt :: todo)) (hFree : s.owner tt = none) :
      Step calls s i .lock ((s.setOwner tt (some i)).goto i (.locking (locked ++ [tt]) todo))
  | enter {locked : List TableType} (hPhase : s.phase i = .locking locked []) :
      Step calls s i .enter (s.goto i .body)
  | insert {tables : List TableType} {tt : TableType} (hCall : calls i = .txn tables)
      (hPhase : s.phase i = .body) (hTable : tt ∈ tables) :
      Step calls s i (.insert tt) { s with db := (s.db.insert tt).2 }
  | commit {tables : List TableType} {tt : TableType} {r : RowOf tt} {db' : Database}
      (hCall : calls i = .txn tables) (hPhase : s.phase i = .body) (hTable : tt ∈ tables)
      (hCommit : s.db.commit tt r = .ok db') :
      Step calls s i (.commit tt r) { s with db := db' }
  | remove {tables : List TableType} {tt : TableType} {r : RowOf tt}
      (hCall : calls i = .txn tables) (hPhase : s.phase i = .body) (hTable : tt ∈ tables) :
      Step calls s i (.remove tt r) { s with db := s.db.remove tt r }
  | register {tables : List TableType} {ticks : Bool} (hCall : calls i = .trigger tables ticks)
      (hPhase : s.phase i = .body) :
      Step calls s i .register ((s.addTrigger i tables).goto i .registered)
  | finishTxn {tables : List TableType} (hCall : calls i = .txn tables)
      (hPhase : s.phase i = .body) :
      Step calls s i .finish (s.finishBody calls i)
  | finishTrigger (hPhase : s.phase i = .registered) :
      Step calls s i .finish (s.finishBody calls i)
  | alert {todo : List TableType} {tt : TableType} (hPhase : s.phase i = .alerting todo)
      (hTable : tt ∈ todo) :
      Step calls s i (.alert tt) (s.goto i (.visiting tt (s.triggers tt) (todo.erase tt)))
  | visit {tt : TableType} {pending : List ι} {todo : List TableType} {j : ι}
      (hPhase : s.phase i = .visiting tt pending todo) (hTrigger : j ∈ pending) :
      Step calls s i (.visit j)
        ((s.notify tt j).goto i (.visiting tt (pending.erase j) todo))
  | nextTable {tt : TableType} {todo : List TableType}
      (hPhase : s.phase i = .visiting tt [] todo) :
      Step calls s i .nextTable (s.goto i (.alerting todo))
  | release (hPhase : s.phase i = .alerting []) :
      Step calls s i .release (s.goto i (.unlocking (lockOrder (calls i).tables)))
  | unlock {rest : List TableType} {tt : TableType} (hPhase : s.phase i = .unlocking rest)
      (hTable : tt ∈ rest) :
      Step calls s i (.unlock tt) ((s.setOwner tt none).goto i (.unlocking (rest.erase tt)))
  | leaveTxn {tables : List TableType} (hCall : calls i = .txn tables)
      (hPhase : s.phase i = .unlocking []) :
      Step calls s i .leave (s.goto i .done)
  | leaveTrigger {tables : List TableType} {ticks : Bool} (hCall : calls i = .trigger tables ticks)
      (hPhase : s.phase i = .unlocking []) :
      Step calls s i .leave (s.goto i .sending)
  | send {tables : List TableType} {ticks : Bool} (hCall : calls i = .trigger tables ticks)
      (hPhase : s.phase i = .sending) (hEmpty : s.token i = false) :
      Step calls s i .send
        ({ s.setToken i true with ticking := Function.update s.ticking i ticks }.goto i .done)
  | receive {tables : List TableType} {ticks : Bool} (hCall : calls i = .trigger tables ticks)
      (hPhase : s.phase i = .done) (hToken : s.token i = true) :
      Step calls s i .receive (s.setToken i false)
  | stop {tables : List TableType} {ticks : Bool} (hCall : calls i = .trigger tables ticks)
      (hPhase : s.phase i = .done) (hRunning : s.stopped i = false) :
      Step calls s i .stop { s with stopped := Function.update s.stopped i true }
  | tick (hTicking : s.ticking i = true) : Step calls s i .tick (s.setToken i true)
  | endTicks (hTicking : s.ticking i = true) (hStopped : s.stopped i = true) :
      Step calls s i .endTicks { s with ticking := Function.update s.ticking i false }

/-- Runs whose steps are all allowed in the state they are taken in. -/
def Run (calls : ι → Call) (allowed : System ι → ι → Action ι → Prop) :
    System ι → System ι → Prop :=
  Relation.ReflTransGen (fun s s' => ∃ i a, allowed s i a ∧ Step calls s i a s')

/-- Every step is allowed. -/
def anyStep : System ι → ι → Action ι → Prop := fun _ _ _ => True

theorem Run.snoc {calls : ι → Call} {allowed : System ι → ι → Action ι → Prop}
    {s s' s'' : System ι} {i : ι} {a : Action ι} (hRun : Run calls allowed s s')
    (hStep : Step calls s' i a s'') (hAllowed : allowed s' i a) : Run calls allowed s s'' :=
  Relation.ReflTransGen.tail hRun ⟨i, a, hAllowed, hStep⟩

/-- What holds at first and is kept by allowed steps holds throughout. -/
theorem Run.invariant {calls : ι → Call} {allowed : System ι → ι → Action ι → Prop}
    {P : System ι → Prop} {s s' : System ι} (h : Run calls allowed s s') (hStart : P s)
    (hStep : ∀ s i a s', P s → allowed s i a → Step calls s i a s' → P s') : P s' := by
  induction h with
  | refl => exact hStart
  | tail prior last ih =>
      obtain ⟨i, a, hAllowed, hLast⟩ := last
      exact hStep _ i a _ ih hAllowed hLast

end System

end Kelda.DB
