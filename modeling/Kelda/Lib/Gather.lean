import Mathlib.Data.List.Perm.Basic
import Mathlib.Data.List.Flatten
import Mathlib.Algebra.Order.BigOperators.Group.List
import Mathlib.Algebra.Order.Ring.Nat

/-! A caller that starts one worker per request and gathers the results over two
buffered channels. A worker makes its call, sends the result over the first
channel and then the error, if there was one, over the second. The caller
receives as many errors as there are workers, closes the first channel and
drains it; it gives up on the first error. -/
namespace Gather

variable {ι ρ ε : Type}

/-- What a worker still has to do. -/
inductive Worker (ι ρ ε : Type) where
  | calling (req : ι)
  | sending (res : ρ) (err : Option ε)
  | reporting (err : Option ε)
  | done

/-- Where the caller stands. Sending over a closed channel ends the process. -/
inductive Caller (ρ ε : Type) where
  | waiting (received : Nat)
  | draining (got : List ρ)
  | returned (result : Except ε (List ρ))
  | panicked

structure State (ι ρ ε : Type) where
  workers : List (Worker ι ρ ε)
  results : List ρ
  errors : List (Option ε)
  caller : Caller ρ ε
  /-- The calls made so far, with their results. -/
  answered : List (ι × ρ)

def start (reqs : List ι) : State ι ρ ε where
  workers := reqs.map .calling
  results := []
  errors := []
  caller := .waiting 0
  answered := []

inductive Action (ρ ε : Type) where
  | call (i : Nat) (res : ρ) (err : Option ε)
  | send (i : Nat)
  | report (i : Nat)
  | receive
  | close
  | drain

namespace Caller

/-- The caller has closed the channel of the results. -/
def closed : Caller ρ ε → Bool
  | waiting _ => false
  | draining _ => true
  | returned (.ok _) => true
  | returned (.error _) => false
  | panicked => false

/-- The results taken from the channel. -/
def got : Caller ρ ε → List ρ
  | draining got => got
  | returned (.ok got) => got
  | _ => []

end Caller

/-- One step of a worker or of the caller; `none` if it is not possible. -/
def step (s : State ι ρ ε) : Action ρ ε → Option (State ι ρ ε)
  | .call i res err =>
    match s.workers[i]? with
    | some (.calling req) => some { s with
        workers := s.workers.set i (.sending res err)
        answered := s.answered ++ [(req, res)] }
    | _ => none
  | .send i =>
    match s.workers[i]? with
    | some (.sending res err) =>
      if s.caller.closed then some { s with workers := [], caller := .panicked }
      else some { s with
        workers := s.workers.set i (.reporting err)
        results := s.results ++ [res] }
    | _ => none
  | .report i =>
    match s.workers[i]? with
    | some (.reporting err) => some { s with
        workers := s.workers.set i .done
        errors := s.errors ++ [err] }
    | _ => none
  | .receive =>
    match s.caller, s.errors with
    | .waiting received, none :: errors =>
      if received < s.workers.length then
        some { s with caller := .waiting (received + 1), errors := errors }
      else none
    | .waiting received, some err :: errors =>
      if received < s.workers.length then
        some { s with caller := .returned (.error err), errors := errors }
      else none
    | _, _ => none
  | .close =>
    match s.caller with
    | .waiting received =>
      if received < s.workers.length then none else some { s with caller := .draining [] }
    | _ => none
  | .drain =>
    match s.caller, s.results with
    | .draining got, res :: results =>
      some { s with caller := .draining (got ++ [res]), results := results }
    | .draining got, [] => some { s with caller := .returned (.ok got) }
    | _, _ => none

/-- Any interleaving of the steps. -/
def exec (s : State ι ρ ε) (actions : List (Action ρ ε)) : Option (State ι ρ ε) :=
  actions.foldlM step s

section Steps

variable {s s' : State ι ρ ε}

theorem split_of_getElem? {α : Type} {l : List α} {i : Nat} {x : α} (h : l[i]? = some x) :
    ∃ before after, l = before ++ x :: after ∧ ∀ y, l.set i y = before ++ y :: after := by
  obtain ⟨hi, rfl⟩ := List.getElem?_eq_some_iff.mp h
  refine ⟨l.take i, l.drop (i + 1), ?_, ?_⟩
  · rw [List.cons_getElem_drop_succ, List.take_append_drop]
  · intro y
    rw [List.set_eq_take_append_cons_drop, if_pos hi]

/-- What one step can do, but for the end of the process. -/
inductive Stepped (s : State ι ρ ε) : Action ρ ε → State ι ρ ε → Prop where
  | call {i req res err before after} (h : s.workers = before ++ .calling req :: after) :
      Stepped s (.call i res err) { s with
        workers := before ++ .sending res err :: after
        answered := s.answered ++ [(req, res)] }
  | send {i res err before after} (h : s.workers = before ++ .sending res err :: after)
      (hOpen : s.caller.closed = false) :
      Stepped s (.send i) { s with
        workers := before ++ .reporting err :: after
        results := s.results ++ [res] }
  | crash {i res err before after} (h : s.workers = before ++ .sending res err :: after)
      (hClosed : s.caller.closed = true) :
      Stepped s (.send i) { s with workers := [], caller := .panicked }
  | report {i err before after} (h : s.workers = before ++ .reporting err :: after) :
      Stepped s (.report i) { s with
        workers := before ++ .done :: after
        errors := s.errors ++ [err] }
  | receive {received errors} (hc : s.caller = .waiting received) (he : s.errors = none :: errors) :
      Stepped s .receive { s with caller := .waiting (received + 1), errors := errors }
  | giveUp {received err errors} (hc : s.caller = .waiting received)
      (he : s.errors = some err :: errors) :
      Stepped s .receive { s with caller := .returned (.error err), errors := errors }
  | close {received} (hc : s.caller = .waiting received) (hr : s.workers.length ≤ received) :
      Stepped s .close { s with caller := .draining [] }
  | drain {got res results} (hc : s.caller = .draining got) (hr : s.results = res :: results) :
      Stepped s .drain { s with caller := .draining (got ++ [res]), results := results }
  | finish {got} (hc : s.caller = .draining got) (hr : s.results = []) :
      Stepped s .drain { s with caller := .returned (.ok got) }

theorem stepped_of_step {action : Action ρ ε} (h : step s action = some s') :
    Stepped s action s' := by
  cases action with
  | call i res err =>
      simp only [step] at h
      split at h
      · rename_i req hw
        obtain ⟨before, after, hs, hSet⟩ := split_of_getElem? hw
        rw [hSet, Option.some.injEq] at h
        subst h
        exact .call hs
      · cases h
  | send i =>
      simp only [step] at h
      split at h
      · rename_i res err hw
        obtain ⟨before, after, hs, hSet⟩ := split_of_getElem? hw
        split at h
        · rename_i hc
          cases h
          exact .crash hs hc
        · rename_i hc
          rw [hSet, Option.some.injEq] at h
          subst h
          exact .send hs (by simpa using hc)
      · cases h
  | report i =>
      simp only [step] at h
      split at h
      · rename_i err hw
        obtain ⟨before, after, hs, hSet⟩ := split_of_getElem? hw
        rw [hSet, Option.some.injEq] at h
        subst h
        exact .report hs
      · cases h
  | receive =>
      simp only [step] at h
      split at h
      · rename_i received errors hc he
        split at h
        · cases h
          exact .receive hc he
        · cases h
      · rename_i received err errors hc he
        split at h
        · cases h
          exact .giveUp hc he
        · cases h
      · cases h
  | close =>
      simp only [step] at h
      split at h
      · rename_i received hc
        split at h
        · cases h
        · rename_i hr
          cases h
          exact .close hc (by omega)
      · cases h
  | drain =>
      simp only [step] at h
      split at h
      · rename_i got res results hc hr
        cases h
        exact .drain hc hr
      · rename_i got hc hr
        cases h
        exact .finish hc hr
      · cases h

/-- A property that the steps of certain actions keep holds along their runs. -/
theorem exec_keeps {P : State ι ρ ε → Prop} {Q : Action ρ ε → Prop}
    (hStep : ∀ {s s' action}, Q action → P s → Stepped s action s' → P s')
    {actions : List (Action ρ ε)} (hQ : ∀ action ∈ actions, Q action) (hs : P s)
    (h : exec s actions = some s') : P s' := by
  induction actions generalizing s with
  | nil =>
      cases h
      exact hs
  | cons action actions ih =>
      rw [exec, List.foldlM_cons] at h
      obtain ⟨mid, hMid, hRest⟩ := Option.bind_eq_some_iff.mp h
      have hP := hStep (hQ action List.mem_cons_self) hs (stepped_of_step hMid)
      exact ih (fun a ha => hQ a (List.mem_cons_of_mem _ ha)) hP hRest

end Steps

section Invariant

namespace Worker

/-- The request of a worker that has not made its call. -/
def pending : Worker ι ρ ε → List ι
  | calling req => [req]
  | _ => []

/-- The result a worker has not sent. -/
def unsent : Worker ι ρ ε → List ρ
  | sending res _ => [res]
  | _ => []

def isDone : Worker ι ρ ε → Bool
  | done => true
  | _ => false

/-- The error a worker still has to report. -/
def error : Worker ι ρ ε → Option ε
  | sending _ err => err
  | reporting err => err
  | _ => none

/-- A bound on the steps that come of this worker. -/
def weight : Worker ι ρ ε → Nat
  | calling _ => 5
  | sending _ _ => 4
  | reporting _ => 2
  | done => 0

end Worker

variable {s s' : State ι ρ ε} {reqs : List ι}

/-- No request is lost or made twice, and no result is lost or doubled; the
errors tell how many workers are done. -/
structure Accounted (reqs : List ι) (s : State ι ρ ε) : Prop where
  requests : (s.answered.map Prod.fst ++ s.workers.flatMap Worker.pending).Perm reqs
  results : (s.caller.got ++ s.results ++ s.workers.flatMap Worker.unsent).Perm
    (s.answered.map Prod.snd)
  reports : ∀ received, s.caller = .waiting received →
    received + s.errors.length = s.workers.countP Worker.isDone
  joined : s.caller.closed = true → ∀ w ∈ s.workers, w.isDone = true
  drained : ∀ got, s.caller = .returned (.ok got) → s.results = []
  alive : s.caller ≠ .panicked

theorem accounted_start (reqs : List ι) : Accounted reqs (start reqs : State ι ρ ε) where
  requests := by simp [start, List.flatMap_map, Worker.pending]
  results := by simp [start, Caller.got, List.flatMap_map, Worker.unsent]
  reports := by
    intro received h
    cases h
    simp [start, List.countP_map, Function.comp_def, Worker.isDone]
  joined := by simp [start, Caller.closed]
  drained := by simp [start]
  alive := by simp [start]

theorem all_done_of_count {ws : List (Worker ι ρ ε)} (h : ws.length ≤ ws.countP Worker.isDone) :
    ∀ w ∈ ws, w.isDone = true :=
  List.countP_eq_length.mp (Nat.le_antisymm List.countP_le_length h)

namespace Accounted

variable {before after : List (Worker ι ρ ε)} {w : Worker ι ρ ε}

/-- While a worker is not done, the channel of the results is open. -/
theorem not_closed (hI : Accounted reqs s) (hs : s.workers = before ++ w :: after)
    (hw : w.isDone = false) : ¬ s.caller.closed = true := by
  intro hc
  have hDone := hI.joined hc w (by simp [hs])
  rw [hw] at hDone
  cases hDone

/-- A call takes its request from the worker and leaves the result there. -/
theorem call {req : ι} {res : ρ} {err : Option ε} (hI : Accounted reqs s)
    (hs : s.workers = before ++ .calling req :: after) :
    Accounted reqs { s with
      workers := before ++ .sending res err :: after
      answered := s.answered ++ [(req, res)] } := by
  have hOpen := hI.not_closed hs rfl
  have hreq := hI.requests
  have hRes := hI.results
  have hRep := hI.reports
  rw [hs] at hreq hRes hRep
  constructor
  · refine List.Perm.trans ?_ hreq
    simp only [List.map_append, List.map_cons, List.map_nil, List.flatMap_append,
      List.flatMap_cons, Worker.pending, List.nil_append, List.append_assoc, List.cons_append]
    exact List.Perm.append_left _ List.perm_middle.symm
  · simp only [List.flatMap_append, List.flatMap_cons, Worker.unsent, List.nil_append,
      List.map_append, List.map_cons, List.map_nil] at hRes ⊢
    refine List.Perm.trans ?_ (hRes.append_right [res])
    simp only [List.append_assoc]
    repeat apply List.Perm.append_left
    exact List.perm_append_comm
  · simpa [Worker.isDone] using hRep
  · exact fun hc => absurd hc hOpen
  · exact hI.drained
  · exact hI.alive

/-- A result moves from its worker into the channel. -/
theorem send {res : ρ} {err : Option ε} (hI : Accounted reqs s)
    (hs : s.workers = before ++ .sending res err :: after) :
    Accounted reqs { s with
      workers := before ++ .reporting err :: after
      results := s.results ++ [res] } := by
  have hOpen := hI.not_closed hs rfl
  have hreq := hI.requests
  have hRes := hI.results
  have hRep := hI.reports
  rw [hs] at hreq hRes hRep
  constructor
  · simpa [Worker.pending] using hreq
  · refine List.Perm.trans ?_ hRes
    simp only [List.flatMap_append, List.flatMap_cons, Worker.unsent, List.nil_append,
      List.append_assoc, List.cons_append]
    repeat apply List.Perm.append_left
    exact List.perm_middle.symm
  · simpa [Worker.isDone] using hRep
  · exact fun hc => absurd hc hOpen
  · intro got (hc : s.caller = .returned (.ok got))
    exact absurd (by rw [hc]; rfl) hOpen
  · exact hI.alive

/-- A report makes one more worker done. -/
theorem report {err : Option ε} (hI : Accounted reqs s)
    (hs : s.workers = before ++ .reporting err :: after) :
    Accounted reqs { s with
      workers := before ++ .done :: after
      errors := s.errors ++ [err] } := by
  have hOpen := hI.not_closed hs rfl
  have hreq := hI.requests
  have hRes := hI.results
  have hRep := hI.reports
  rw [hs] at hreq hRes hRep
  constructor
  · simpa [Worker.pending] using hreq
  · simpa [Worker.unsent] using hRes
  · intro received hc
    have hCount := hRep received hc
    simp only [List.countP_append, List.countP_cons, Worker.isDone, List.length_append,
      List.length_cons, List.length_nil] at hCount ⊢
    simp at hCount ⊢
    omega
  · exact fun hc => absurd hc hOpen
  · exact hI.drained
  · exact hI.alive

theorem stepped {action : Action ρ ε} (hI : Accounted reqs s) (h : Stepped s action s') :
    Accounted reqs s' := by
  cases h with
  | call hs => exact hI.call hs
  | send hs => exact hI.send hs
  | crash hs hClosed => exact absurd hClosed (hI.not_closed hs rfl)
  | report hs => exact hI.report hs
  | @receive received errors hc he =>
      have hRes := hI.results
      have hRep := hI.reports received hc
      rw [hc] at hRes
      refine ⟨hI.requests, hRes, ?_, by simp [Caller.closed], by simp, by simp⟩
      intro received' hr
      cases hr
      rw [he] at hRep
      simp at hRep ⊢
      omega
  | @giveUp received err errors hc he =>
      have hRes := hI.results
      rw [hc] at hRes
      exact ⟨hI.requests, hRes, by simp, by simp [Caller.closed], by simp, by simp⟩
  | @close received hc hr =>
      have hRes := hI.results
      have hRep := hI.reports received hc
      rw [hc] at hRes
      refine ⟨hI.requests, hRes, by simp, ?_, by simp, by simp⟩
      have hCount : s.workers.length ≤ s.workers.countP Worker.isDone := by omega
      exact fun _ => all_done_of_count hCount
  | @drain got res results hc hr =>
      have hRes := hI.results
      have hJoin := hI.joined (by simp [hc, Caller.closed])
      rw [hc, hr] at hRes
      refine ⟨hI.requests, ?_, by simp, fun _ => hJoin, by simp, by simp⟩
      simpa [Caller.got] using hRes
  | @finish got hc hr =>
      have hRes := hI.results
      have hJoin := hI.joined (by simp [hc, Caller.closed])
      rw [hc] at hRes
      exact ⟨hI.requests, hRes, by simp, fun _ => hJoin, fun _ _ => hr, by simp⟩

end Accounted

/-- An action of a run in which every call succeeds. -/
def Action.Succeeds : Action ρ ε → Prop
  | .call _ _ err => err = none
  | _ => True

/-- No error is under way. -/
structure Clean (s : State ι ρ ε) : Prop where
  workers : ∀ w ∈ s.workers, w.error = none
  errors : ∀ err ∈ s.errors, err = none
  caller : ∀ err, s.caller ≠ .returned (.error err)

theorem clean_start (reqs : List ι) : Clean (start reqs : State ι ρ ε) where
  workers := by simp [start, Worker.error]
  errors := by simp [start]
  caller := by simp [start]

theorem Clean.stepped {action : Action ρ ε} (hA : action.Succeeds) (hC : Clean s)
    (h : Stepped s action s') : Clean s' := by
  -- exchanging one worker for another without an error
  have hSet : ∀ {before after : List (Worker ι ρ ε)} {w w' : Worker ι ρ ε},
      s.workers = before ++ w :: after → w'.error = none →
        ∀ x ∈ before ++ w' :: after, x.error = none := by
    intro before after w w' hs hw x hx
    rcases List.mem_append.mp hx with hx | hx
    · exact hC.workers x (by simp [hs, hx])
    · rcases List.mem_cons.mp hx with rfl | hx
      · exact hw
      · exact hC.workers x (by simp [hs, hx])
  cases h with
  | call hs => exact ⟨hSet hs hA, hC.errors, hC.caller⟩
  | @send i res err before after hs hOpen =>
      have hErr : err = none := hC.workers (.sending res err) (by simp [hs])
      exact ⟨hSet hs hErr, hC.errors, hC.caller⟩
  | crash hs hClosed => exact ⟨by simp, hC.errors, by simp⟩
  | @report i err before after hs =>
      have hErr : err = none := hC.workers (.reporting err) (by simp [hs])
      refine ⟨hSet hs rfl, ?_, hC.caller⟩
      intro e he
      rcases List.mem_append.mp he with he | he
      · exact hC.errors e he
      · rw [List.mem_singleton.mp he, hErr]
  | receive hc he =>
      exact ⟨hC.workers, fun e hm => hC.errors e (by simp [he, hm]), by simp⟩
  | @giveUp received err errors hc he =>
      have hNone := hC.errors (some err) (by simp [he])
      cases hNone
  | close hc hr => exact ⟨hC.workers, hC.errors, by simp⟩
  | drain hc hr => exact ⟨hC.workers, hC.errors, by simp⟩
  | finish hc hr => exact ⟨hC.workers, hC.errors, by simp⟩

end Invariant

section Progress

variable {s s' : State ι ρ ε} {reqs : List ι}

def Caller.weight : Caller ρ ε → Nat
  | .waiting _ => 2
  | .draining _ => 1
  | .returned _ => 0
  | .panicked => 0

/-- How many steps can still be made. -/
def State.weight (s : State ι ρ ε) : Nat :=
  (s.workers.map Worker.weight).sum + s.errors.length + s.results.length + s.caller.weight

theorem Stepped.weight_lt {action : Action ρ ε} (h : Stepped s action s') :
    s'.weight < s.weight := by
  cases h with
  | call hs => simp [State.weight, hs, Worker.weight]
  | send hs hOpen =>
      simp [State.weight, hs, Worker.weight]
      omega
  | crash hs hClosed =>
      simp [State.weight, hs, Worker.weight, Caller.weight]
      omega
  | report hs =>
      simp [State.weight, hs, Worker.weight]
      omega
  | receive hc he => simp [State.weight, hc, he, Caller.weight]
  | giveUp hc he =>
      simp [State.weight, hc, he, Caller.weight]
      omega
  | close hc hr => simp [State.weight, hc, Caller.weight]
  | drain hc hr => simp [State.weight, hc, hr, Caller.weight]
  | finish hc hr => simp [State.weight, hc, hr, Caller.weight]

/-- Every run is finite. -/
theorem exec_length_le {actions : List (Action ρ ε)} (h : exec s actions = some s') :
    actions.length + s'.weight ≤ s.weight := by
  induction actions generalizing s with
  | nil =>
      cases h
      simp
  | cons action actions ih =>
      rw [exec, List.foldlM_cons] at h
      obtain ⟨mid, hMid, hRest⟩ := Option.bind_eq_some_iff.mp h
      have hLt := (stepped_of_step hMid).weight_lt
      have := ih hRest
      rw [List.length_cons]
      omega

/-- A worker that is not done can make its next step. -/
theorem exists_worker_step [Inhabited ρ] (hOpen : s.caller.closed = false) {w : Worker ι ρ ε}
    (hw : w ∈ s.workers) (hDone : w.isDone = false) :
    ∃ action, Action.Succeeds action ∧ (step s action).isSome := by
  obtain ⟨i, hi⟩ := List.mem_iff_getElem?.mp hw
  cases w with
  | calling req => exact ⟨.call i default none, rfl, by simp [step, hi]⟩
  | sending res err => exact ⟨.send i, trivial, by simp [step, hi, hOpen]⟩
  | reporting err => exact ⟨.report i, trivial, by simp [step, hi]⟩
  | done => cases hDone

/-- While the caller has not returned, some step is possible. -/
theorem exists_step [Inhabited ρ] (hI : Accounted reqs s) (hC : Clean s) :
    (∃ result, s.caller = .returned result) ∨
      ∃ action, Action.Succeeds action ∧ (step s action).isSome := by
  cases hCaller : s.caller with
  | panicked => exact absurd hCaller hI.alive
  | returned result => exact .inl ⟨result, rfl⟩
  | draining got =>
      right
      cases hRes : s.results with
      | nil => exact ⟨.drain, trivial, by simp [step, hCaller, hRes]⟩
      | cons res results => exact ⟨.drain, trivial, by simp [step, hCaller, hRes]⟩
  | waiting received =>
      right
      by_cases hLt : received < s.workers.length
      · cases hErr : s.errors with
        | cons err errors =>
            have hNone : err = none := hC.errors err (by simp [hErr])
            subst hNone
            exact ⟨.receive, trivial, by simp [step, hCaller, hErr, hLt]⟩
        | nil =>
            -- fewer workers than all are done: one of the others can go on
            have hRep := hI.reports received hCaller
            rw [hErr, List.length_nil, Nat.add_zero] at hRep
            have hNot : ¬ ∀ w ∈ s.workers, w.isDone = true := by
              rw [← List.countP_eq_length]
              omega
            push Not at hNot
            obtain ⟨w, hw, hDone⟩ := hNot
            exact exists_worker_step (by simp [hCaller, Caller.closed]) hw (by simpa using hDone)
      · exact ⟨.close, trivial, by simp [step, hCaller, hLt]⟩

end Progress

section Complete

variable {s : State ι ρ ε} {reqs : List ι} {actions : List (Action ρ ε)}

theorem Accounted.of_exec (h : exec (start reqs) actions = some s) : Accounted reqs s :=
  exec_keeps (Q := fun _ => True) (fun _ hs h => hs.stepped h) (fun _ _ => trivial)
    (accounted_start reqs) h

theorem Clean.of_exec (hA : ∀ action ∈ actions, action.Succeeds)
    (h : exec (start reqs) actions = some s) : Clean s :=
  exec_keeps (fun hA hs h => hs.stepped hA h) hA (clean_start reqs) h

theorem flatMap_eq_nil_of_done {α : Type} {ws : List (Worker ι ρ ε)} {f : Worker ι ρ ε → List α}
    (hf : f .done = []) (h : ∀ w ∈ ws, w.isDone = true) : ws.flatMap f = [] := by
  rw [List.flatMap_eq_nil_iff]
  intro w hw
  cases w with
  | done => exact hf
  | _ => cases h _ hw

/-- When the caller returns results, every request was made once and the results
are those of the calls. -/
theorem Accounted.returned {got : List ρ} (hI : Accounted reqs s)
    (h : s.caller = .returned (.ok got)) :
    got.Perm (s.answered.map Prod.snd) ∧ (s.answered.map Prod.fst).Perm reqs := by
  have hDone := hI.joined (by simp [h, Caller.closed])
  have hRes := hI.results
  have hreq := hI.requests
  rw [h, hI.drained got h, flatMap_eq_nil_of_done rfl hDone] at hRes
  rw [flatMap_eq_nil_of_done rfl hDone, List.append_nil] at hreq
  exact ⟨by simpa [Caller.got] using hRes, hreq⟩

/-- No call is made that was not asked for. -/
theorem answered_subperm (h : exec (start reqs) actions = some s) :
    (s.answered.map Prod.fst).Subperm reqs := by
  have hreq := (Accounted.of_exec h).requests
  exact (List.sublist_append_left _ _).subperm.trans hreq.subperm

/-- A run in which no call fails: it is bounded, the caller returns all results
of the calls if it returns, and as long as it has not returned the run can go on. -/
theorem exec_complete [Inhabited ρ] (hA : ∀ action ∈ actions, action.Succeeds)
    (h : exec (start reqs) actions = some s) :
    actions.length ≤ 5 * reqs.length + 2 ∧
      (∀ result, s.caller = .returned result → ∃ got, result = .ok got ∧
        got.Perm (s.answered.map Prod.snd) ∧ (s.answered.map Prod.fst).Perm reqs) ∧
      ((∃ result, s.caller = .returned result) ∨
        ∃ action, Action.Succeeds action ∧ (step s action).isSome) := by
  have hI := Accounted.of_exec h
  have hC := Clean.of_exec hA h
  have hLen := exec_length_le h
  have hWeight : (start reqs : State ι ρ ε).weight = 5 * reqs.length + 2 := by
    simp [State.weight, start, Function.comp_def, Worker.weight, Caller.weight, Nat.mul_comm]
  refine ⟨by omega, ?_, exists_step hI hC⟩
  intro result hResult
  cases result with
  | ok got => exact ⟨got, rfl, hI.returned hResult⟩
  | error err => exact absurd hResult (hC.caller err)

end Complete

end Gather
