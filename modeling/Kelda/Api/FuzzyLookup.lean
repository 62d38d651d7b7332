import Kelda.DB.Rows
import Kelda.Lib.StringMap

/-! The lookup of a machine or a container by a name that a user gives. A name
may be the hostname of a container, the start of its blueprint ID or the start
of the cloud ID of a machine. -/
namespace Kelda.Api

open DB StringKeyed

/-- One of the rows that a name can denote. -/
inductive Target where
  | machine (m : Machine)
  | container (c : Container)
deriving DecidableEq

/-- The answers of the two queries. -/
structure Client where
  queryMachines : Except String (List Machine)
  queryContainers : Except String (List Container)

/-- `full` is at least as long as `id`, and begins with it. -/
def startsWith (id full : String) : Bool := id.toList.isPrefixOf full.toList

section Functions

-- the verb %q of a format
variable (quoted : String → String)

/-- One step of the search for the only element whose ID starts with `id`. -/
def choose {α : Type} (key : α → String) (ambiguous : String → String → String) (id : String)
    (choice : Option α) (x : α) : Except String (Option α) :=
  if startsWith id (key x) then
    match choice with
    | some y => .error (ambiguous (key y) (key x))
    | none => .ok (some x)
  else .ok choice

def findMachine (machines : List Machine) (id : String) : Except String Machine := do
  let ambiguous := fun first second =>
    "ambiguous machines " ++ quoted first ++ " and " ++ quoted second
  match ← machines.foldlM (choose Machine.cloudID ambiguous id) none with
  | none => .error ("no machine " ++ quoted id)
  | some m => .ok m

/-- The containers are also collected by their hostnames. -/
def chooseContainer (id : String) (st : Option Container × StringMap Container) (c : Container) :
    Except String (Option Container × StringMap Container) := do
  let ambiguous := fun first second => "ambiguous choices " ++ first ++ " and " ++ second
  let choice ← choose Container.blueprintID ambiguous id st.1 c
  pure (choice, st.2.insert c.hostname c)

/-- The hostnames count only if no ID starts with the given one. -/
def findContainer (containers : List Container) (id : String) : Except String Container := do
  match ← containers.foldlM (chooseContainer id) (none, ∅) with
  | (some c, _) => .ok c
  | (none, hostnameToContainer) =>
    match hostnameToContainer.lookup id with
    | some c => .ok c
    | none => .error ("no container " ++ quoted id)

/-- An error of one search is dropped if the other one succeeds. -/
def fuzzyLookup (client : Client) (name : String) : Except String Target :=
  let machine := client.queryMachines.bind (fun machines => findMachine quoted machines name)
  let container := client.queryContainers.bind (fun containers =>
    findContainer quoted containers name)
  match machine, container with
  | .error machineError, .error containerError => .error (machineError ++ ", " ++ containerError)
  | .ok machine, .ok container =>
    .error ("ambiguous IDs: machine " ++ quoted machine.cloudID ++ ", container " ++
      quoted container.blueprintID)
  | .ok machine, .error _ => .ok (.machine machine)
  | .error _, .ok container => .ok (.container container)

end Functions

section Searches

variable {α : Type} {key : α → String} {ambiguous : String → String → String} {id : String}

/-- The elements whose ID starts with the given one. -/
def named (key : α → String) (id : String) (xs : List α) : List α :=
  xs.filter (fun x => startsWith id (key x))

theorem mem_named {x : α} {xs : List α} :
    x ∈ named key id xs ↔ x ∈ xs ∧ startsWith id (key x) = true := List.mem_filter

theorem foldlM_choose_some (xs : List α) (y : α) (choice : Option α) :
    xs.foldlM (choose key ambiguous id) (some y) = .ok choice ↔
      named key id xs = [] ∧ choice = some y := by
  induction xs with
  | nil => simpa [named, pure, Except.pure] using eq_comm
  | cons x xs ih =>
      rw [List.foldlM_cons, choose, named, List.filter_cons]
      cases startsWith id (key x) with
      | true =>
          constructor
          · intro h
            cases h
          · intro h
            simp at h
      | false => exact ih

/-- The search succeeds if at most one element is named. -/
theorem foldlM_choose_none (key : α → String) (ambiguous : String → String → String)
    (id : String) (xs : List α) (choice : Option α) :
    xs.foldlM (choose key ambiguous id) none = .ok choice ↔
      named key id xs = choice.toList := by
  induction xs with
  | nil => cases choice <;> simp [named, pure, Except.pure]
  | cons x xs ih =>
      rw [List.foldlM_cons, choose, named, List.filter_cons]
      cases startsWith id (key x) with
      | false => exact ih
      | true =>
          refine (foldlM_choose_some xs x choice).trans ?_
          cases choice with
          | none => simp
          | some y =>
              rw [Option.some.injEq, Option.toList_some, if_pos rfl, List.cons.injEq,
                and_comm, eq_comm (a := y)]
              rfl

/-- The two parts of the state of the loop do not depend on each other. -/
theorem foldlM_chooseContainer (containers : List Container) (choice : Option Container)
    (hosts : StringMap Container) :
    containers.foldlM (chooseContainer id) (choice, hosts) =
      (containers.foldlM (choose Container.blueprintID
        (fun first second => "ambiguous choices " ++ first ++ " and " ++ second) id) choice).map
        (fun choice => (choice, containers.foldl (fun m c => m.insert c.hostname c) hosts)) := by
  induction containers generalizing choice hosts with
  | nil => rfl
  | cons c containers ih =>
      rw [List.foldlM_cons, List.foldlM_cons, List.foldl_cons, chooseContainer]
      cases choose Container.blueprintID _ id choice c with
      | error err => rfl
      | ok choice' => exact ih choice' _

end Searches

section Spec

variable {quoted : String → String} {machines : List Machine} {containers : List Container}
  {name : String}

theorem findMachine_eq_ok_iff {m : Machine} :
    findMachine quoted machines name = .ok m ↔ named Machine.cloudID name machines = [m] := by
  rw [findMachine]
  generalize hAmbiguous : (fun first second : String =>
    "ambiguous machines " ++ quoted first ++ " and " ++ quoted second) = ambiguous
  have hFold := foldlM_choose_none Machine.cloudID ambiguous name machines
  cases hRun : machines.foldlM (choose Machine.cloudID ambiguous name) none with
  | error err =>
      constructor
      · intro h
        cases h
      · intro h
        rw [(hFold (some m)).mpr h] at hRun
        cases hRun
  | ok choice =>
      rw [(hFold choice).mp hRun]
      cases choice with
      | none => simp [bind, Except.bind]
      | some m' => simp [bind, Except.bind]

theorem findContainer_eq_ok_iff (quoted : String → String)
    (hHosts : (containers.map Container.hostname).Nodup) {c : Container} :
    findContainer quoted containers name = .ok c ↔
      named Container.blueprintID name containers = [c] ∨
        named Container.blueprintID name containers = [] ∧ c ∈ containers ∧ c.hostname = name := by
  have hHost : ∀ c, (containers.foldl (fun m c => m.insert c.hostname c)
      (∅ : StringMap Container)).lookup name = some c ↔ c ∈ containers ∧ c.hostname = name := by
    intro c
    refine (lookup_foldl_insert hHosts).trans ⟨?_, fun h => ⟨c, h.1, h.2, rfl⟩⟩
    rintro ⟨c', hc', hName, rfl⟩
    exact ⟨hc', hName⟩
  rw [findContainer, foldlM_chooseContainer]
  generalize (fun first second : String =>
    "ambiguous choices " ++ first ++ " and " ++ second) = ambiguous
  generalize containers.foldl (fun m c => m.insert c.hostname c) (∅ : StringMap Container) = hosts
    at hHost
  have hFold := foldlM_choose_none Container.blueprintID ambiguous name containers
  cases hRun : containers.foldlM (choose Container.blueprintID ambiguous name) none with
  | error err =>
      constructor
      · intro h
        cases h
      · rintro (h | h)
        · rw [(hFold (some c)).mpr h] at hRun
          cases hRun
        · rw [(hFold none).mpr h.1] at hRun
          cases hRun
  | ok choice =>
      rw [(hFold choice).mp hRun, ← hHost c]
      cases choice with
      | some c' => simp [bind, Except.bind, Except.map]
      | none =>
          simp only [bind, Except.bind, Except.map]
          cases hosts.lookup name <;> simp

theorem fuzzyLookup_eq_machine_iff {m : Machine} :
    fuzzyLookup quoted ⟨.ok machines, .ok containers⟩ name = .ok (.machine m) ↔
      findMachine quoted machines name = .ok m ∧
        ∀ c, findContainer quoted containers name ≠ .ok c := by
  simp only [fuzzyLookup, Except.bind]
  cases findMachine quoted machines name <;> cases findContainer quoted containers name <;> simp

theorem fuzzyLookup_eq_container_iff {c : Container} :
    fuzzyLookup quoted ⟨.ok machines, .ok containers⟩ name = .ok (.container c) ↔
      findContainer quoted containers name = .ok c ∧
        ∀ m, findMachine quoted machines name ≠ .ok m := by
  simp only [fuzzyLookup, Except.bind]
  cases findMachine quoted machines name <;> cases findContainer quoted containers name <;> simp

/-- Everything that a name could denote. -/
def targets (machines : List Machine) (containers : List Container) : List Target :=
  machines.map .machine ++ containers.map .container

/-- The documented ways to name a machine or a container. -/
def Denotes (name : String) : Target → Prop
  | .machine m => startsWith name m.cloudID
  | .container c => c.hostname = name ∨ startsWith name c.blueprintID

/-- The answer is the only target with the name, and an ambiguous name has no
answer but an error. -/
structure Unambiguous (quoted : String → String) (machines : List Machine)
    (containers : List Container) (name : String) : Prop where
  only : ∀ target, fuzzyLookup quoted ⟨.ok machines, .ok containers⟩ name = .ok target →
    target ∈ targets machines containers ∧ Denotes name target ∧
      ∀ other ∈ targets machines containers, Denotes name other → other = target
  ambiguous : ∀ first ∈ targets machines containers, ∀ second ∈ targets machines containers,
    first ≠ second → Denotes name first → Denotes name second →
      ∃ err, fuzzyLookup quoted ⟨.ok machines, .ok containers⟩ name = .error err

/-- No error that is dropped tells of a second target, and no hostname stands
behind the ID of another container. -/
structure Clear (machines : List Machine) (containers : List Container) (name : String) : Prop where
  machine : (named Machine.cloudID name machines).length = 1 →
    (named Container.blueprintID name containers).length ≤ 1
  container : 2 ≤ (named Machine.cloudID name machines).length →
    (named Container.blueprintID name containers).length ≠ 1 ∧
      (named Container.blueprintID name containers = [] →
        name ∉ containers.map Container.hostname)
  hostname : named Machine.cloudID name machines = [] →
    ∀ c, named Container.blueprintID name containers = [c] →
      ∀ other ∈ containers, other.hostname = name → other = c

theorem machine_mem_targets {m : Machine} :
    .machine m ∈ targets machines containers ↔ m ∈ machines := by
  simp [targets]

theorem container_mem_targets {c : Container} :
    .container c ∈ targets machines containers ↔ c ∈ containers := by
  simp [targets]

theorem Unambiguous.of_only (h : ∀ target,
    fuzzyLookup quoted ⟨.ok machines, .ok containers⟩ name = .ok target →
      target ∈ targets machines containers ∧ Denotes name target ∧
        ∀ other ∈ targets machines containers, Denotes name other → other = target) :
    Unambiguous quoted machines containers name := by
  refine ⟨h, ?_⟩
  intro first hFirst second hSecond hNe hDenotes hDenotes'
  cases hLookup : fuzzyLookup quoted ⟨.ok machines, .ok containers⟩ name with
  | error err => exact ⟨err, rfl⟩
  | ok target =>
      obtain ⟨-, -, hOnly⟩ := h target hLookup
      exact absurd ((hOnly first hFirst hDenotes).trans (hOnly second hSecond hDenotes').symm) hNe

/-- A machine is the answer. -/
theorem Clear.only_machine (h : Clear machines containers name)
    (hHosts : (containers.map Container.hostname).Nodup) {m : Machine}
    (hMachine : named Machine.cloudID name machines = [m])
    (hContainer : ∀ c, findContainer quoted containers name ≠ .ok c) :
    ∀ other ∈ targets machines containers, Denotes name other → other = .machine m := by
  have hFound := fun c => (findContainer_eq_ok_iff quoted hHosts (c := c)).not.mp
    (hContainer c)
  -- at most one ID of a container starts with the name, and one would be the answer
  have hNone : named Container.blueprintID name containers = [] := by
    have hLength := h.machine (by rw [hMachine]; rfl)
    match hNamed : named Container.blueprintID name containers with
    | [] => rfl
    | [c] => exact absurd (Or.inl hNamed) (hFound c)
    | c :: c' :: cs =>
        rw [hNamed] at hLength
        simp at hLength
  intro other hOther hDenotes
  cases other with
  | machine m' =>
      have hMem : m' ∈ named Machine.cloudID name machines :=
        mem_named.mpr ⟨machine_mem_targets.mp hOther, hDenotes⟩
      rw [hMachine, List.mem_singleton] at hMem
      rw [hMem]
  | container c =>
      have hc := container_mem_targets.mp hOther
      rcases hDenotes with hHost | hID
      · exact absurd (Or.inr ⟨hNone, hc, hHost⟩) (hFound c)
      · have hMem := mem_named.mpr ⟨hc, hID⟩
        rw [hNone] at hMem
        cases hMem

/-- A container is the answer. -/
theorem Clear.only_container (h : Clear machines containers name)
    (hHosts : (containers.map Container.hostname).Nodup) {c : Container}
    (hContainer : findContainer quoted containers name = .ok c)
    (hMachine : ∀ m, findMachine quoted machines name ≠ .ok m) :
    ∀ other ∈ targets machines containers, Denotes name other → other = .container c := by
  rw [findContainer_eq_ok_iff _ hHosts] at hContainer
  have hNone : named Machine.cloudID name machines = [] := by
    match hNamed : named Machine.cloudID name machines with
    | [] => rfl
    | [m] => exact absurd (findMachine_eq_ok_iff.mpr hNamed) (hMachine m)
    | m :: m' :: ms =>
        obtain ⟨hOne, hHostname⟩ := h.container (by rw [hNamed]; simp)
        rcases hContainer with hID | ⟨hNil, hc, hHost⟩
        · exact absurd (by rw [hID]; rfl) hOne
        · exact absurd (hHost ▸ List.mem_map_of_mem hc) (hHostname hNil)
  intro other hOther hDenotes
  cases other with
  | machine m =>
      have hMem := mem_named.mpr ⟨machine_mem_targets.mp hOther, hDenotes⟩
      rw [hNone] at hMem
      cases hMem
  | container c' =>
      have hc' := container_mem_targets.mp hOther
      refine congrArg Target.container ?_
      rcases hContainer with hID | ⟨hNil, hc, hHost⟩
      · rcases hDenotes with hHost' | hID'
        · exact h.hostname hNone c hID c' hc' hHost'
        · have hMem := mem_named.mpr ⟨hc', hID'⟩
          rwa [hID, List.mem_singleton] at hMem
      · rcases hDenotes with hHost' | hID'
        · exact List.inj_on_of_nodup_map hHosts hc' hc (hHost'.trans hHost.symm)
        · have hMem := mem_named.mpr ⟨hc', hID'⟩
          rw [hNil] at hMem
          cases hMem

theorem Clear.unambiguous (h : Clear machines containers name)
    (hHosts : (containers.map Container.hostname).Nodup) :
    Unambiguous quoted machines containers name := by
  apply Unambiguous.of_only
  intro target hLookup
  cases target with
  | machine m =>
      obtain ⟨hMachine, hContainer⟩ := fuzzyLookup_eq_machine_iff.mp hLookup
      have hNamed := findMachine_eq_ok_iff.mp hMachine
      have hMem : m ∈ named Machine.cloudID name machines := by rw [hNamed]; simp
      obtain ⟨hm, hID⟩ := mem_named.mp hMem
      exact ⟨machine_mem_targets.mpr hm, hID, h.only_machine hHosts hNamed hContainer⟩
  | container c =>
      obtain ⟨hContainer, hMachine⟩ := fuzzyLookup_eq_container_iff.mp hLookup
      have hFound : c ∈ containers ∧ Denotes name (.container c) := by
        rcases (findContainer_eq_ok_iff _ hHosts).mp hContainer with hNamed | ⟨-, hc, hHost⟩
        · have hMem : c ∈ named Container.blueprintID name containers := by rw [hNamed]; simp
          exact (mem_named.mp hMem).imp_right Or.inr
        · exact ⟨hc, Or.inl hHost⟩
      exact ⟨container_mem_targets.mpr hFound.1, hFound.2,
        h.only_container hHosts hContainer hMachine⟩

/-- If two machines have the name, a container that is found is not the only target. -/
theorem Unambiguous.findContainer_ne_ok (h : Unambiguous quoted machines containers name)
    (hLength : 2 ≤ (named Machine.cloudID name machines).length) (c : Container) :
    findContainer quoted containers name ≠ .ok c := by
  intro hContainer
  match hMs : named Machine.cloudID name machines with
  | [] | [_] =>
      rw [hMs] at hLength
      simp at hLength
  | m :: m' :: ms =>
      have hm : m ∈ named Machine.cloudID name machines := by rw [hMs]; simp
      have hLookup := fuzzyLookup_eq_container_iff.mpr ⟨hContainer, fun m'' hm'' => by
        have hOne := findMachine_eq_ok_iff.mp hm''
        rw [hMs] at hOne
        simp at hOne⟩
      obtain ⟨-, -, hOnly⟩ := h.only _ hLookup
      obtain ⟨hm, hID⟩ := mem_named.mp hm
      cases hOnly (.machine m) (machine_mem_targets.mpr hm) hID

/-- Each of the three exceptions has an answer that is not the only target. -/
theorem Unambiguous.clear (h : Unambiguous quoted machines containers name)
    (hHosts : (containers.map Container.hostname).Nodup) : Clear machines containers name := by
  have hNamed : ∀ {c}, c ∈ named Container.blueprintID name containers →
      .container c ∈ targets machines containers ∧ Denotes name (.container c) := by
    intro c hc
    exact (mem_named.mp hc).imp container_mem_targets.mpr Or.inr
  constructor
  · intro hLength
    by_contra hTwo
    obtain ⟨m, hMs⟩ := List.length_eq_one_iff.mp hLength
    match hCs : named Container.blueprintID name containers with
    | [] | [_] =>
        rw [hCs] at hTwo
        simp at hTwo
    | c :: c' :: cs =>
        have hLookup := fuzzyLookup_eq_machine_iff.mpr
          ⟨findMachine_eq_ok_iff.mpr hMs, fun c'' hc'' => by
            have hFound := (findContainer_eq_ok_iff quoted hHosts).mp hc''
            rw [hCs] at hFound
            simp at hFound⟩
        obtain ⟨-, -, hOnly⟩ := h.only _ hLookup
        obtain ⟨hc, hDenotes⟩ := hNamed (c := c) (by rw [hCs]; simp)
        cases hOnly _ hc hDenotes
  · intro hLength
    constructor
    · intro hOne
      obtain ⟨c, hCs⟩ := List.length_eq_one_iff.mp hOne
      exact h.findContainer_ne_ok hLength c ((findContainer_eq_ok_iff _ hHosts).mpr (Or.inl hCs))
    · intro hNil hMem
      obtain ⟨c, hc, hHost⟩ := List.mem_map.mp hMem
      exact h.findContainer_ne_ok hLength c
        ((findContainer_eq_ok_iff _ hHosts).mpr (Or.inr ⟨hNil, hc, hHost⟩))
  · intro hNil c hCs other hOther hHost
    have hLookup := fuzzyLookup_eq_container_iff.mpr
      ⟨(findContainer_eq_ok_iff quoted hHosts).mpr (Or.inl hCs), fun m hm => by
        have hOne := findMachine_eq_ok_iff.mp hm
        rw [hNil] at hOne
        cases hOne⟩
    obtain ⟨-, -, hOnly⟩ := h.only _ hLookup
    exact Target.container.inj
      (hOnly (.container other) (container_mem_targets.mpr hOther) (Or.inl hHost))

/-- The distinct hostnames are what the result of the lookup rests on; distinct
IDs are not needed. -/
theorem fuzzyLookup_unambiguous_iff (hHosts : (containers.map Container.hostname).Nodup) :
    Unambiguous quoted machines containers name ↔ Clear machines containers name :=
  ⟨fun h => h.clear hHosts, fun h => h.unambiguous hHosts⟩

end Spec

/-- The hostname of the first container is the start of the ID of the second. -/
def lookupContainers : List Container :=
  [{ id := 1, hostname := "ab", blueprintID := "c1" },
    { id := 2, hostname := "web", blueprintID := "abc" }]

theorem fuzzyLookup_unambiguous_web :
    (lookupContainers.map Container.hostname).Nodup ∧
      Unambiguous (fun s => s) [{ id := 3, cloudID := "i-1" }] lookupContainers "web" := by
  refine ⟨by decide, (fuzzyLookup_unambiguous_iff (by decide)).mpr ⟨?_, ?_, ?_⟩⟩
  · decide
  · decide
  · intro _ c hNamed
    have hNil : named Container.blueprintID "web" lookupContainers = [] := by decide +kernel
    rw [hNil] at hNamed
    cases hNamed

/-- The container with the hostname is not the one that is found. -/
theorem hostname_shadowed_by_id :
    (lookupContainers.map Container.hostname).Nodup ∧
      (lookupContainers.map Container.blueprintID).Nodup ∧
      fuzzyLookup (fun s => s) ⟨.ok [], .ok lookupContainers⟩ "ab" =
        .ok (.container { id := 2, hostname := "web", blueprintID := "abc" }) ∧
      Denotes "ab" (.container { id := 1, hostname := "ab", blueprintID := "c1" }) ∧
      ¬Unambiguous (fun s => s) [] lookupContainers "ab" := by
  have hHosts : (lookupContainers.map Container.hostname).Nodup := by decide
  have hNamed : named Container.blueprintID "ab" lookupContainers =
      [{ id := 2, hostname := "web", blueprintID := "abc" }] := by decide +kernel
  have hLookup : fuzzyLookup (fun s => s) ⟨.ok [], .ok lookupContainers⟩ "ab" =
      .ok (.container { id := 2, hostname := "web", blueprintID := "abc" }) :=
    fuzzyLookup_eq_container_iff.mpr
      ⟨(findContainer_eq_ok_iff _ hHosts).mpr (Or.inl hNamed), fun m h => by cases h⟩
  have hDenotes : Denotes "ab" (.container { id := 1, hostname := "ab", blueprintID := "c1" }) :=
    Or.inl rfl
  refine ⟨hHosts, by decide, hLookup, hDenotes, fun h => ?_⟩
  have hMem : Target.container { id := 1, hostname := "ab", blueprintID := "c1" } ∈
      targets [] lookupContainers := container_mem_targets.mpr (by simp [lookupContainers])
  have hSame := (h.only _ hLookup).2.2 _ hMem hDenotes
  exact absurd (congrArg Container.id (Target.container.inj hSame)) (by decide)

end Kelda.Api
