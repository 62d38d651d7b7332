import Kelda.Cloud.FloatingIPs
import Kelda.Lib.Gather

/-! `Boot` of the provider DigitalOcean. Machines that differ in nothing the API
is told are counted together, each count is cut into requests of at most ten
droplets, and the requests are made at the same time, each by a goroutine. -/
namespace Kelda.DigitalOcean

open DB

structure BootRequest where
  size : String
  userData : String
deriving DecidableEq

/-- `godo.DropletMultiCreateRequest`, as far as `Boot` sets it. -/
structure DropletMultiCreateRequest where
  names : List String
  region : String
  size : String
  imageID : Int
  privateNetworking : Bool
  userData : String
  tags : List String

def imageID : Int := 21669205

section Requests

variable (ubuntu : Machine → String)

/-- The first loop of `Boot`; `ubuntu` is the text of `cfg.Ubuntu`. -/
def countMachines : List Machine → AList (fun _ : BootRequest => Nat) →
    Except String (AList (fun _ : BootRequest => Nat))
  | [], bootSet => pure bootSet
  | m :: machines, bootSet =>
    if m.preemptible then throw "preemptible instances are not implemented"
    else
      let br : BootRequest := ⟨m.size, ubuntu m⟩
      countMachines machines (bootSet.insert br ((bootSet.lookup br).getD 0 + 1))

/-- The loop `for count > 0`: the numbers of droplets of the requests. -/
def chunks (count : Nat) : List Nat :=
  if 0 < count then
    let n := if count > 10 then 10 else count
    n :: chunks (count - n)
  else []
termination_by count
decreasing_by split_ifs <;> omega

def createRequest (prvdr : Provider) (br : BootRequest) (n : Nat) :
    DropletMultiCreateRequest where
  names := List.replicate n "Kelda"
  region := prvdr.region
  size := br.size
  imageID := imageID
  privateNetworking := true
  userData := br.userData
  tags := [prvdr.getTag]

/-- The requests, in the order in which the map is walked. -/
def bootRequests (ord : MapOrder) (prvdr : Provider) (machines : List Machine) :
    Except String (List DropletMultiCreateRequest) := do
  let bootSet ← countMachines ubuntu machines ∅
  pure ((ord.walk bootSet.entries).flatMap (fun e => (chunks e.2).map (createRequest prvdr e.1)))

/-- The goroutines of `Boot`, the channels `dropChan` and `errChan`, and where
`Boot` itself stands. -/
abbrev BootState := Gather.State DropletMultiCreateRequest (List Droplet) String

/-- `Boot` up to the point where the goroutines are started. -/
def boot (ord : MapOrder) (prvdr : Provider) (machines : List Machine) :
    Except String BootState := do
  let reqs ← bootRequests ubuntu ord prvdr machines
  pure (Gather.start reqs)

/-- The IDs of the droplets, in the order in which they came over the channel. -/
def dropletIDs (got : List (List Droplet)) : List String :=
  got.flatMap (fun droplets => droplets.map (fun d => d.id.repr))

/-- What `Boot` returns, once it has returned. -/
def bootResult (s : BootState) : Option (Except String (List String)) :=
  match s.caller with
  | .returned result => some (result.map dropletIDs)
  | _ => none

end Requests

section Chunks

theorem chunks_zero : chunks 0 = [] := by
  rw [chunks]
  rfl

theorem chunks_pos {count : Nat} (h : 0 < count) :
    chunks count = min count 10 :: chunks (count - min count 10) := by
  have hMin : (if count > 10 then 10 else count) = min count 10 := by
    split_ifs <;> omega
  rw [chunks, if_pos h, hMin]

theorem mem_chunks {count n : Nat} (h : n ∈ chunks count) : 1 ≤ n ∧ n ≤ 10 := by
  induction count using Nat.strong_induction_on with
  | _ count ih =>
      rcases Nat.eq_zero_or_pos count with rfl | hPos
      · simp [chunks_zero] at h
      · rw [chunks_pos hPos] at h
        rcases List.mem_cons.mp h with rfl | h
        · omega
        · exact ih _ (by omega) h

theorem sum_chunks (count : Nat) : (chunks count).sum = count := by
  induction count using Nat.strong_induction_on with
  | _ count ih =>
      rcases Nat.eq_zero_or_pos count with rfl | hPos
      · simp [chunks_zero]
      · rw [chunks_pos hPos, List.sum_cons, ih _ (by omega)]
        omega

end Chunks

section Counts

variable {ubuntu : Machine → String}

/-- The machines that the API is told about in the same words. -/
def wanted (ubuntu : Machine → String) (br : BootRequest) (machines : List Machine) : Nat :=
  machines.countP (fun m => m.size = br.size ∧ ubuntu m = br.userData)

theorem countMachines_preemptible {machines : List Machine} (h : ∃ m ∈ machines, m.preemptible)
    (bootSet : AList (fun _ : BootRequest => Nat)) :
    countMachines ubuntu machines bootSet = .error "preemptible instances are not implemented" := by
  induction machines generalizing bootSet with
  | nil => simp at h
  | cons m machines ih =>
      rw [countMachines]
      split_ifs with hm
      · rfl
      · obtain ⟨x, hx, hp⟩ := h
        rcases List.mem_cons.mp hx with rfl | hx
        · exact absurd hp hm
        · exact ih ⟨x, hx, hp⟩ _

theorem countMachines_spec (ubuntu : Machine → String) {machines : List Machine}
    (h : ∀ m ∈ machines, m.preemptible = false) (bootSet : AList (fun _ : BootRequest => Nat)) :
    ∃ counted, countMachines ubuntu machines bootSet = .ok counted ∧
      ∀ br, (counted.lookup br).getD 0 =
        (bootSet.lookup br).getD 0 + wanted ubuntu br machines := by
  induction machines generalizing bootSet with
  | nil => exact ⟨bootSet, rfl, fun br => by simp [wanted]⟩
  | cons m machines ih =>
      have hm : m.preemptible = false := h m List.mem_cons_self
      obtain ⟨counted, hRun, hCount⟩ := ih (fun x hx => h x (List.mem_cons_of_mem _ hx))
        (bootSet.insert ⟨m.size, ubuntu m⟩ ((bootSet.lookup ⟨m.size, ubuntu m⟩).getD 0 + 1))
      refine ⟨counted, ?_, ?_⟩
      · rw [countMachines, hm]
        exact hRun
      · intro br
        rw [hCount br]
        by_cases hbr : br = ⟨m.size, ubuntu m⟩
        · subst hbr
          simp [wanted]
          omega
        · have hNe : ¬ (m.size = br.size ∧ ubuntu m = br.userData) := by
            rintro ⟨hs, hu⟩
            exact hbr (by rw [hs, hu])
          rw [AList.lookup_insert_ne hbr]
          simp [wanted, hNe]

/-- The droplets that the requests of one kind name. -/
def named (br : BootRequest) (reqs : List DropletMultiCreateRequest) : Nat :=
  ((reqs.filter (fun r => r.size = br.size ∧ r.userData = br.userData)).map
    (fun r => r.names.length)).sum

theorem named_perm {br : BootRequest} {reqs reqs' : List DropletMultiCreateRequest}
    (h : reqs.Perm reqs') : named br reqs = named br reqs' :=
  ((h.filter _).map _).sum_eq

theorem named_append (br : BootRequest) (reqs reqs' : List DropletMultiCreateRequest) :
    named br (reqs ++ reqs') = named br reqs + named br reqs' := by
  simp [named]

/-- The requests cut out of one count name that many droplets. -/
theorem named_createRequest (prvdr : Provider) (br br' : BootRequest) (count : Nat) :
    named br ((chunks count).map (createRequest prvdr br')) = if br' = br then count else 0 := by
  by_cases h : br' = br
  · subst h
    have hLen : ∀ l : List Nat, named br' (l.map (createRequest prvdr br')) = l.sum := by
      intro l
      simp [named, createRequest, List.filter_map, Function.comp_def]
    rw [hLen, sum_chunks, if_pos rfl]
  · have hNe : ¬ (br'.size = br.size ∧ br'.userData = br.userData) := by
      rintro ⟨hs, hu⟩
      cases br
      cases br'
      cases hs
      cases hu
      exact h rfl
    have hFilter : ∀ l : List Nat, (l.map (createRequest prvdr br')).filter
        (fun r => r.size = br.size ∧ r.userData = br.userData) = [] := by
      intro l
      rw [List.filter_eq_nil_iff]
      intro r hr
      obtain ⟨n, -, rfl⟩ := List.mem_map.mp hr
      exact fun hd => hNe (of_decide_eq_true hd)
    rw [named, hFilter, if_neg h]
    rfl

/-- Walking the entries of a map, the count of one key is met once. -/
theorem named_entries (prvdr : Provider) (br : BootRequest)
    (entries : List (Sigma fun _ : BootRequest => Nat)) (h : entries.NodupKeys) :
    named br (entries.flatMap (fun e => (chunks e.2).map (createRequest prvdr e.1))) =
      (entries.dlookup br).getD 0 := by
  induction entries with
  | nil => rfl
  | cons e entries ih =>
      rw [List.nodupKeys_cons] at h
      rw [List.flatMap_cons, named_append, named_createRequest, ih h.2]
      by_cases he : e.1 = br
      · have hNone : entries.dlookup br = none := by
          rw [List.dlookup_eq_none, ← he]
          exact h.1
        obtain ⟨br', n⟩ := e
        cases he
        simp [hNone]
      · rw [if_neg he, List.dlookup_cons_ne _ _ (fun h => he h.symm), Nat.zero_add]

/-- What `bootRequests` makes of machines none of which is preemptible. -/
theorem bootRequests_spec (ubuntu : Machine → String) (ord : MapOrder) (prvdr : Provider)
    {machines : List Machine} (h : ∀ m ∈ machines, m.preemptible = false) :
    ∃ reqs, bootRequests ubuntu ord prvdr machines = .ok reqs ∧
      (∀ r ∈ reqs, 1 ≤ r.names.length ∧ r.names.length ≤ 10) ∧
      ∀ br, named br reqs = wanted ubuntu br machines := by
  obtain ⟨counted, hRun, hCount⟩ := countMachines_spec ubuntu h ∅
  refine ⟨_, by rw [bootRequests, hRun]; rfl, ?_, ?_⟩
  · intro r hr
    obtain ⟨e, -, hr⟩ := List.mem_flatMap.mp hr
    obtain ⟨n, hn, rfl⟩ := List.mem_map.mp hr
    simpa [createRequest] using mem_chunks hn
  · intro br
    have hPerm := (ord.perm counted.entries).flatMap_right
      (fun e => (chunks e.2).map (createRequest prvdr e.1))
    have hLookup := hCount br
    rw [named_perm hPerm, named_entries prvdr br _ counted.nodupKeys]
    simpa [AList.lookup] using hLookup

end Counts

section Boot

/-- Every interleaving of the goroutines that carry out `reqs` makes no other
request, and closes no channel that is still needed. If no call fails, it ends
after a bounded number of steps, and the IDs that are returned are those of the
droplets in the answers. -/
def CreatesAll (reqs : List DropletMultiCreateRequest) : Prop :=
  ∀ (actions : List (Gather.Action (List Droplet) String)) (s : BootState),
    Gather.exec (Gather.start reqs) actions = some s →
      (s.answered.map Prod.fst).Subperm reqs ∧ s.caller ≠ .panicked ∧
      ((∀ action ∈ actions, action.Succeeds) →
        actions.length ≤ 5 * reqs.length + 2 ∧
        (∀ result, bootResult s = some result → ∃ ids, result = .ok ids ∧
          (s.answered.map Prod.fst).Perm reqs ∧
          ids.Perm ((s.answered.flatMap Prod.snd).map (fun droplet => droplet.id.repr))) ∧
        ((bootResult s).isSome ∨
          ∃ action, Gather.Action.Succeeds action ∧ (Gather.step s action).isSome))

theorem bootResult_eq_some {s : BootState} {result : Except String (List String)}
    (h : bootResult s = some result) :
    ∃ got, s.caller = .returned got ∧ result = got.map dropletIDs := by
  rw [bootResult] at h
  split at h
  · exact ⟨_, ‹_›, (Option.some.inj h).symm⟩
  · cases h

theorem dropletIDs_eq (answers : List (DropletMultiCreateRequest × List Droplet)) :
    dropletIDs (answers.map Prod.snd) =
      (answers.flatMap Prod.snd).map (fun droplet => droplet.id.repr) := by
  rw [dropletIDs, List.flatMap_map, List.map_flatMap]

theorem createsAll (reqs : List DropletMultiCreateRequest) : CreatesAll reqs := by
  intro actions s hExec
  refine ⟨Gather.answered_subperm hExec, (Gather.Accounted.of_exec hExec).alive, ?_⟩
  intro hA
  obtain ⟨hLen, hReturned, hProgress⟩ := Gather.exec_complete hA hExec
  refine ⟨hLen, ?_, hProgress.imp_left ?_⟩
  · intro result hResult
    obtain ⟨returned, hCaller, rfl⟩ := bootResult_eq_some hResult
    obtain ⟨got, rfl, hGot, hAll⟩ := hReturned returned hCaller
    refine ⟨dropletIDs got, rfl, hAll, ?_⟩
    rw [← dropletIDs_eq]
    exact hGot.flatMap_right _
  · rintro ⟨result, hCaller⟩
    rw [bootResult, hCaller]
    rfl

/-- A preemptible machine stops `Boot` before anything is requested. Otherwise
the requests name as many droplets of each kind as there are machines, one to
ten at a time, whatever the order of the map, and they are carried out. -/
theorem boot_exact (ubuntu : Machine → String) (ord : MapOrder) (prvdr : Provider)
    (machines : List Machine) :
    ((∃ m ∈ machines, m.preemptible) →
      boot ubuntu ord prvdr machines = .error "preemptible instances are not implemented") ∧
    ((∀ m ∈ machines, m.preemptible = false) →
      ∃ reqs, boot ubuntu ord prvdr machines = .ok (Gather.start reqs) ∧
        (∀ r ∈ reqs, 1 ≤ r.names.length ∧ r.names.length ≤ 10) ∧
        (∀ br, named br reqs = wanted ubuntu br machines) ∧ CreatesAll reqs) := by
  constructor
  · intro h
    rw [boot, bootRequests, countMachines_preemptible h]
    rfl
  · intro h
    obtain ⟨reqs, hReqs, hSize, hNamed⟩ := bootRequests_spec ubuntu ord prvdr h
    exact ⟨reqs, by rw [boot, hReqs]; rfl, hSize, hNamed, createsAll reqs⟩

/-- Twelve machines of one size. -/
def dozen : List Machine := List.replicate 12 { id := 1, size := "512mb" }

/-- The second of two requests is answered first, with the droplet 8. -/
def dozenActions : List (Gather.Action (List Droplet) String) :=
  [.call 1 [⟨8, "sfo1", "512mb", "", "", []⟩] none, .send 1,
    .call 0 [⟨7, "sfo1", "512mb", "", "", []⟩] none, .send 0, .report 1, .report 0,
    .receive, .receive, .close, .drain, .drain, .drain]

theorem boot_exact_dozen :
    (∃ reqs, boot (fun _ => "") .stored ⟨"ns", "sfo1"⟩ dozen = .ok (Gather.start reqs) ∧
      named ⟨"512mb", ""⟩ reqs = 12 ∧ CreatesAll reqs ∧
      (Gather.exec (Gather.start reqs) dozenActions).bind bootResult = some (.ok ["8", "7"])) ∧
    boot (fun _ => "") .stored ⟨"ns", "sfo1"⟩ (dozen ++ [{ id := 2, preemptible := true }]) =
      .error "preemptible instances are not implemented" := by
  constructor
  · obtain ⟨reqs, hBoot, -, hNamed, hAll⟩ :=
      (boot_exact (fun _ => "") .stored ⟨"ns", "sfo1"⟩ dozen).2 (by decide)
    have hIDs : (boot (fun _ => "") .stored ⟨"ns", "sfo1"⟩ dozen).toOption.bind (fun s =>
        (Gather.exec s dozenActions).bind bootResult) = some (.ok ["8", "7"]) := by
      decide +kernel
    refine ⟨reqs, hBoot, ?_, hAll, ?_⟩
    · rw [hNamed]
      decide
    · rw [hBoot] at hIDs
      exact hIDs
  · exact (boot_exact (fun _ => "") .stored ⟨"ns", "sfo1"⟩ _).1
      ⟨{ id := 2, preemptible := true }, by decide, rfl⟩

end Boot

end Kelda.DigitalOcean
