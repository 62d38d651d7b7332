import Kelda.Lib.Prefix
import Kelda.Network.IPUpdate

/-! The blacklist of subnets. It holds the routes of the workers that lead into
the container subnet, and no others. -/
namespace Kelda.Network

open DB Net IPDef

/-- A text that is read as a subnet of IPv4 addresses. -/
def IPv4CIDR (s : String) : Prop := ∃ subnet, parseCIDR s = .ok subnet ∧ subnet.mask.length = 4

theorem keldaSubnet_isPrefix : keldaSubnet.IsPrefix ⟨10, 0, 0, 0⟩ 8 := ⟨rfl, rfl, by decide⟩

/-- The test of the two base addresses is exact. -/
theorem subnetIntersects_iff {subnet : IPNet} {addr : IPv4} {ones : Nat}
    (h : subnet.IsPrefix addr ones) :
    subnetIntersects keldaSubnet subnet ↔
      ∃ x : IPv4, keldaSubnet.contains (ofIPv4 x) ∧ subnet.contains (ofIPv4 x) := by
  rw [subnetIntersects, Bool.or_eq_true]
  exact contains_or_contains_iff keldaSubnet_isPrefix h

theorem mem_foldlM_addSubnet {subnets : List String} {bl bl' : List IPNet}
    (h : subnets.foldlM addSubnet bl = .ok bl') {subnet : IPNet} :
    subnet ∈ bl' ↔ subnet ∈ bl ∨
      (∃ s ∈ subnets, parseCIDR s = .ok subnet) ∧ subnetIntersects keldaSubnet subnet := by
  induction subnets generalizing bl with
  | nil =>
      cases h
      simp
  | cons s subnets ih =>
      rw [List.foldlM_cons, addSubnet] at h
      cases hParse : parseCIDR s with
      | error err =>
          rw [hParse] at h
          cases h
      | ok found =>
          rw [hParse] at h
          dsimp only at h
          have hCons : (∃ s' ∈ s :: subnets, parseCIDR s' = .ok subnet) ↔
              found = subnet ∨ ∃ s' ∈ subnets, parseCIDR s' = .ok subnet := by
            simp [hParse]
          rw [hCons, or_and_right, ← or_assoc]
          by_cases hMeets : subnetIntersects keldaSubnet found = true
          · rw [if_pos hMeets] at h
            rw [ih h, List.mem_append, List.mem_singleton]
            refine or_congr_left (or_congr_right ⟨fun hEq => ⟨hEq.symm, hEq ▸ hMeets⟩, ?_⟩)
            exact fun hEq => hEq.1.symm
          · rw [if_neg hMeets] at h
            rw [ih h]
            refine or_congr_left ⟨.inl, fun hOld => hOld.resolve_right ?_⟩
            rintro ⟨rfl, hMeets'⟩
            exact hMeets hMeets'

theorem mem_workerSubnets {view : Database} {s : String} :
    s ∈ workerSubnets view ↔ ∃ m ∈ view.rows .minion, m.role = .worker ∧ s ∈ m.hostSubnets := by
  simp only [workerSubnets, List.mem_flatMap, List.mem_filter, decide_eq_true_eq, and_assoc]

theorem mem_makeSubnetBlacklist {ords : Nat → MapOrder} {view : Database} {blacklist : List IPNet}
    (h : makeSubnetBlacklist ords view = .ok blacklist) {subnet : IPNet} :
    subnet ∈ blacklist ↔ (∃ s ∈ workerSubnets view, parseCIDR s = .ok subnet) ∧
      subnetIntersects keldaSubnet subnet := by
  rw [mem_foldlM_addSubnet h, or_iff_right List.not_mem_nil]
  refine and_congr_left' (exists_congr (fun s => and_congr_left' ?_))
  exact mem_workerSubnets_iff (ords 0) (ords 1) s

/-- The blacklist is exactly the dangerous routes. -/
theorem blacklist_exact (ords : Nat → MapOrder) (view : Database)
    (hRoutes : ∀ m ∈ view.rows .minion, m.role = .worker → ∀ s ∈ m.hostSubnets, IPv4CIDR s) :
    ∃ blacklist, makeSubnetBlacklist ords view = .ok blacklist ∧
      (∀ x : IPv4, keldaSubnet.contains (ofIPv4 x) →
        (ipBlacklisted x.text blacklist ↔ ∃ m ∈ view.rows .minion, m.role = .worker ∧
          ∃ s ∈ m.hostSubnets, ∃ subnet, parseCIDR s = .ok subnet ∧ subnet.contains (ofIPv4 x))) ∧
      ∀ subnet, subnet ∈ blacklist ↔
        (∃ m ∈ view.rows .minion, m.role = .worker ∧
          ∃ s ∈ m.hostSubnets, parseCIDR s = .ok subnet) ∧
        ∃ x : IPv4, keldaSubnet.contains (ofIPv4 x) ∧ subnet.contains (ofIPv4 x) := by
  have hPrefix : ∀ s ∈ workerSubnets view, ∀ subnet, parseCIDR s = .ok subnet →
      ∃ addr ones, subnet.IsPrefix addr ones := by
    intro s hs subnet hParse
    obtain ⟨m, hm, hWorker, hs⟩ := mem_workerSubnets.mp hs
    obtain ⟨found, hFound, hLen⟩ := hRoutes m hm hWorker s hs
    obtain rfl : subnet = found := Except.ok.inj (hParse.symm.trans hFound)
    exact isPrefix_of_parseCIDR hParse hLen
  have hRows : ∀ P : String → Prop, (∃ s ∈ workerSubnets view, P s) ↔
      ∃ m ∈ view.rows .minion, m.role = .worker ∧ ∃ s ∈ m.hostSubnets, P s := by
    intro P
    simp only [mem_workerSubnets]
    constructor
    · rintro ⟨s, ⟨m, hm, hWorker, hs⟩, hP⟩
      exact ⟨m, hm, hWorker, s, hs, hP⟩
    · rintro ⟨m, hm, hWorker, s, hs, hP⟩
      exact ⟨s, ⟨m, hm, hWorker, hs⟩, hP⟩
  cases hList : makeSubnetBlacklist ords view with
  | error err =>
      obtain ⟨s, hs, err', hParse⟩ := (makeSubnetBlacklist_error ords view).mp ⟨err, hList⟩
      obtain ⟨m, hm, hWorker, hs⟩ := mem_workerSubnets.mp hs
      obtain ⟨found, hFound, -⟩ := hRoutes m hm hWorker s hs
      rw [hParse] at hFound
      cases hFound
  | ok blacklist =>
      refine ⟨blacklist, rfl, fun x hx => ?_, fun subnet => ?_⟩
      · rw [← hRows (fun s => ∃ subnet, parseCIDR s = .ok subnet ∧ subnet.contains (ofIPv4 x)),
          ipBlacklisted, List.any_eq_true, parseIP_text]
        constructor
        · rintro ⟨subnet, hMem, hIn⟩
          obtain ⟨⟨s, hs, hParse⟩, -⟩ := (mem_makeSubnetBlacklist hList).mp hMem
          exact ⟨s, hs, subnet, hParse, hIn⟩
        · rintro ⟨s, hs, subnet, hParse, hIn⟩
          obtain ⟨addr, ones, hSubnet⟩ := hPrefix s hs subnet hParse
          have hMeets := (subnetIntersects_iff hSubnet).mpr ⟨x, hx, hIn⟩
          exact ⟨subnet, (mem_makeSubnetBlacklist hList).mpr ⟨⟨s, hs, hParse⟩, hMeets⟩, hIn⟩
      · rw [← hRows (fun s => parseCIDR s = .ok subnet), mem_makeSubnetBlacklist hList]
        refine and_congr_right (fun hRoute => ?_)
        obtain ⟨s, hs, hParse⟩ := hRoute
        obtain ⟨addr, ones, hSubnet⟩ := hPrefix s hs subnet hParse
        exact subnetIntersects_iff hSubnet

/-- A worker with a route into the container subnet, with bits of the host set,
and one beside it. -/
def hostedView : Database where
  rows
    | .minion => [{ id := 1, role := .worker, hostSubnets := ["10.128.7.9/9", "192.168.0.0/16"] }]
    | _ => []
  shouldAlert := fun _ => false
  curID := 1
  nodup := fun tt => by cases tt <;> decide
  bounded := fun tt => by cases tt <;> decide

theorem blacklist_exact_hosted : ∃ blacklist,
    makeSubnetBlacklist (fun _ => .stored) hostedView = .ok blacklist ∧
      ipBlacklisted (IPv4.text ⟨10, 200, 0, 1⟩) blacklist := by
  have hFirst : parseCIDR "10.128.7.9/9" = .ok ⟨[10, 128, 0, 0], [255, 128, 0, 0]⟩ := by
    decide +kernel
  have hSecond : parseCIDR "192.168.0.0/16" = .ok ⟨[192, 168, 0, 0], [255, 255, 0, 0]⟩ := by
    decide +kernel
  have hRoutes : ∀ m ∈ hostedView.rows .minion, m.role = .worker →
      ∀ s ∈ m.hostSubnets, IPv4CIDR s := by
    intro m hm _ s hs
    rw [List.mem_singleton.mp hm] at hs
    rcases List.mem_pair.mp hs with rfl | rfl
    · exact ⟨_, hFirst, rfl⟩
    · exact ⟨_, hSecond, rfl⟩
  obtain ⟨blacklist, hList, hExact, -⟩ := blacklist_exact (fun _ => .stored) hostedView hRoutes
  refine ⟨blacklist, hList, (hExact ⟨10, 200, 0, 1⟩ (by decide)).mpr ?_⟩
  exact ⟨_, List.mem_singleton_self _, rfl, "10.128.7.9/9", List.mem_cons_self .., _, hFirst,
    by decide⟩

end Kelda.Network
