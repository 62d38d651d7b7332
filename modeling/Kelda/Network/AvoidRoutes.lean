import Kelda.Network.IPUpdate

/-! Whether the addresses that are handed out avoid the routes of workers. The
random choice does not look at the routes; after three attempts the call
returns without an error even if the last one chose an address within a
route. -/
namespace Kelda.Network

open DB Net IPDef Allocation

/-- Every container and load balancer has an address, and no route of a worker
into the container subnet contains it. The routes are those of the first
view. -/
def AllUsable (view view' : Database) : Prop :=
  (∀ dbc ∈ view'.rows .container, dbc.ip ≠ "" ∧ onWorkerRoute view dbc.ip = false) ∧
    ∀ dbl ∈ view'.rows .loadBalancer, dbl.ip ≠ "" ∧ onWorkerRoute view dbl.ip = false

/-- The owners without an address, or with one within a route. -/
def wantingOwners (view : Database) : List OwnerID := openKeys (wantsIP view) (owners view)

/-- The addresses of the container subnet that are neither reserved nor that of
another owner. -/
def freeAddresses (view : Database) : Finset String :=
  keldaAddresses \ usedBy reservedIPs (wantsIP view) (owners view)

/-- The tables for which a call that succeeds has avoided all routes: a route
cannot be parsed, nobody wants an address, no route contains an address that
may be handed out, or there are too few such addresses. -/
def NeverMisled (view : Database) : Prop :=
  BadRoute view ∨ wantingOwners view = [] ∨
    (∀ addr : IPv4, keldaSubnet.contains (ofIPv4 addr) = true → addr.text ∉ reservedIPs →
      onWorkerRoute view addr.text = false) ∨
    (freeAddresses view).card < (wantingOwners view).length

variable {view view' : Database}

theorem wantsIP_eq_false {ip : String} :
    wantsIP view ip = false ↔ ip ≠ "" ∧ onWorkerRoute view ip = false := by
  simp [wantsIP]

theorem allUsable_iff : AllUsable view view' ↔ ∀ e ∈ owners view', wantsIP view e.2 = false := by
  constructor
  · rintro ⟨hContainers, hLoadBalancers⟩ e he
    obtain ⟨o, r, hr, rfl⟩ := mem_owners.mp he
    cases o with
    | container => exact wantsIP_eq_false.mpr (hContainers r hr)
    | loadBalancer => exact wantsIP_eq_false.mpr (hLoadBalancers r hr)
  · intro h
    exact ⟨fun dbc hdbc => wantsIP_eq_false.mp (h _ (Owner.mem_owners (o := .container) hdbc)),
      fun dbl hdbl => wantsIP_eq_false.mp (h _ (Owner.mem_owners (o := .loadBalancer) hdbl))⟩

theorem text_ne_empty (addr : IPv4) : addr.text ≠ "" := by
  intro h
  have hParse := IPv4.parse_text addr
  rw [h] at hParse
  cases hParse

/-- An owner that was given an address has one of the subnet that is not
reserved, and any other owner has kept a usable one. -/
theorem NeverMisled.allUsable (h : NeverMisled view) {ords : Nat → MapOrder}
    {rand32 : Nat → UInt32} (hRun : updateIPsOnce ords rand32 view = .ok (none, view')) :
    AllUsable view view' := by
  obtain ⟨err, after, hRefines, -, hBad, hGood⟩ := updateIPsOnce_refines ords rand32 view
  cases hRefines.symm.trans hRun
  have hRoutes : ¬ BadRoute view := fun hRoute => (hBad hRoute).1 rfl
  obtain ⟨hKept, hDone⟩ := (hGood hRoutes).outcome (Kept.refl (nodup_owners view)) (by omega)
  have hComplete := hDone rfl
  rw [allUsable_iff]
  intro e he
  by_cases hKey : e.1 ∈ wantingOwners view
  · obtain ⟨hPool, hFresh, -⟩ := hComplete e he hKey
    rcases h with hRoute | hNone | hAvoid | hFew
    · exact (hRoutes hRoute).elim
    · rw [hNone] at hKey
      cases hKey
    · obtain ⟨addr, hAddr, hText⟩ := mem_keldaAddresses.mp hPool
      rw [hText] at hFresh ⊢
      exact wantsIP_eq_false.mpr ⟨text_ne_empty addr,
        hAvoid addr ((contains_keldaSubnet addr).mpr hAddr)
          (fun hReserved => hFresh (mem_usedBy.mpr (Or.inl hReserved)))⟩
    · exact (Nat.not_lt.mpr (hComplete.room hKept) hFew).elim
  · have hOld := (hKept.origin e he).resolve_right (fun hNew => hKey hNew.1)
    rwa [wantingOwners, mem_openKeys hKept.nodup hOld, Bool.not_eq_true] at hKey

/-- Otherwise an address within a route may be drawn in all three attempts. -/
theorem exists_misled (h : ¬ NeverMisled view) (ords : Nat → MapOrder) :
    ∃ rand32 view', updateIPsOnce ords rand32 view = .ok (none, view') ∧
      ¬ AllUsable view view' := by
  simp only [NeverMisled, not_or, not_forall, Nat.not_lt] at h
  obtain ⟨hRoutes, hSome, ⟨addr, hAddr, hFree, hRoute⟩, hRoom⟩ := h
  rw [Bool.not_eq_false] at hRoute
  have hPool : addr.text ∈ keldaAddresses :=
    mem_keldaAddresses.mpr ⟨addr, (contains_keldaSubnet addr).mp hAddr, rfl⟩
  obtain ⟨x, hx, hText⟩ := Finset.mem_image.mp hPool
  have hPick : ∀ n used, addr.text ∉ used →
      (drawIP (fun _ => UInt32.ofNat x)).pick n used = some addr.text := by
    intro n used hUsed
    rw [← hText] at hUsed ⊢
    exact firstFree_of_notMem (Finset.mem_range.mp hx) hUsed
  obtain ⟨err, view', hRun, -, -, hGood⟩ := updateIPsOnce_refines ords (fun _ => UInt32.ofNat x) view
  have hWants : wantsIP view addr.text = true := by simp [wantsIP, hRoute]
  obtain ⟨hOk, e, he, hValue⟩ := (hGood hRoutes).unlucky hPick hFree hWants
    ⟨nodup_owners view, hSome, hRoom⟩ (by omega)
  refine ⟨fun _ => UInt32.ofNat x, view', ?_, fun hUsable => ?_⟩
  · rw [hRun, Option.isNone_iff_eq_none.mp hOk]
  · have hNot := allUsable_iff.mp hUsable e he
    rw [hValue, hWants] at hNot
    cases hNot

/-- Exactly for these tables, success means that every address is usable,
whatever random numbers are drawn. -/
theorem updateIPsOnce_honest_iff (ords : Nat → MapOrder) (view : Database) :
    (∀ rand32 view', updateIPsOnce ords rand32 view = .ok (none, view') → AllUsable view view') ↔
      NeverMisled view := by
  constructor
  · intro hHonest
    by_contra h
    obtain ⟨rand32, view', hRun, hNot⟩ := exists_misled h ords
    exact hNot (hHonest rand32 view' hRun)
  · exact fun h rand32 view' hRun => h.allUsable hRun

/-- A container without an address, and a worker with a route to half of the
container subnet. -/
def routedView : Database where
  rows
    | .container => [{ id := 1 }]
    | .minion => [{ id := 2, role := .worker, hostSubnets := ["10.128.0.0/9"] }]
    | _ => []
  shouldAlert := fun _ => false
  curID := 2
  nodup := fun tt => by cases tt <;> decide
  bounded := fun tt => by cases tt <;> decide

/-- Three unlucky draws, and the container has an address within the route. -/
theorem updateIPsOnce_misled : ∃ view',
    updateIPsOnce (fun _ => MapOrder.stored) (fun _ => 0x800005) routedView = .ok (none, view') ∧
      (view'.rows .container).map Container.ip = ["10.128.0.5"] ∧
      onWorkerRoute routedView "10.128.0.5" = true ∧ ¬ AllUsable routedView view' := by
  have hRun : ((updateIPsOnce (fun _ => MapOrder.stored) (fun _ => 0x800005)
      routedView).toOption.map (fun res => (res.1, (res.2.rows .container).map Container.ip))) =
        some (none, ["10.128.0.5"]) := by
    decide +kernel
  have hRoute : onWorkerRoute routedView "10.128.0.5" = true := by decide +kernel
  cases hIPs : updateIPsOnce (fun _ => MapOrder.stored) (fun _ => 0x800005) routedView with
  | error e =>
      rw [hIPs] at hRun
      cases hRun
  | ok res =>
      rw [hIPs] at hRun
      obtain ⟨err, view'⟩ := res
      obtain ⟨rfl, hRows⟩ := Prod.mk.inj (Option.some.inj hRun)
      refine ⟨view', rfl, hRows, hRoute, fun hUsable => ?_⟩
      have hMem : "10.128.0.5" ∈ (view'.rows .container).map Container.ip := by
        rw [hRows]
        exact List.mem_singleton_self _
      obtain ⟨dbc, hdbc, hIP⟩ := List.mem_map.mp hMem
      have hNot := (hUsable.1 dbc hdbc).2
      rw [hIP, hRoute] at hNot
      cases hNot

end Kelda.Network
