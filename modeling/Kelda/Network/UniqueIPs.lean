import Kelda.Minion.Policy
import Kelda.Network.IPUpdate

/-! No two containers or load balancers ever share an address. Policy updates
and address updates follow each other in any order, while other components
change the other tables. -/
namespace Kelda.Network

open DB Net IPDef Allocation

section Invariant

/-- The addresses of all containers and load balancers that have one. -/
def assignedIPs (view : Database) : List String :=
  ((view.rows .container).map Container.ip ++ (view.rows .loadBalancer).map LoadBalancer.ip).filter
    (fun ip => ip ≠ "")

structure UniqueIPs (view : Database) : Prop where
  distinct : (assignedIPs view).Nodup
  unreserved : ∀ ip ∈ assignedIPs view,
    ip ≠ gatewayIP.text ∧ ip ≠ loadBalancerIP.text ∧ ip ≠ "10.0.0.0"

theorem assignedIPs_eq (view : Database) :
    assignedIPs view = ((owners view).map Prod.snd).filter (fun ip => ip ≠ "") := by
  simp only [owners, Owner.entries, List.flatMap_cons, List.flatMap_nil, List.append_nil,
    List.map_append, List.map_map]
  rfl

theorem notMem_reservedIPs {ip : String} :
    ip ∉ reservedIPs ↔ ip ≠ gatewayIP.text ∧ ip ≠ loadBalancerIP.text ∧ ip ≠ "10.0.0.0" := by
  have hZero : IPv4.text ⟨10, 0, 0, 0⟩ = "10.0.0.0" := by decide
  rw [reservedIPs, hZero]
  simp

/-- An address is that of one owner only. -/
theorem uniqueIPs_iff {view : Database} :
    UniqueIPs view ↔ ∀ e ∈ owners view, e.2 ≠ "" →
      e.2 ∉ reservedIPs ∧ ∀ e' ∈ owners view, e.2 = e'.2 → e.1 = e'.1 := by
  have hDistinct : (assignedIPs view).Nodup ↔ ∀ e ∈ owners view, e.2 ≠ "" →
      ∀ e' ∈ owners view, e.2 = e'.2 → e.1 = e'.1 := by
    rw [assignedIPs_eq, nodup_values_iff (nodup_owners view)]
    simp only [decide_eq_true_eq]
  have hMem : ∀ ip, ip ∈ assignedIPs view ↔ ip ≠ "" ∧ ∃ e ∈ owners view, e.2 = ip := by
    intro ip
    rw [assignedIPs_eq, List.mem_filter, List.mem_map, decide_eq_true_eq, and_comm]
  constructor
  · intro h e he hSome
    exact ⟨notMem_reservedIPs.mpr (h.unreserved e.2 ((hMem _).mpr ⟨hSome, e, he, rfl⟩)),
      hDistinct.mp h.distinct e he hSome⟩
  · intro h
    refine ⟨hDistinct.mpr (fun e he hSome => (h e he hSome).2), fun ip hip => ?_⟩
    obtain ⟨hSome, e, he, rfl⟩ := (hMem ip).mp hip
    exact notMem_reservedIPs.mp (h e he hSome).1

end Invariant

section Step

open Minion

/-- One step of the leader, or a change of the other tables: a new blueprint,
other host subnets, another leader. -/
inductive AddressStep : Database → Database → Prop where
  | policy {ords : Nat → MapOrder} {view view' : Database}
      (h : updatePolicy ords view = .ok view') : AddressStep view view'
  | addresses {ords : Nat → MapOrder} {rand32 : Nat → UInt32} {view view' : Database}
      (h : updateIPsOnce ords rand32 view = .ok (none, view')) : AddressStep view view'
  | other {view view' : Database} (h : ∀ o : Owner, view'.rows o.table = view.rows o.table) :
      AddressStep view view'

variable {view view' : Database}

/-- A reconciled row has the address of the row that it comes from. -/
theorem Owner.mem_of_reconciled {o : Owner} {δ κ : Type} {lKey : δ → κ} {rKey : RowOf o.table → κ}
    {merge : δ → RowOf o.table → RowOf o.table} {wanted : List δ}
    {before after : List (RowOf o.table)} {curID : Nat}
    (h : Reconciled o.table lKey rKey merge merge wanted before curID after)
    (hID : ∀ d r, o.key (merge d r) = o.key r) (hIP : ∀ d r, o.ip (merge d r) = o.ip r)
    {r : RowOf o.table} (hr : r ∈ after) (hSome : o.ip r ≠ "") :
    ∃ old ∈ before, (o.key old, o.ip old) = (o.key r, o.ip r) := by
  obtain ⟨d, -, -, ⟨old, hOld, -, rfl⟩ | ⟨-, id, -, rfl⟩⟩ := h.origin r hr
  · exact ⟨old, hOld, by rw [hID, hIP]⟩
  · refine (hSome ?_).elim
    rw [hIP]
    cases o <;> rfl

theorem mem_owners_of_applied {ords : Nat → MapOrder} {bp : Blueprint} (h : Applied ords bp view view')
    {e : OwnerID × String} (he : e ∈ owners view') (hSome : e.2 ≠ "") : e ∈ owners view := by
  rw [mem_owners] at he ⊢
  obtain ⟨o, r, hr, rfl⟩ := he
  refine ⟨o, ?_⟩
  cases o with
  | container =>
      exact Owner.mem_of_reconciled (o := .container) h.containers (fun _ _ => rfl) (fun _ _ => rfl)
        hr hSome
  | loadBalancer =>
      exact Owner.mem_of_reconciled (o := .loadBalancer) h.loadBalancers (fun _ _ => rfl)
        (fun _ _ => rfl) hr hSome

/-- The policy brings in no address. -/
theorem updatePolicy_owners {ords : Nat → MapOrder} (h : updatePolicy ords view = .ok view')
    {e : OwnerID × String} (he : e ∈ owners view') (hSome : e.2 ≠ "") : e ∈ owners view := by
  rw [updatePolicy] at h
  split_ifs at h
  · cases hBlueprint : getBlueprint (ords 1) view with
    | error panic =>
        rw [hBlueprint] at h
        cases h
    | ok found =>
        rw [hBlueprint] at h
        cases found with
        | error err =>
            cases h
            exact he
        | ok bpRow =>
            obtain ⟨after, hApply, hApplied⟩ := applyPolicy_applied ords view bpRow.blueprint
            cases hApply.symm.trans h
            exact mem_owners_of_applied hApplied he hSome
  · cases h
    exact he

theorem UniqueIPs.policy {ords : Nat → MapOrder} (hUnique : UniqueIPs view)
    (h : updatePolicy ords view = .ok view') : UniqueIPs view' := by
  rw [uniqueIPs_iff] at hUnique ⊢
  intro e he hSome
  obtain ⟨hFree, hDistinct⟩ := hUnique e (updatePolicy_owners h he hSome) hSome
  refine ⟨hFree, fun e' he' hEq => hDistinct e' (updatePolicy_owners h he' (hEq ▸ hSome)) hEq⟩

/-- Owners that wanted an address have got one of their own, and the others have
kept theirs. -/
theorem UniqueIPs.addresses {ords : Nat → MapOrder} {rand32 : Nat → UInt32}
    (hUnique : UniqueIPs view) (h : updateIPsOnce ords rand32 view = .ok (none, view')) :
    UniqueIPs view' := by
  obtain ⟨err, after, hRun, -, hBad, hGood⟩ := updateIPsOnce_refines ords rand32 view
  cases hRun.symm.trans h
  have hAttempts := hGood (fun h => (hBad h).1 rfl)
  obtain ⟨hKept, hDone⟩ := hAttempts.outcome (Kept.refl (nodup_owners view)) (by omega)
  rw [uniqueIPs_iff] at hUnique ⊢
  intro e he _
  refine (hDone rfl).distinct hKept (fun e he hAssigned => hUnique e he ?_) he
  intro hNone
  simp [wantsIP, hNone] at hAssigned

theorem UniqueIPs.step (hUnique : UniqueIPs view) (h : AddressStep view view') :
    UniqueIPs view' := by
  cases h with
  | policy h => exact hUnique.policy h
  | addresses h => exact hUnique.addresses h
  | other h =>
      have hSame : owners view' = owners view := by
        simp only [owners, List.flatMap_cons, h]
      rw [uniqueIPs_iff] at hUnique ⊢
      rwa [hSame]

/-- In every state of every run the addresses are unique and none is reserved,
and whatever a call of updateIPsOnce returns there, it changes nothing but the
addresses that have to change. -/
theorem uniqueIPs_run {start view : Database} (hStart : UniqueIPs start)
    (hRun : Relation.ReflTransGen AddressStep start view) :
    UniqueIPs view ∧ ∀ ords rand32, ∃ err view',
      updateIPsOnce ords rand32 view = .ok (err, view') ∧ OnlyWantedIPs view view' := by
  refine ⟨?_, fun ords rand32 => updateIPsOnce_onlyWanted ords rand32 view⟩
  induction hRun with
  | refl => exact hStart
  | tail _ hStep ih => exact ih.step hStep

/-- A leader with a stale container, and one whose address is within the route of
a worker. -/
def staleView : Database where
  rows
    | .blueprint => [⟨1, ⟨[⟨"1a", ⟨"nginx", ""⟩, [], ∅, ∅, "web", false, []⟩], [⟨"lb", ["web"]⟩],
        [], [], [], [], "", []⟩⟩]
    | .etcd => [{ id := 2, leader := true }]
    | .container => [{ id := 3, blueprintID := "1a", ip := "10.128.0.9" },
        { id := 4, blueprintID := "gone", ip := "10.0.0.7" }]
    | .minion => [{ id := 5, role := .worker, hostSubnets := ["10.128.0.0/9"] }]
    | _ => []
  shouldAlert := fun _ => false
  curID := 5
  nodup := fun tt => by cases tt <;> decide
  bounded := fun tt => by cases tt <;> decide

/-- The policy removes one container and adds a load balancer, and then both
owners are given addresses. -/
theorem uniqueIPs_run_stale :
    ∃ mid view, updatePolicy (fun _ => MapOrder.stored) staleView = .ok mid ∧
      updateIPsOnce (fun _ => MapOrder.stored) (fun _ => 7) mid = .ok (none, view) ∧
      assignedIPs view = ["10.0.0.7", "10.0.0.8"] ∧ UniqueIPs view := by
  have hRun : ((updatePolicy (fun _ => MapOrder.stored) staleView >>=
      updateIPsOnce (fun _ => MapOrder.stored) (fun _ => 7)).toOption.map
        (fun res => (res.1, assignedIPs res.2))) = some (none, ["10.0.0.7", "10.0.0.8"]) := by
    decide +kernel
  cases hPolicy : updatePolicy (fun _ => MapOrder.stored) staleView with
  | error e =>
      rw [hPolicy] at hRun
      cases hRun
  | ok mid =>
      rw [hPolicy] at hRun
      cases hIPs : updateIPsOnce (fun _ => MapOrder.stored) (fun _ => 7) mid with
      | error e =>
          change ((updateIPsOnce _ _ mid).toOption.map _) = _ at hRun
          rw [hIPs] at hRun
          cases hRun
      | ok res =>
          change ((updateIPsOnce _ _ mid).toOption.map _) = _ at hRun
          rw [hIPs] at hRun
          obtain ⟨err, view⟩ := res
          obtain ⟨rfl, hAssigned⟩ := Prod.mk.inj (Option.some.inj hRun)
          refine ⟨mid, view, rfl, hIPs, hAssigned, ?_⟩
          have hStart : UniqueIPs staleView := ⟨by decide, by decide⟩
          have hSteps := (Relation.ReflTransGen.single (AddressStep.policy hPolicy)).tail
            (AddressStep.addresses hIPs)
          exact (uniqueIPs_run hStart hSteps).1

end Step

end Kelda.Network
