import Mathlib.Data.List.Nodup
import Mathlib.Data.List.Perm.Basic

/-! Words that are put together in some order. The result does not depend on the
order if any two of the words commute. -/
namespace Words

variable {α β : Type}

theorem flatMap_eq_of_perm {f : α → List β} {l l' : List α} (h : l.Perm l')
    (hComm : ∀ a ∈ l, ∀ b ∈ l, f a ++ f b = f b ++ f a) : l.flatMap f = l'.flatMap f := by
  induction h with
  | nil => rfl
  | cons a _ ih =>
      rw [List.flatMap_cons, List.flatMap_cons,
        ih (fun b hb c hc => hComm b (List.mem_cons_of_mem _ hb) c (List.mem_cons_of_mem _ hc))]
  | swap a b l =>
      have hSwap : f b ++ f a = f a ++ f b := hComm b (by simp) a (by simp)
      rw [List.flatMap_cons, List.flatMap_cons, List.flatMap_cons, List.flatMap_cons,
        ← List.append_assoc, hSwap, List.append_assoc]
  | trans h _ ih ih' =>
      refine (ih hComm).trans (ih' (fun a ha b hb => ?_))
      exact hComm a (h.mem_iff.mpr ha) b (h.mem_iff.mpr hb)

/-- A proper extension that commutes with a word repeats its first letter. -/
theorem nil_of_extends {first : List β} {rest : List β} (hFirst : first ≠ [])
    (hNodup : (first ++ rest).Nodup) (h : first ++ rest = rest ++ first) : rest = [] := by
  cases rest with
  | nil => rfl
  | cons b rest =>
      cases first with
      | nil => exact absurd rfl hFirst
      | cons a first =>
          obtain rfl : a = b := (List.cons.inj h).1
          rw [List.cons_append, List.nodup_cons] at hNodup
          exact absurd (List.mem_append_right _ (List.mem_cons_self ..)) hNodup.1

/-- Words without repeated letters commute only with themselves. -/
theorem eq_of_append_comm {first second : List β} (hFirst : first ≠ []) (hSecond : second ≠ [])
    (hNodup : first.Nodup) (hNodup' : second.Nodup) (h : first ++ second = second ++ first) :
    first = second := by
  rcases List.append_eq_append_iff.mp h with ⟨rest, rfl, hRest⟩ | ⟨rest, rfl, hRest⟩
  · rw [nil_of_extends hFirst hNodup' hRest, List.append_nil]
  · rw [nil_of_extends hSecond hNodup hRest, List.append_nil]

end Words
