import Mathlib.Logic.Relation

/-! A lease. At any time it has at most one holder, and several parties may
believe to be the holder. What the parties and the lease have to respect for
these beliefs to be true is stated for one step; it then holds along a run. -/
structure Lease (ν : Type*) where
  holder : Option ν
  believes : ν → Prop

namespace Lease

variable {ν : Type*}

/-- A party starts to believe only if it holds the lease, and the lease is not
taken from a party that believes. -/
structure Step (before after : Lease ν) : Prop where
  gain : ∀ v, after.believes v → before.believes v ∨ after.holder = some v
  keep : ∀ v, before.holder = some v → before.believes v → after.holder = some v

/-- Every belief is true. -/
def Sound (lease : Lease ν) : Prop := ∀ v, lease.believes v → lease.holder = some v

/-- A step that leaves the holder alone and makes nobody believe who does not
hold the lease. -/
theorem Step.of_holder_eq {before after : Lease ν} (hHolder : after.holder = before.holder)
    (hGain : ∀ v, after.believes v → before.believes v ∨ before.holder = some v) :
    Step before after where
  gain := fun v hv => hHolder ▸ hGain v hv
  keep := fun _ hv _ => hHolder.trans hv

theorem Sound.step {before after : Lease ν} (h : before.Sound) (hStep : Step before after) :
    after.Sound := by
  intro v hv
  rcases hStep.gain v hv with hOld | hHolder
  · exact hStep.keep v (h v hOld) hOld
  · exact hHolder

theorem Sound.run {first last : Lease ν} (h : first.Sound)
    (hRun : Relation.ReflTransGen Step first last) : last.Sound := by
  induction hRun with
  | refl => exact h
  | tail _ hStep ih => exact ih.step hStep

/-- No two parties believe to be the holder. -/
theorem Sound.unique {lease : Lease ν} (h : lease.Sound) {v w : ν} (hv : lease.believes v)
    (hw : lease.believes w) : v = w :=
  Option.some.inj ((h v hv).symm.trans (h w hw))

end Lease
