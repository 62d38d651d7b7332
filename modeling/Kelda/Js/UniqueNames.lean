import Mathlib.Data.List.AList
import Mathlib.Algebra.Order.BigOperators.Group.List
import Mathlib.Algebra.Order.Ring.Nat

/-! `UniqueNameGenerator` of `js/bindings/bindings.js`, which hands out the
hostnames and the volume names of a blueprint. The generator counts requests in
a plain JavaScript object, and tests membership with `in`: a name that every
object inherits from `Object.prototype` counts as taken from the start. -/
namespace Kelda.Bindings

/-- A property of the counting object: a count, or the text that `+= 1` makes
of an inherited value that is no number. -/
inductive CountValue where
  | number (n : Nat)
  | text (s : String)
deriving DecidableEq, Repr

namespace CountValue

/-- The text that `prefix + value` appends. -/
def toText : CountValue → String
  | number n => toString n
  | text s => s

/-- `value + 1`. A number stays exact up to `2 ^ 53`, where adding one no
longer changes a double; to a text the digit is appended. -/
def plusOne : CountValue → CountValue
  | number n => number (if n < 2 ^ 53 then n + 1 else n)
  | text s => text (s ++ "1")

theorem toText_plusOne_ne_empty (value : CountValue) : value.plusOne.toText ≠ "" := by
  cases value with
  | number n =>
      intro h
      have hLen := congrArg String.length h
      have hPos : 0 < (Nat.repr (if n < 2 ^ 53 then n + 1 else n)).length := Nat.length_repr_pos
      simp only [plusOne, toText, Nat.toString_eq_repr, String.length_empty] at hLen
      omega
  | text s =>
      intro h
      have hLen := congrArg String.length h
      simp [plusOne, toText] at hLen

end CountValue

/-- The text of a function of the engine. -/
def nativeFunction (name : String) : String :=
  "function " ++ name ++ "() \x7b [native code] \x7d"

/-- The properties every object inherits, each with the text of its value. -/
def objectPrototype : List (String × String) :=
  [("constructor", nativeFunction "Object"),
   ("__defineGetter__", nativeFunction "__defineGetter__"),
   ("__defineSetter__", nativeFunction "__defineSetter__"),
   ("hasOwnProperty", nativeFunction "hasOwnProperty"),
   ("__lookupGetter__", nativeFunction "__lookupGetter__"),
   ("__lookupSetter__", nativeFunction "__lookupSetter__"),
   ("isPrototypeOf", nativeFunction "isPrototypeOf"),
   ("propertyIsEnumerable", nativeFunction "propertyIsEnumerable"),
   ("toString", nativeFunction "toString"),
   ("valueOf", nativeFunction "valueOf"),
   ("__proto__", "[object Object]"),
   ("toLocaleString", nativeFunction "toLocaleString")]

/-- The names of the inherited properties. -/
def inheritedNames : List String := objectPrototype.map Prod.fst

theorem lookup_objectPrototype_eq_none_iff (name : String) :
    objectPrototype.lookup name = none ↔ name ∉ inheritedNames := by
  simp only [List.lookup_eq_none_iff, inheritedNames, List.mem_map, bne_iff_ne, ne_eq,
    not_exists, not_and]
  exact ⟨fun h entry hm he => h entry hm he.symm, fun h entry hm he => h entry hm he.symm⟩

/-- The object `nameCount`. Assigning to `__proto__` runs the inherited setter
instead of storing a property, so that name is never an own one. -/
structure NameCount where
  own : AList (fun _ : String => CountValue)
  proto_notMem : "__proto__" ∉ own

namespace NameCount

/-- The object without properties that the constructor stores. -/
def empty : NameCount := ⟨∅, AList.notMem_empty _⟩

/-- `nameCount[name]`: the own property, or else the inherited one. -/
def get (count : NameCount) (name : String) : Option CountValue :=
  (count.own.lookup name).or ((objectPrototype.lookup name).map .text)

/-- `name in nameCount`. -/
def has (count : NameCount) (name : String) : Bool := (count.get name).isSome

/-- `nameCount[name] = value` for a value that is no object: the setter of
`__proto__` ignores it. -/
def set (count : NameCount) (name : String) (value : CountValue) : NameCount :=
  if h : name = "__proto__" then count
  else ⟨count.own.insert name value, by
    rw [AList.mem_insert]
    rintro (he | hm)
    · exact h he.symm
    · exact count.proto_notMem hm⟩

/-- The text that `prefix + nameCount[name]` appends. -/
def propertyText (count : NameCount) (name : String) : String :=
  (count.get name).elim "undefined" CountValue.toText

theorem has_iff (count : NameCount) (name : String) :
    count.has name = true ↔ name ∈ count.own ∨ name ∈ inheritedNames := by
  have hp := lookup_objectPrototype_eq_none_iff name
  have ho := AList.lookup_eq_none (a := name) (s := count.own)
  unfold has get
  cases hl : count.own.lookup name with
  | some value =>
      have hm : name ∈ count.own := AList.lookup_isSome.mp (by simp [hl])
      simp [hm]
  | none =>
      have hm : name ∉ count.own := ho.mp hl
      cases hi : objectPrototype.lookup name with
      | some value =>
          rw [hi] at hp
          have : name ∈ inheritedNames := by simpa using hp
          simp [this]
      | none => simp [hm, hp.mp hi]

theorem has_empty (name : String) : empty.has name = true ↔ name ∈ inheritedNames := by
  rw [has_iff]
  simp [empty, AList.notMem_empty]

/-- Storing a property makes its name, and no other, a taken one. -/
theorem has_set (count : NameCount) (name : String) (value : CountValue) (other : String) :
    (count.set name value).has other = true ↔ other = name ∨ count.has other = true := by
  by_cases h : name = "__proto__"
  · subst h
    have hp : count.has "__proto__" = true := (has_iff _ _).mpr (.inr (by decide))
    simp only [set, dite_true]
    exact ⟨.inr, fun ho => ho.elim (fun he => he ▸ hp) id⟩
  · rw [has_iff, has_iff]
    simp only [set, h, dite_false, AList.mem_insert, or_assoc]

/-- After `+= 1` on a taken name there is a text to append, and it is not empty. -/
theorem propertyText_set_plusOne_ne_empty {count : NameCount} {name : String}
    {value : CountValue} (h : count.get name = some value) :
    (count.set name value.plusOne).propertyText name ≠ "" := by
  by_cases hp : name = "__proto__"
  · -- the assignment was ignored: the text is that of `Object.prototype` itself
    subst hp
    have hl := AList.lookup_eq_none.mpr count.proto_notMem
    simp only [set, dite_true, propertyText, get, hl]
    decide
  · simpa [propertyText, get, set, hp] using value.toText_plusOne_ne_empty

end NameCount

/-- `getName`. The source recurses on a longer and longer name until it meets a
free one; here each call of it takes one unit of fuel. -/
def getName : Nat → String → NameCount → Option (String × NameCount)
  | 0, _, _ => none
  | fuel + 1, pre, nameCount =>
    match nameCount.get pre with
    | none => some (pre, nameCount.set pre (.number 1))
    | some value =>
      let nameCount := nameCount.set pre value.plusOne
      getName fuel (pre ++ nameCount.propertyText pre) nameCount

/-- What one call of `getName` does to the taken names. -/
structure Generated (pre : String) (count : NameCount) (name : String) (next : NameCount) :
    Prop where
  startsWith : ∃ rest, name = pre ++ rest
  fresh : ¬ count.has name = true
  taken : ∀ other, next.has other = true ↔ other = name ∨ count.has other = true
  unchanged : ¬ count.has pre = true → name = pre

namespace Generated

theorem of_free {pre : String} {count : NameCount} (h : count.get pre = none) :
    Generated pre count pre (count.set pre (.number 1)) where
  startsWith := ⟨"", by simp⟩
  fresh := by simp [NameCount.has, h]
  taken := count.has_set pre _
  unchanged := fun _ => rfl

/-- The recursive call works on the same taken names. -/
theorem of_taken {pre text name : String} {count next : NameCount} {value : CountValue}
    (h : count.get pre = some value)
    (hg : Generated (pre ++ text) (count.set pre value.plusOne) name next) :
    Generated pre count name next := by
  have hp : count.has pre = true := by simp [NameCount.has, h]
  have hSame : ∀ other, (count.set pre value.plusOne).has other = true ↔
      count.has other = true := by
    intro other
    rw [NameCount.has_set]
    exact ⟨fun ho => ho.elim (fun he => he ▸ hp) id, .inr⟩
  obtain ⟨rest, hRest⟩ := hg.startsWith
  exact {
    startsWith := ⟨text ++ rest, by rw [hRest, String.append_assoc]⟩
    fresh := fun hn => hg.fresh ((hSame name).mpr hn)
    taken := fun other => by rw [hg.taken, hSame]
    unchanged := fun hn => absurd hp hn }

/-- The result is the requested name exactly when that name was free. -/
theorem eq_iff {pre name : String} {count next : NameCount} (h : Generated pre count name next) :
    name = pre ↔ ¬ count.has pre = true :=
  ⟨fun he => he ▸ h.fresh, h.unchanged⟩

end Generated

/-- Each recursive call asks for a longer name, and no taken name is longer than
`longest`; the induction is on the distance to it. -/
theorem getName_terminates_within (distance longest : Nat) (pre : String) (count : NameCount)
    (hLong : ∀ name, count.has name = true → name.length ≤ longest)
    (hd : longest < pre.length + distance) :
    ∃ bound name next, (∀ fuel ≥ bound, getName fuel pre count = some (name, next)) ∧
      Generated pre count name next := by
  induction distance generalizing pre count with
  | zero =>
      have hFree : count.get pre = none := by
        rw [← Option.not_isSome_iff_eq_none]
        intro hs
        have := hLong pre hs
        omega
      refine ⟨1, pre, _, ?_, .of_free hFree⟩
      intro fuel hFuel
      obtain ⟨fuel, rfl⟩ := Nat.exists_eq_add_of_le' hFuel
      simp [getName, hFree]
  | succ distance ih =>
      cases hGet : count.get pre with
      | none =>
          refine ⟨1, pre, _, ?_, .of_free hGet⟩
          intro fuel hFuel
          obtain ⟨fuel, rfl⟩ := Nat.exists_eq_add_of_le' hFuel
          simp [getName, hGet]
      | some value =>
          have hNe := NameCount.propertyText_set_plusOne_ne_empty hGet
          generalize hText : (count.set pre value.plusOne).propertyText pre = text at hNe
          have hPos : 0 < text.length := by
            rw [Nat.pos_iff_ne_zero]
            simpa using hNe
          have hPre : pre.length ≤ longest := hLong pre (by simp [NameCount.has, hGet])
          obtain ⟨bound, name, next, hRun, hGen⟩ := ih (pre ++ text) (count.set pre value.plusOne)
            (by
              intro other ho
              rcases (NameCount.has_set _ _ _ _).mp ho with rfl | ho
              · exact hPre
              · exact hLong other ho)
            (by rw [String.length_append]; omega)
          refine ⟨bound + 1, name, next, ?_, .of_taken hGet hGen⟩
          intro fuel hFuel
          obtain ⟨fuel, rfl⟩ := Nat.exists_eq_add_of_le' (Nat.le_trans (by omega : 1 ≤ _) hFuel)
          simp only [getName, hGet, hText]
          exact hRun fuel (by omega)

/-- The taken names of an object are finitely many, so their lengths are bounded. -/
theorem NameCount.exists_longest (count : NameCount) :
    ∃ longest, ∀ name, count.has name = true → name.length ≤ longest := by
  refine ⟨((count.own.keys ++ inheritedNames).map String.length).sum, ?_⟩
  intro name hName
  rw [NameCount.has_iff] at hName
  have hMem : name ∈ count.own.keys ++ inheritedNames :=
    List.mem_append.mpr (hName.imp AList.mem_keys.mp id)
  exact List.single_le_sum (fun _ _ => Nat.zero_le _) _ (List.mem_map_of_mem hMem)

theorem getName_terminates (pre : String) (count : NameCount) :
    ∃ bound name next, (∀ fuel ≥ bound, getName fuel pre count = some (name, next)) ∧
      Generated pre count name next := by
  obtain ⟨longest, hLong⟩ := count.exists_longest
  exact getName_terminates_within (longest + 1) longest pre count hLong (by omega)

/-- A sequence of calls on one generator. -/
def getNames (fuel : Nat) : List String → NameCount → Option (List String)
  | [], _ => some []
  | pre :: pres, nameCount => do
    let (name, nameCount) ← getName fuel pre nameCount
    let names ← getNames fuel pres nameCount
    pure (name :: names)

/-- What a run of calls gives out, from any state of the generator. -/
structure AllGenerated (pres : List String) (count : NameCount) (names : List String) :
    Prop where
  length_eq : names.length = pres.length
  nodup : names.Nodup
  fresh : ∀ name ∈ names, ¬ count.has name = true
  each : ∀ (i : Nat) (pre name : String), pres[i]? = some pre → names[i]? = some name →
    (∃ rest, name = pre ++ rest) ∧
      (name = pre ↔ ¬ (pre ∈ names.take i ∨ count.has pre = true))

namespace AllGenerated

theorem nil (count : NameCount) : AllGenerated [] count [] := by
  constructor <;> simp

theorem cons {pre name : String} {pres names : List String} {count next : NameCount}
    (hg : Generated pre count name next) (hRest : AllGenerated pres next names) :
    AllGenerated (pre :: pres) count (name :: names) where
  length_eq := by simp [hRest.length_eq]
  nodup := by
    rw [List.nodup_cons]
    exact ⟨fun hm => hRest.fresh name hm ((hg.taken name).mpr (.inl rfl)), hRest.nodup⟩
  fresh := by
    intro other ho
    rcases List.mem_cons.mp ho with rfl | ho
    · exact hg.fresh
    · exact fun hc => hRest.fresh other ho ((hg.taken other).mpr (.inr hc))
  each := by
    intro i other result hp hn
    cases i with
    | zero =>
        simp only [List.getElem?_cons_zero, Option.some.injEq] at hp hn
        subst hp hn
        refine ⟨hg.startsWith, hg.eq_iff.trans ?_⟩
        simp
    | succ i =>
        simp only [List.getElem?_cons_succ] at hp hn
        obtain ⟨hStart, hEq⟩ := hRest.each i other result hp hn
        refine ⟨hStart, hEq.trans (not_congr ?_)⟩
        rw [hg.taken, List.take_succ_cons, List.mem_cons]
        tauto

end AllGenerated

theorem getNames_spec (pres : List String) (count : NameCount) :
    ∃ bound names, (∀ fuel ≥ bound, getNames fuel pres count = some names) ∧
      AllGenerated pres count names := by
  induction pres generalizing count with
  | nil => exact ⟨0, [], fun _ _ => rfl, .nil count⟩
  | cons pre pres ih =>
      obtain ⟨b₁, name, next, hRun₁, hg⟩ := getName_terminates pre count
      obtain ⟨b₂, names, hRun₂, hRest⟩ := ih next
      refine ⟨max b₁ b₂, name :: names, ?_, .cons hg hRest⟩
      intro fuel hFuel
      have h₁ := hRun₁ fuel (Nat.le_trans (Nat.le_max_left _ _) hFuel)
      have h₂ := hRun₂ fuel (Nat.le_trans (Nat.le_max_right _ _) hFuel)
      simp [getNames, h₁, h₂]

/-- Every sequence of calls on a new generator ends, with pairwise distinct
names that start with what was asked for. A name not given out before is
returned unchanged, unless it is one that every object inherits: such a name is
taken before anyone asked for it, and is never given out. -/
theorem getNames_unique (pres : List String) :
    ∃ bound names, (∀ fuel ≥ bound, getNames fuel pres .empty = some names) ∧
      names.length = pres.length ∧ names.Nodup ∧ (∀ name ∈ names, name ∉ inheritedNames) ∧
      ∀ (i : Nat) (pre name : String), pres[i]? = some pre → names[i]? = some name →
        (∃ rest, name = pre ++ rest) ∧
          (pre ∉ names.take i → (name = pre ↔ pre ∉ inheritedNames)) := by
  obtain ⟨bound, names, hRun, hAll⟩ := getNames_spec pres .empty
  refine ⟨bound, names, hRun, hAll.length_eq, hAll.nodup, ?_, ?_⟩
  · intro name hName hInherited
    exact hAll.fresh name hName ((NameCount.has_empty name).mpr hInherited)
  · intro i pre name hp hn
    obtain ⟨hStart, hEq⟩ := hAll.each i pre name hp hn
    refine ⟨hStart, fun hNew => ?_⟩
    rw [hEq, NameCount.has_empty]
    tauto

/-- The first request for `constructor` is answered with another name. -/
theorem getName_constructor_renamed :
    getNames 5 ["constructor"] .empty =
      some ["constructorfunction Object() \x7b [native code] \x7d1"] := by
  decide +kernel

end Kelda.Bindings
