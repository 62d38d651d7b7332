import Kelda.DB.Rows
import Kelda.Js.UniqueNames
import Kelda.Lib.Text
import Mathlib.Data.Finset.Card
import Mathlib.Data.List.Sort

/-! `setKeldaIDs` of `js/bindings/bindings.js`: the id of a container is the
hash of its attributes followed by its rank among the containers with the same
attributes. Containers are objects on a heap, an array holds references to them. -/
namespace Kelda.Bindings

structure Image where
  name : String
  dockerfile : String
deriving DecidableEq, Repr

/-- The object that `hash` of a container passes to `stringify`. -/
structure Attributes where
  image : Image
  command : List String
  env : StringMap Blueprint.ContainerValue
  filepathToContent : StringMap Blueprint.ContainerValue
  hostname : String

/-- A container object; `id` is undefined until `setKeldaIDs` assigns it. -/
structure Container where
  refID : Nat
  attributes : Attributes
  id : Option String

/-- The reference to an object. -/
abbrev Address := Nat

/-- The container objects that exist, at the addresses below `next`. The
constructor is the only code that sets `_refID`, and no two runs of it get the
same number from `uniqueID`. -/
structure Heap where
  uniqueIDCounter : Nat
  next : Nat
  objects : Nat → Container
  refID_le : ∀ a < next, (objects a).refID ≤ uniqueIDCounter
  refID_inj : ∀ a < next, ∀ b < next, (objects a).refID = (objects b).refID → a = b

namespace Heap

/-- The heap of a new process: no object, and an unused address holds nothing of
interest. -/
def empty (unused : Container) : Heap where
  uniqueIDCounter := 0
  next := 0
  objects := fun _ => unused
  refID_le := fun _ h => absurd h (Nat.not_lt_zero _)
  refID_inj := fun _ h => absurd h (Nat.not_lt_zero _)

/-- `uniqueID`, as the constructors of other classes call it. -/
def uniqueID (heap : Heap) : Nat × Heap :=
  (heap.uniqueIDCounter + 1,
    { heap with
      uniqueIDCounter := heap.uniqueIDCounter + 1
      refID_le := fun a ha => (heap.refID_le a ha).trans (Nat.le_succ _) })

/-- `new Container`: the object takes the next number. -/
def newContainer (heap : Heap) (attributes : Attributes) : Address × Heap :=
  (heap.next,
    { uniqueIDCounter := heap.uniqueIDCounter + 1
      next := heap.next + 1
      objects := Function.update heap.objects heap.next
        ⟨heap.uniqueIDCounter + 1, attributes, none⟩
      refID_le := by
        intro a ha
        by_cases h : a = heap.next
        · simp [h]
        · have := heap.refID_le a (by omega)
          simp only [Function.update_of_ne h]
          omega
      refID_inj := by
        intro a ha b hb he
        by_cases h : a = heap.next <;> by_cases h' : b = heap.next
        · rw [h, h']
        · have := heap.refID_le b (by omega)
          simp only [h, Function.update_self, Function.update_of_ne h'] at he
          omega
        · have := heap.refID_le a (by omega)
          simp only [h', Function.update_self, Function.update_of_ne h] at he
          omega
        · simp only [Function.update_of_ne h, Function.update_of_ne h'] at he
          exact heap.refID_inj a (by omega) b (by omega) he })

/-- `obj.id = id`. -/
def setID (heap : Heap) (obj : Address) (id : String) : Heap :=
  { heap with
    objects := Function.update heap.objects obj { heap.objects obj with id := some id }
    refID_le := by
      intro a ha
      by_cases h : a = obj
      · subst h
        simpa using heap.refID_le a ha
      · simpa [Function.update_of_ne h] using heap.refID_le a ha
    refID_inj := by
      have hSame : ∀ a, (Function.update heap.objects obj
          { heap.objects obj with id := some id } a).refID = (heap.objects a).refID := by
        intro a
        by_cases h : a = obj
        · subst h
          simp
        · simp [Function.update_of_ne h]
      intro a ha b hb he
      rw [hSame, hSame] at he
      exact heap.refID_inj a ha b hb he }

end Heap

section SetKeldaIDs

variable (sha1 : String → String) (stringify : Attributes → String)
  (uniq sortBy : List Nat → List Nat)

/-- The method `hash` of a container. -/
def Container.hash (obj : Container) : String := stringify obj.attributes

/-- The object `refIDs`: under each hash the numbers of the containers. -/
abbrev Buckets := AList (fun _ : String => List Nat)

/-- `refIDs[k]`, with `if (!refIDs[k])` before it. A name that every object
inherits finds a value that is no array. -/
def bucketOf (refIDs : Buckets) (k : String) : Except String (List Nat) :=
  match refIDs.lookup k with
  | some ids => pure ids
  | none =>
    if k ∈ inheritedNames then throw "TypeError: refIDs[k].push is not a function" else pure []

/-- The first loop. -/
def collect (heap : Heap) : List Address → Buckets → Except String Buckets
  | [], refIDs => pure refIDs
  | obj :: objs, refIDs => do
    let k := (heap.objects obj).hash stringify
    let ids ← bucketOf refIDs k
    collect heap objs (refIDs.insert k (ids ++ [(heap.objects obj).refID]))

/-- What underscore documents of `_.uniq`, a duplicate-free version of an array,
and of `_.sortBy` by `_.identity`, a sorted copy of an array. -/
structure Underscore : Prop where
  uniq_nodup : ∀ ids, (uniq ids).Nodup
  mem_uniq : ∀ ids id, id ∈ uniq ids ↔ id ∈ ids
  sortBy_perm : ∀ ids, (sortBy ids).Perm ids
  sortBy_sorted : ∀ ids, (sortBy ids).Pairwise (· ≤ ·)

/-- The second loop, over the keys. -/
def sortBuckets (refIDs : Buckets) : Buckets :=
  refIDs.keys.foldl
    (fun refIDs k => refIDs.insert k (sortBy (uniq ((refIDs.lookup k).getD [])))) refIDs

/-- The text of `ids.indexOf(refID)`. -/
def indexText (ids : List Nat) (refID : Nat) : String :=
  if refID ∈ ids then toString (ids.idxOf refID) else "-1"

/-- The third loop. -/
def assignIDs (refIDs : Buckets) : List Address → Heap → Heap
  | [], heap => heap
  | obj :: objs, heap =>
    let k := (heap.objects obj).hash stringify
    let h := sha1 (k ++ indexText ((refIDs.lookup k).getD []) (heap.objects obj).refID)
    assignIDs refIDs objs (heap.setID obj h)

def setKeldaIDs (heap : Heap) (objs : List Address) : Except String Heap := do
  let refIDs ← collect stringify heap objs ∅
  pure (assignIDs sha1 stringify (sortBuckets uniq sortBy refIDs) objs heap)

/-- The containers of the array with the same hash as `obj` and a smaller `_refID`. -/
def elders (heap : Heap) (objs : List Address) (obj : Address) : Finset Address :=
  objs.toFinset.filter (fun other =>
    (heap.objects other).hash stringify = (heap.objects obj).hash stringify ∧
      (heap.objects other).refID < (heap.objects obj).refID)

/-- The id that the attributes and the rank of a container determine. -/
def keldaID (k : String) (rank : Nat) : String := sha1 (k ++ toString rank)

end SetKeldaIDs

section Rank

/-- In a strictly increasing list the index of a member counts the smaller ones. -/
theorem idxOf_eq_countP {ids : List Nat} (h : ids.Pairwise (· < ·)) {x : Nat} (hx : x ∈ ids) :
    ids.idxOf x = ids.countP (· < x) := by
  induction ids with
  | nil => simp at hx
  | cons y ids ih =>
      rw [List.pairwise_cons] at h
      rcases List.mem_cons.mp hx with rfl | hx
      · have hNone : ids.countP (· < x) = 0 := by
          rw [List.countP_eq_zero]
          intro z hz
          have := h.1 z hz
          simp
          omega
        simp [hNone]
      · have hLt := h.1 x hx
        rw [List.idxOf_cons_ne _ (Nat.ne_of_lt hLt), ih h.2 hx, List.countP_cons]
        simp [hLt]

variable {uniq sortBy : List Nat → List Nat}

theorem Underscore.mem_iff (h : Underscore uniq sortBy) {ids : List Nat} {x : Nat} :
    x ∈ sortBy (uniq ids) ↔ x ∈ ids :=
  (h.sortBy_perm _).mem_iff.trans (h.mem_uniq ids x)

theorem Underscore.nodup (h : Underscore uniq sortBy) (ids : List Nat) :
    (sortBy (uniq ids)).Nodup :=
  (h.sortBy_perm _).nodup_iff.mpr (h.uniq_nodup ids)

theorem Underscore.pairwise (h : Underscore uniq sortBy) (ids : List Nat) :
    (sortBy (uniq ids)).Pairwise (· < ·) := by
  refine ((h.sortBy_sorted (uniq ids)).and (h.nodup ids)).imp ?_
  intro a b hab
  exact Nat.lt_of_le_of_ne hab.1 hab.2

theorem Underscore.idxOf (h : Underscore uniq sortBy) {ids : List Nat} {x : Nat} (hx : x ∈ ids) :
    (sortBy (uniq ids)).idxOf x = (ids.toFinset.filter (· < x)).card := by
  have hSet : ids.toFinset.filter (· < x) = ((sortBy (uniq ids)).filter (· < x)).toFinset := by
    ext y
    simp [h.mem_iff]
  rw [idxOf_eq_countP (h.pairwise ids) (h.mem_iff.mpr hx), hSet,
    List.toFinset_card_of_nodup ((h.nodup ids).filter _), List.countP_eq_length_filter]

end Rank

section Loops

variable {sha1 : String → String} {stringify : Attributes → String}
  {uniq sortBy : List Nat → List Nat}

theorem inheritedNames_last_ne {k : String} (h : k.toList.getLast? = some '\x7d') :
    k ∉ inheritedNames := by
  intro hk
  have hAll : ∀ name ∈ inheritedNames, name.toList.getLast? ≠ some '\x7d' := by decide +kernel
  exact hAll k hk h

/-- The numbers the first loop stores under `k`. -/
def idsOf (stringify : Attributes → String) (heap : Heap) (objs : List Address) (k : String) :
    List Nat :=
  (objs.filter (fun obj => (heap.objects obj).hash stringify = k)).map
    (fun obj => (heap.objects obj).refID)

/-- The first loop appends to each bucket what belongs there, and creates no other. -/
theorem collect_spec (hEnd : ∀ v, (stringify v).toList.getLast? = some '\x7d') (heap : Heap)
    (objs : List Address) (refIDs : Buckets) :
    ∃ next, collect stringify heap objs refIDs = .ok next ∧
      ∀ k, (next.lookup k).getD [] = (refIDs.lookup k).getD [] ++ idsOf stringify heap objs k := by
  induction objs generalizing refIDs with
  | nil => exact ⟨refIDs, rfl, by simp [idsOf]⟩
  | cons obj objs ih =>
      set k₀ := (heap.objects obj).hash stringify with hk₀
      have hBucket : bucketOf refIDs k₀ = .ok ((refIDs.lookup k₀).getD []) := by
        unfold bucketOf
        cases refIDs.lookup k₀ with
        | some ids => rfl
        | none => simp [inheritedNames_last_ne (hEnd _), hk₀, Container.hash, pure, Except.pure]
      obtain ⟨next, hRun, hNext⟩ := ih (refIDs.insert k₀
        ((refIDs.lookup k₀).getD [] ++ [(heap.objects obj).refID]))
      refine ⟨next, ?_, ?_⟩
      · simp only [collect, ← hk₀, hBucket]
        exact hRun
      · intro k
        rw [hNext k]
        by_cases h : k = k₀
        · subst h
          simp [idsOf, ← hk₀]
        · have h' : ¬ k₀ = k := fun he => h he.symm
          simp [idsOf, ← hk₀, h', AList.lookup_insert_ne h]

theorem lookup_foldl_insert (f : List Nat → List Nat) (ks : List String) (hks : ks.Nodup)
    (refIDs : Buckets) (k : String) :
    (ks.foldl (fun refIDs k => refIDs.insert k (f ((refIDs.lookup k).getD []))) refIDs).lookup k =
      if k ∈ ks then some (f ((refIDs.lookup k).getD [])) else refIDs.lookup k := by
  induction ks generalizing refIDs with
  | nil => simp
  | cons k₀ ks ih =>
      rw [List.nodup_cons] at hks
      rw [List.foldl_cons, ih hks.2]
      by_cases h : k = k₀
      · subst h
        simp [hks.1]
      · simp [h, AList.lookup_insert_ne h]

/-- The second loop rewrites every bucket once. -/
theorem lookup_sortBuckets (h : Underscore uniq sortBy) (refIDs : Buckets) (k : String) :
    ((sortBuckets uniq sortBy refIDs).lookup k).getD [] =
      sortBy (uniq ((refIDs.lookup k).getD [])) := by
  rw [sortBuckets, lookup_foldl_insert (fun ids => sortBy (uniq ids)) _ refIDs.keys_nodup]
  split_ifs with hk
  · rfl
  · have hNone : refIDs.lookup k = none :=
      AList.lookup_eq_none.mpr (fun hm => hk (AList.mem_keys.mp hm))
    rw [hNone]
    exact (List.eq_nil_iff_forall_not_mem.mpr (fun x hx => by simpa using h.mem_iff.mp hx)).symm

/-- Assigning an id changes nothing the loops read. -/
theorem Heap.setID_objects (stringify : Attributes → String) (heap : Heap) (obj : Address)
    (id : String) (a : Address) :
    ((heap.setID obj id).objects a).refID = (heap.objects a).refID ∧
      ((heap.setID obj id).objects a).hash stringify = (heap.objects a).hash stringify ∧
      ((heap.setID obj id).objects a).id = if a = obj then some id else (heap.objects a).id := by
  by_cases h : a = obj
  · subst h
    simp [setID, Container.hash]
  · simp [setID, h]

/-- The third loop gives each container of the array its id, and changes no other. -/
theorem assignIDs_id (refIDs : Buckets) (objs : List Address) (heap : Heap) (a : Address) :
    ((assignIDs sha1 stringify refIDs objs heap).objects a).id =
      if a ∈ objs then
        some (sha1 ((heap.objects a).hash stringify ++
          indexText ((refIDs.lookup ((heap.objects a).hash stringify)).getD [])
            (heap.objects a).refID))
      else (heap.objects a).id := by
  induction objs generalizing heap with
  | nil => simp [assignIDs]
  | cons obj objs ih =>
      simp only [assignIDs]
      rw [ih]
      set id := sha1 ((heap.objects obj).hash stringify ++
        indexText ((refIDs.lookup ((heap.objects obj).hash stringify)).getD [])
          (heap.objects obj).refID) with hID
      obtain ⟨hr, hh, hi⟩ := heap.setID_objects stringify obj id a
      rw [hr, hh, hi]
      by_cases h : a = obj
      · subst h
        simp [hID]
      · simp [h]

/-- The numbers under the hash of `a` that are smaller than its own are those of
the elders of `a`. -/
theorem card_idsOf_lt {heap : Heap} {objs : List Address} (hObjs : ∀ a ∈ objs, a < heap.next)
    (a : Address) :
    ((idsOf stringify heap objs ((heap.objects a).hash stringify)).toFinset.filter
      (· < (heap.objects a).refID)).card = (elders stringify heap objs a).card := by
  have hImage : (idsOf stringify heap objs ((heap.objects a).hash stringify)).toFinset.filter
      (· < (heap.objects a).refID) =
        (elders stringify heap objs a).image (fun obj => (heap.objects obj).refID) := by
    ext r
    simp only [idsOf, elders, Finset.mem_filter, List.mem_toFinset, List.mem_map,
      List.mem_filter, Finset.mem_image, decide_eq_true_eq]
    constructor
    · rintro ⟨⟨obj, ⟨hm, hk⟩, rfl⟩, hLt⟩
      exact ⟨obj, ⟨hm, hk, hLt⟩, rfl⟩
    · rintro ⟨obj, ⟨hm, hk, hLt⟩, rfl⟩
      exact ⟨⟨obj, ⟨hm, hk⟩, rfl⟩, hLt⟩
  rw [hImage, Finset.card_image_of_injOn]
  intro x hx y hy he
  simp only [elders, Finset.coe_filter, List.mem_toFinset, Set.mem_ofPred_eq] at hx hy
  exact heap.refID_inj x (hObjs x hx.1) y (hObjs y hy.1) he

/-- What `setKeldaIDs` computes, whatever the order of the array. -/
theorem setKeldaIDs_spec (sha1 : String → String) (hUnderscore : Underscore uniq sortBy)
    (hEnd : ∀ v, (stringify v).toList.getLast? = some '\x7d') (heap : Heap)
    (objs : List Address) (hObjs : ∀ a ∈ objs, a < heap.next) :
    ∃ next, setKeldaIDs sha1 stringify uniq sortBy heap objs = .ok next ∧
      ∀ a ∈ objs, (next.objects a).id = some
        (keldaID sha1 ((heap.objects a).hash stringify) (elders stringify heap objs a).card) := by
  obtain ⟨refIDs, hRun, hBuckets⟩ := collect_spec hEnd heap objs ∅
  refine ⟨assignIDs sha1 stringify (sortBuckets uniq sortBy refIDs) objs heap, ?_, ?_⟩
  · simp [setKeldaIDs, hRun, bind, Except.bind, pure, Except.pure]
  · intro a ha
    have hIds : ((sortBuckets uniq sortBy refIDs).lookup
        ((heap.objects a).hash stringify)).getD [] =
          sortBy (uniq (idsOf stringify heap objs ((heap.objects a).hash stringify))) := by
      rw [lookup_sortBuckets hUnderscore, hBuckets]
      simp
    have hMem : (heap.objects a).refID ∈
        idsOf stringify heap objs ((heap.objects a).hash stringify) :=
      List.mem_map_of_mem (List.mem_filter.mpr ⟨ha, by simp⟩)
    rw [assignIDs_id, if_pos ha, hIds, indexText, if_pos (hUnderscore.mem_iff.mpr hMem),
      hUnderscore.idxOf hMem, card_idsOf_lt hObjs, keldaID]

end Loops

section Unique

/-- The digits at the end of a text that goes on with a brace. -/
theorem takeWhile_isDigit_reverse {k : String} (hk : k.toList.getLast? = some '\x7d') (n : Nat) :
    (k ++ toString n).toList.reverse.takeWhile Char.isDigit = n.repr.toList.reverse := by
  obtain ⟨rest, hRest⟩ : ∃ rest, k.toList.reverse = '\x7d' :: rest := by
    rw [List.getLast?_eq_head?_reverse] at hk
    exact List.head?_eq_some_iff.mp hk
  have hDigits : ∀ c ∈ n.repr.toList.reverse, c.isDigit := fun c hc =>
    Text.isDigit_of_mem_repr (List.mem_reverse.mp hc)
  have hStop : ('\x7d' : Char).isDigit = false := by decide
  rw [String.toList_append, List.reverse_append, hRest, Nat.toString_eq_repr,
    List.takeWhile_append_of_pos hDigits, List.takeWhile_cons, hStop]
  simp

/-- A text that ends in a brace and a number behind it can be told apart. -/
theorem append_toString_inj {k k' : String} {m n : Nat} (hk : k.toList.getLast? = some '\x7d')
    (hk' : k'.toList.getLast? = some '\x7d') (h : k ++ toString m = k' ++ toString n) :
    k = k' ∧ m = n := by
  have hRepr : m.repr.toList = n.repr.toList := by
    apply List.reverse_injective
    rw [← takeWhile_isDigit_reverse hk, ← takeWhile_isDigit_reverse hk', h]
  have hmn : m = n := by
    have hRead := congrArg Text.readNat hRepr
    rw [Text.readNat_repr, Text.readNat_repr] at hRead
    exact Option.some.inj hRead
  subst hmn
  exact ⟨(String.append_left_inj _).mp h, rfl⟩

variable {sha1 : String → String} {stringify : Attributes → String}
  {uniq sortBy : List Nat → List Nat}

/-- Of two containers with one hash the younger has more elders. -/
theorem elders_card_lt {heap : Heap} {objs : List Address} {a b : Address} (ha : a ∈ objs)
    (hHash : (heap.objects a).hash stringify = (heap.objects b).hash stringify)
    (hLt : (heap.objects a).refID < (heap.objects b).refID) :
    (elders stringify heap objs a).card < (elders stringify heap objs b).card := by
  apply Finset.card_lt_card
  rw [Finset.ssubset_iff_of_subset]
  · refine ⟨a, ?_, ?_⟩ <;> simp [elders, ha, hHash, hLt]
  · intro c hc
    simp only [elders, Finset.mem_filter, List.mem_toFinset] at hc ⊢
    exact ⟨hc.1, hc.2.1.trans hHash, hc.2.2.trans hLt⟩

theorem eq_of_elders_card_eq {heap : Heap} {objs : List Address}
    (hObjs : ∀ a ∈ objs, a < heap.next) {a b : Address} (ha : a ∈ objs) (hb : b ∈ objs)
    (hHash : (heap.objects a).hash stringify = (heap.objects b).hash stringify)
    (hCard : (elders stringify heap objs a).card = (elders stringify heap objs b).card) :
    a = b := by
  apply heap.refID_inj a (hObjs a ha) b (hObjs b hb)
  rcases Nat.lt_trichotomy (heap.objects a).refID (heap.objects b).refID with hLt | he | hLt
  · exact absurd hCard (Nat.ne_of_lt (elders_card_lt ha hHash hLt))
  · exact he
  · exact absurd hCard.symm (Nat.ne_of_lt (elders_card_lt hb hHash.symm hLt))

/-- The elders depend only on which objects with the same hash are in the array. -/
theorem elders_congr {heap : Heap} {objs objs' : List Address} {a : Address}
    (h : ∀ b, (heap.objects b).hash stringify = (heap.objects a).hash stringify →
      (b ∈ objs ↔ b ∈ objs')) :
    elders stringify heap objs a = elders stringify heap objs' a := by
  ext b
  simp only [elders, Finset.mem_filter, List.mem_toFinset]
  constructor
  · rintro ⟨hm, hh, hLt⟩
    exact ⟨(h b hh).mp hm, hh, hLt⟩
  · rintro ⟨hm, hh, hLt⟩
    exact ⟨(h b hh).mpr hm, hh, hLt⟩

/-- The ids of an array of containers. Each is the id that the hash of the object
and the number of its elders determine; two entries have one id exactly when
they are one object; and an object keeps its id in every array, in whatever
order, that holds the same objects with its hash. -/
theorem setKeldaIDs_stable (hSha : Function.Injective sha1)
    (hUnderscore : Underscore uniq sortBy)
    (hEnd : ∀ v, (stringify v).toList.getLast? = some '\x7d') (heap : Heap)
    (objs : List Address) (hObjs : ∀ a ∈ objs, a < heap.next) :
    ∃ next, setKeldaIDs sha1 stringify uniq sortBy heap objs = .ok next ∧
      (∀ a ∈ objs, (next.objects a).id = some (keldaID sha1
        ((heap.objects a).hash stringify) (elders stringify heap objs a).card)) ∧
      (∀ a ∈ objs, ∀ b ∈ objs, (next.objects a).id = (next.objects b).id ↔ a = b) ∧
      (∀ objs', objs.Perm objs' →
        ∃ next', setKeldaIDs sha1 stringify uniq sortBy heap objs' = .ok next' ∧
          ∀ a ∈ objs, (next'.objects a).id = (next.objects a).id) ∧
      ∀ objs', (∀ b ∈ objs', b < heap.next) →
        ∃ next', setKeldaIDs sha1 stringify uniq sortBy heap objs' = .ok next' ∧
          ∀ a ∈ objs, (∀ b, (heap.objects b).hash stringify = (heap.objects a).hash stringify →
            (b ∈ objs ↔ b ∈ objs')) → (next'.objects a).id = (next.objects a).id := by
  obtain ⟨next, hRun, hID⟩ := setKeldaIDs_spec sha1 hUnderscore hEnd heap objs hObjs
  have hStable : ∀ objs', (∀ b ∈ objs', b < heap.next) →
      ∃ next', setKeldaIDs sha1 stringify uniq sortBy heap objs' = .ok next' ∧
        ∀ a ∈ objs, (∀ b, (heap.objects b).hash stringify = (heap.objects a).hash stringify →
          (b ∈ objs ↔ b ∈ objs')) → (next'.objects a).id = (next.objects a).id := by
    intro objs' hObjs'
    obtain ⟨next', hRun', hID'⟩ := setKeldaIDs_spec sha1 hUnderscore hEnd heap objs' hObjs'
    refine ⟨next', hRun', ?_⟩
    intro a ha hSame
    rw [hID a ha, hID' a ((hSame a rfl).mp ha), elders_congr hSame]
  refine ⟨next, hRun, hID, ?_, ?_, hStable⟩
  · intro a ha b hb
    refine ⟨?_, fun he => he ▸ rfl⟩
    rw [hID a ha, hID b hb, Option.some.injEq]
    intro he
    obtain ⟨hHash, hCard⟩ := append_toString_inj (hEnd _) (hEnd _) (hSha he)
    exact eq_of_elders_card_eq hObjs ha hb hHash hCard
  · intro objs' hPerm
    obtain ⟨next', hRun', hID'⟩ := hStable objs' (fun b hb => hObjs b (hPerm.mem_iff.mpr hb))
    exact ⟨next', hRun', fun a ha => hID' a ha (fun b _ => hPerm.mem_iff)⟩

end Unique

section Pair

/-- A container without attributes of its own. -/
def plain (image hostname : String) : Attributes :=
  ⟨⟨image, ""⟩, [], ∅, ∅, hostname⟩

/-- Two containers with the same attributes, and one with others. -/
def trio : Heap :=
  ((((Heap.empty ⟨0, plain "" "", none⟩).newContainer (plain "nginx" "web")).2.newContainer
    (plain "nginx" "web")).2.newContainer (plain "redis" "db")).2

/-- What `json-stable-stringify` gives for a `plain` container with names that need
no escapes. -/
def plainText (attributes : Attributes) : String :=
  "\x7b\"command\":[],\"env\":\x7b\x7d,\"filepathToContent\":\x7b\x7d,\"hostname\":\"" ++
    attributes.hostname ++ "\",\"image\":\x7b\"dockerfile\":\"\",\"name\":\"" ++
    attributes.image.name ++ "\"\x7d\x7d"

theorem plainText_end (attributes : Attributes) :
    (plainText attributes).toList.getLast? = some '\x7d' := by
  have hLast : "\"\x7d\x7d".toList.getLast? = some '\x7d' := by decide
  have hAppend : ∀ s t : String, t.toList.getLast? = some '\x7d' →
      (s ++ t).toList.getLast? = some '\x7d' := by
    intro s t ht
    rw [String.toList_append, List.getLast?_append, ht, Option.some_or]
  exact hAppend _ _ hLast

/-- The first of equal numbers is kept. -/
theorem underscore_dedup :
    Underscore (fun ids => ids.reverse.dedup.reverse) (List.insertionSort (· ≤ ·)) where
  uniq_nodup := fun ids => List.nodup_reverse.mpr (List.nodup_dedup _)
  mem_uniq := by simp
  sortBy_perm := List.perm_insertionSort _
  sortBy_sorted := List.pairwise_insertionSort _

theorem setKeldaIDs_stable_trio :
    Function.Injective (id : String → String) ∧
      ∃ next, setKeldaIDs id plainText (fun ids => ids.reverse.dedup.reverse)
          (List.insertionSort (· ≤ ·)) trio [1, 2, 0, 1] = .ok next ∧
        (next.objects 0).id ≠ (next.objects 1).id ∧
        (next.objects 1).id = some (plainText (plain "nginx" "web") ++ "1") := by
  refine ⟨Function.injective_id, ?_⟩
  obtain ⟨next, hRun, hID, hUnique, -⟩ := setKeldaIDs_stable Function.injective_id
    underscore_dedup plainText_end trio [1, 2, 0, 1] (by decide)
  refine ⟨next, hRun, ?_, ?_⟩
  · rw [ne_eq, hUnique 0 (by decide) 1 (by decide)]
    decide
  · have hElders : (elders plainText trio [1, 2, 0, 1] 1).card = 1 := by decide +kernel
    have hHash : (trio.objects 1).hash plainText = plainText (plain "nginx" "web") :=
      congrArg plainText rfl
    have hRank : toString 1 = "1" := rfl
    rw [hID 1 (by decide), hElders, keldaID, hHash, hRank, id_eq]

end Pair

end Kelda.Bindings
