import Mathlib.Data.Finmap
import Mathlib.Data.Finset.Sort
import Mathlib.Data.String.Basic
import Kelda.Lib.HashMap

/-! Maps with string keys that are compared as maps, without an order of their
entries. A walk over such a map takes its entries in the order of the keys and
rearranges them as the runtime chooses. -/
namespace StringKeyed

variable {α β : Type}

/-- The entries of a map, sorted by their keys. -/
def sortedEntries (m : Finmap (fun _ : String => α)) : List (String × α) :=
  (m.keys.sort (· ≤ ·)).filterMap (fun key => (m.lookup key).map (fun a => (key, a)))

/-- The entries of a map in the order of a walk. -/
def range (ord : MapOrder) (m : Finmap (fun _ : String => α)) : List (String × α) :=
  ord.walk (sortedEntries m)

/-- Assign the entries to a new map one after another. -/
def assign (es : List (String × α)) : AList (fun _ : String => α) :=
  es.foldl (fun m e => m.insert e.1 e.2) ∅

/-- The same for a map without an order. -/
def ofEntries (es : List (String × α)) : Finmap (fun _ : String => α) :=
  es.foldl (fun m e => m.insert e.1 e.2) ∅

theorem mem_sortedEntries {m : Finmap (fun _ : String => α)} {e : String × α} :
    e ∈ sortedEntries m ↔ m.lookup e.1 = some e.2 := by
  simp only [sortedEntries, List.mem_filterMap, Finset.mem_sort, Option.map_eq_some_iff]
  constructor
  · rintro ⟨key, -, a, hLookup, rfl⟩
    exact hLookup
  · intro h
    have hKey : e.1 ∈ m.keys := Finmap.mem_keys.mpr (Finmap.mem_of_lookup_eq_some h)
    exact ⟨e.1, hKey, e.2, h, rfl⟩

@[simp] theorem sortedEntries_empty : sortedEntries (∅ : Finmap (fun _ : String => α)) = [] := by
  simp [sortedEntries]

theorem nodup_sortedEntries (m : Finmap (fun _ : String => α)) :
    ((sortedEntries m).map Prod.fst).Nodup := by
  rw [sortedEntries, List.map_filterMap]
  refine List.Nodup.filterMap ?_ (Finset.sort_nodup ..)
  intro key key' first h h'
  simp only [Option.map_map, Option.mem_def, Option.map_eq_some_iff, Function.comp] at h h'
  obtain ⟨-, -, rfl⟩ := h
  obtain ⟨-, -, rfl⟩ := h'
  rfl

/-- The entries are known from their keys being sorted. -/
theorem sortedEntries_eq {m : Finmap (fun _ : String => α)} {es : List (String × α)}
    (hSorted : (es.map Prod.fst).Pairwise (· < ·))
    (hMem : ∀ e, e ∈ es ↔ m.lookup e.1 = some e.2) : sortedEntries m = es := by
  have hLess : (sortedEntries m).Pairwise (fun e e' => e.1 < e'.1) := by
    apply List.Pairwise.filterMap _ _ (Finset.sortedLT_sort m.keys).pairwise
    intro key key' hKeys e he e' he'
    simp only [Option.map_eq_some_iff] at he he'
    obtain ⟨-, -, rfl⟩ := he
    obtain ⟨-, -, rfl⟩ := he'
    exact hKeys
  apply List.Perm.eq_of_pairwise (fun e e' _ _ h h' => absurd h (not_lt_of_gt h')) hLess
    (List.pairwise_map.mp hSorted)
  have hNodup : (es.map Prod.fst).Nodup := hSorted.imp (fun h => ne_of_lt h)
  rw [List.perm_ext_iff_of_nodup (nodup_sortedEntries m).of_map hNodup.of_map]
  intro e
  rw [mem_sortedEntries, hMem]

theorem range_perm (ord : MapOrder) (m : Finmap (fun _ : String => α)) :
    (range ord m).Perm (sortedEntries m) := ord.perm _

theorem range_perm_range (ord ord' : MapOrder) (m : Finmap (fun _ : String => α)) :
    (range ord m).Perm (range ord' m) :=
  (range_perm ord m).trans (range_perm ord' m).symm

@[simp] theorem mem_range {ord : MapOrder} {m : Finmap (fun _ : String => α)} {e : String × α} :
    e ∈ range ord m ↔ m.lookup e.1 = some e.2 := by
  rw [range, MapOrder.mem_walk, mem_sortedEntries]

@[simp] theorem range_empty (ord : MapOrder) :
    range ord (∅ : Finmap (fun _ : String => α)) = [] := by
  rw [range, sortedEntries_empty]
  exact List.perm_nil.mp (ord.perm [])

theorem nodup_range (ord : MapOrder) (m : Finmap (fun _ : String => α)) :
    ((range ord m).map Prod.fst).Nodup :=
  ord.nodup_walk_map (nodup_sortedEntries m)

/-- A selection of the entries that keeps their keys. -/
theorem nodup_filterMap {f : String × α → Option (String × β)} {es : List (String × α)}
    (hKey : ∀ e e', f e = some e' → e'.1 = e.1) (h : (es.map Prod.fst).Nodup) :
    ((es.filterMap f).map Prod.fst).Nodup := by
  rw [List.Nodup, List.pairwise_map] at h ⊢
  apply h.filterMap
  intro e e' hNe b hb b' hb'
  rw [hKey e b hb, hKey e' b' hb']
  exact hNe

/-- Entries with distinct keys are all there at the end. -/
theorem assign_perm {es : List (String × α)} (h : (es.map Prod.fst).Nodup) :
    (assign es).entries.Perm (es.map (fun e => ⟨e.1, e.2⟩)) := by
  have hAll : ∀ (es : List (String × α)) (m : AList (fun _ : String => α)),
      (es.map Prod.fst).Nodup → (∀ e ∈ es, e.1 ∉ m) →
      (es.foldl (fun m e => m.insert e.1 e.2) m).entries.Perm
        (es.map (fun e => (⟨e.1, e.2⟩ : Σ _ : String, α)) ++ m.entries) := by
    intro es
    induction es with
    | nil => exact fun _ _ _ => List.Perm.refl _
    | cons e es ih =>
        intro m hNodup hNew
        rw [List.map_cons, List.nodup_cons] at hNodup
        refine (ih (m.insert e.1 e.2) hNodup.2 ?_).trans ?_
        · intro e' he' hMem
          rcases AList.mem_insert _ |>.mp hMem with hEq | hMem
          · exact hNodup.1 (hEq ▸ List.mem_map_of_mem he')
          · exact hNew e' (List.mem_cons_of_mem _ he') hMem
        · rw [AList.entries_insert_of_notMem (hNew e (List.mem_cons_self ..)), List.map_cons,
            List.cons_append]
          exact List.perm_middle
  have hStart := hAll es ∅ h (fun e _ hMem => by simp at hMem)
  simpa [assign] using hStart

theorem lookup_assign {es : List (String × α)} (h : (es.map Prod.fst).Nodup) {key : String}
    {a : α} : (assign es).lookup key = some a ↔ (key, a) ∈ es := by
  rw [← Option.mem_def, AList.mem_lookup_iff, (assign_perm h).mem_iff, List.mem_map]
  constructor
  · rintro ⟨e, he, hEq⟩
    cases hEq
    exact he
  · intro he
    exact ⟨_, he, rfl⟩

/-- The keys may be computed from the elements. -/
theorem lookup_foldl_insert {γ : Type} {key : γ → String} {val : γ → α} {es : List γ}
    (h : (es.map key).Nodup) {k : String} {a : α} :
    (es.foldl (fun m e => m.insert (key e) (val e)) (∅ : Finmap (fun _ : String => α))).lookup k =
      some a ↔ ∃ e ∈ es, key e = k ∧ val e = a := by
  induction es using List.reverseRecOn with
  | nil => simp
  | append_singleton es e ih =>
      rw [List.map_append, List.map_singleton, List.nodup_append_comm, List.singleton_append,
        List.nodup_cons] at h
      rw [List.foldl_append, List.foldl_cons, List.foldl_nil]
      by_cases hKey : k = key e
      · rw [hKey, Finmap.lookup_insert]
        constructor
        · intro hVal
          exact ⟨e, by simp, rfl, Option.some.inj hVal⟩
        · rintro ⟨e', he', hEq, rfl⟩
          rcases List.mem_append.mp he' with he' | he'
          · exact absurd (hEq ▸ List.mem_map_of_mem he') h.1
          · rw [List.mem_singleton.mp he']
      · rw [Finmap.lookup_insert_of_ne _ hKey, ih h.2]
        constructor
        · rintro ⟨e', he', hEq⟩
          exact ⟨e', List.mem_append_left _ he', hEq⟩
        · rintro ⟨e', he', hEq, hVal⟩
          rcases List.mem_append.mp he' with he' | he'
          · exact ⟨e', he', hEq, hVal⟩
          · rw [List.mem_singleton.mp he'] at hEq
            exact absurd hEq.symm hKey

theorem sortedEntries_ofEntries {es : List (String × α)}
    (hSorted : (es.map Prod.fst).Pairwise (· < ·)) : sortedEntries (ofEntries es) = es := by
  apply sortedEntries_eq hSorted
  intro e
  rw [ofEntries, lookup_foldl_insert (hSorted.imp (fun h => ne_of_lt h))]
  constructor
  · intro he
    exact ⟨e, he, rfl, rfl⟩
  · rintro ⟨e', he', hKey, hVal⟩
    rwa [← Prod.ext hKey hVal]

end StringKeyed
