import Mathlib.Data.List.AList
import Mathlib.Data.List.Perm.Basic
import Mathlib.Data.List.FinRange

/-! Hash maps of a language whose runtime chooses the order of every walk. A
program that ranges over a map is given the choice as an argument; what it may
rely on is that each entry is visited exactly once. Maps are often filled from
a list by a key, where a later element replaces an earlier one. -/

/-- One choice of the order in which the entries of a map are visited. It may
depend on the entries in any way. -/
structure MapOrder where
  walk : {α : Type} → List α → List α
  perm : ∀ {α : Type} (entries : List α), (walk entries).Perm entries

namespace MapOrder

variable (ord : MapOrder) {α : Type}

/-- The order in which the entries are stored. -/
def stored : MapOrder := ⟨fun entries => entries, fun _ => List.Perm.refl _⟩

/-- The opposite order. -/
def reversed : MapOrder := ⟨List.reverse, List.reverse_perm⟩

@[simp] theorem mem_walk {entries : List α} {a : α} : a ∈ ord.walk entries ↔ a ∈ entries :=
  (ord.perm entries).mem_iff

theorem nodup_walk_map {β : Type} {entries : List α} {f : α → β}
    (h : (entries.map f).Nodup) : ((ord.walk entries).map f).Nodup :=
  ((ord.perm entries).map f).nodup_iff.mpr h

/-- Visit the first entry first and the others in the given order. -/
def keepFirst : MapOrder where
  walk
    | [] => []
    | a :: entries => a :: ord.walk entries
  perm
    | [] => List.Perm.refl _
    | a :: entries => (ord.perm entries).cons a

/-- Exchange the first two entries. -/
def swapFirst : MapOrder where
  walk
    | a :: b :: entries => b :: a :: entries
    | entries => entries
  perm
    | a :: b :: entries => List.Perm.swap a b entries
    | [] => List.Perm.refl _
    | [_] => List.Perm.refl _

/-- Apply one order to what another one has arranged. -/
def comp (ord ord' : MapOrder) : MapOrder where
  walk := fun entries => ord.walk (ord'.walk entries)
  perm := fun entries => (ord.perm _).trans (ord'.perm entries)

/-- The runtime may visit the entries in every order. -/
theorem exists_walk_eq {entries visited : List α} (h : entries.Perm visited) :
    ∃ ord : MapOrder, ord.walk entries = visited := by
  induction h with
  | nil => exact ⟨stored, rfl⟩
  | cons a h ih =>
      obtain ⟨ord, rfl⟩ := ih
      exact ⟨ord.keepFirst, rfl⟩
  | swap a b entries => exact ⟨swapFirst, rfl⟩
  | trans h h' ih ih' =>
      obtain ⟨ord, rfl⟩ := ih
      obtain ⟨ord', rfl⟩ := ih'
      exact ⟨ord'.comp ord, rfl⟩

/-- Each entry may be visited first. -/
theorem exists_walk_first {entries : List α} {a : α} (h : a ∈ entries) :
    ∃ (ord : MapOrder) (rest : List α), ord.walk entries = a :: rest := by
  obtain ⟨before, after, rfl⟩ := List.append_of_mem h
  have hPerm : (before ++ a :: after).Perm (a :: (before ++ after)) := List.perm_middle
  obtain ⟨ord, hWalk⟩ := exists_walk_eq hPerm
  exact ⟨ord, before ++ after, hWalk⟩

/-- Each entry may be visited last. -/
theorem exists_walk_last {entries : List α} {a : α} (h : a ∈ entries) :
    ∃ (ord : MapOrder) (rest : List α), ord.walk entries = rest ++ [a] := by
  obtain ⟨ord, rest, hWalk⟩ := exists_walk_first h
  exact ⟨reversed.comp ord, rest.reverse, by simp [comp, reversed, hWalk]⟩

end MapOrder

/-- A loop that only adds: what holds at the end held before or comes from an
element. -/
theorem List.foldl_iff {α β : Type} {f : β → α → β} {P : β → Prop} {Q : α → Prop}
    (hStep : ∀ b a, P (f b a) ↔ P b ∨ Q a) (l : List α) (b : β) :
    P (l.foldl f b) ↔ P b ∨ ∃ a ∈ l, Q a := by
  induction l generalizing b with
  | nil => simp
  | cons a l ih => simp [ih, hStep, or_assoc]

/-- A list that is a permutation of an image is the image of a permutation. -/
theorem List.Perm.exists_map_eq {α β : Type} {f : α → β} {l : List β} {l' : List α}
    (h : l.Perm (l'.map f)) : ∃ m : List α, m.Perm l' ∧ l = m.map f := by
  have hImage : List.Forall₂ (fun b a => b = f a) (l'.map f) l' := by
    rw [List.forall₂_map_left_iff, List.forall₂_same]
    exact fun _ _ => rfl
  obtain ⟨m, hm, hPerm⟩ := List.perm_comp_forall₂ h hImage
  refine ⟨m, hPerm, ?_⟩
  rw [← List.map_id l]
  exact List.forall₂_eq_eq_eq ▸ (List.forall₂_map_left_iff.mpr (List.forall₂_map_right_iff.mpr hm))

theorem List.eq_of_map_eq {α β : Type} {f : α → β} {l l' : List α}
    (hInj : ∀ a ∈ l, ∀ a' ∈ l', f a = f a' → a = a') (h : l.map f = l'.map f) : l = l' := by
  induction l generalizing l' with
  | nil => exact (List.map_eq_nil_iff.mp h.symm).symm
  | cons a l ih =>
      cases l' with
      | nil => simp at h
      | cons a' l' =>
          obtain ⟨hHead, hTail⟩ := List.cons.inj h
          rw [hInj a List.mem_cons_self a' List.mem_cons_self hHead, ih _ hTail]
          intro b hb b' hb'
          exact hInj b (List.mem_cons_of_mem _ hb) b' (List.mem_cons_of_mem _ hb')

/-- Elements that their keys tell apart are the same if their keys are. -/
theorem List.Perm.of_map_perm {α β : Type} {f : α → β} {l l' : List α}
    (hInj : ∀ a ∈ l, ∀ a' ∈ l', f a = f a' → a = a') (h : (l.map f).Perm (l'.map f)) :
    l.Perm l' := by
  obtain ⟨m, hm, hMap⟩ := h.exists_map_eq
  rwa [List.eq_of_map_eq (fun a ha a' ha' => hInj a ha a' (hm.mem_iff.mp ha')) hMap]

/-- If some elements are to be kept and the others to be removed, those to be
kept remain. -/
theorem List.filter_notMem_perm {α κ : Type} [DecidableEq κ] {f : α → κ} {rs keep olds : List α}
    (hNodup : (rs.map f).Nodup) (h : (keep ++ olds).Perm rs) :
    (rs.filter (fun r => f r ∉ olds.map f)).Perm keep := by
  rw [← (h.map f).nodup_iff, List.map_append] at hNodup
  have hDisjoint := (List.nodup_append'.mp hNodup).2.2
  refine (h.filter _).symm.trans ?_
  rw [List.filter_append, List.filter_eq_self.mpr, List.filter_eq_nil_iff.mpr, List.append_nil]
  · intro r hr
    simpa using List.mem_map_of_mem (f := f) hr
  · intro r hr
    exact decide_eq_true (fun hm => hDisjoint (List.mem_map_of_mem hr) hm)

namespace KeyedMap

variable {α κ : Type}

/-- A loop over a list is a loop over its indices. -/
theorem foldl_get {δ : Type} (f : δ → α → δ) (d : δ) (L : List α) :
    L.foldl f d = (List.finRange L.length).foldl (fun d i => f d (L.get i)) d := by
  rw [← List.foldl_map (f := L.get) (g := f), List.map_get_finRange]

/-- The entry of an index. -/
abbrev entry (L : List α) (key : α → κ) (i : Fin L.length) : Σ _ : κ, α :=
  ⟨key (L.get i), L.get i⟩

theorem keys_map_entry {L : List α} {key : α → κ} (T : List (Fin L.length)) :
    (T.map (entry L key)).keys = T.map (fun i => key (L.get i)) := by
  simp [List.keys, Function.comp_def]

variable [DecidableEq κ]

/-- Fill a map from a list. A later element replaces an earlier one with the
same key. -/
def fill (key : α → κ) (L : List α) : AList (fun _ : κ => α) :=
  L.foldl (fun m x => m.insert (key x) x) ∅

/-- The last element is never replaced. -/
theorem lookup_fill_append (key : α → κ) (L : List α) (x : α) :
    (fill key (L ++ [x])).lookup (key x) = some x := by
  rw [fill, List.foldl_append, List.foldl_cons, List.foldl_nil, AList.lookup_insert]

/-- Removing a key from a table of entries removes an index with that key. -/
theorem kerase_map_entry {L : List α} {key : α → κ} (k : κ) (T : List (Fin L.length)) :
    List.kerase k (T.map (entry L key)) =
      (T.eraseP (fun i => k = key (L.get i))).map (entry L key) := by
  rw [List.kerase, List.eraseP_map]
  rfl

/-- The filled map holds one index for every key that occurs. -/
theorem fill_indices (key : α → κ) (L : List α) :
    ∃ T : List (Fin L.length), (fill key L).entries = T.map (entry L key) ∧
      ∀ i, ∃ i' ∈ T, key (L.get i') = key (L.get i) := by
  have hFold : ∀ (is : List (Fin L.length)) (t : AList (fun _ : κ => α)) (T : List (Fin L.length)),
      t.entries = T.map (entry L key) →
      ∃ T' : List (Fin L.length),
        (is.foldl (fun t i => t.insert (key (L.get i)) (L.get i)) t).entries =
          T'.map (entry L key) ∧
        ∀ i, i ∈ is ∨ (∃ i' ∈ T, key (L.get i') = key (L.get i)) →
          ∃ i' ∈ T', key (L.get i') = key (L.get i) := by
    intro is
    induction is with
    | nil => exact fun t T h => ⟨T, h, by simp⟩
    | cons j is ih =>
        intro t T h
        have hInsert : (t.insert (key (L.get j)) (L.get j)).entries =
            (j :: T.eraseP (fun i => key (L.get j) = key (L.get i))).map (entry L key) := by
          rw [AList.entries_insert, h, kerase_map_entry]
          rfl
        obtain ⟨T', hT', hCover⟩ := ih _ _ hInsert
        refine ⟨T', hT', fun i hi => hCover i ?_⟩
        by_cases hKey : key (L.get j) = key (L.get i)
        · exact Or.inr ⟨j, List.mem_cons_self .., hKey⟩
        · rcases hi with hi | ⟨i', hi', hEq⟩
          · exact (List.mem_cons.mp hi).elim (fun h => (hKey (h ▸ rfl)).elim) Or.inl
          · refine Or.inr ⟨i', List.mem_cons_of_mem _ ?_, hEq⟩
            rw [List.mem_eraseP_of_neg (by simpa only [hEq, decide_eq_true_eq] using hKey)]
            exact hi'
  obtain ⟨T, hT, hCover⟩ := hFold (List.finRange L.length) ∅ [] rfl
  refine ⟨T, ?_, fun i => hCover i (Or.inl (List.mem_finRange i))⟩
  rw [← hT, fill, foldl_get]

/-- Every entry of a filled map is an element under its own key. -/
theorem mem_fill {key : α → κ} {L : List α} {e : Σ _ : κ, α} (h : e ∈ (fill key L).entries) :
    e.2 ∈ L ∧ key e.2 = e.1 := by
  obtain ⟨T, hT, -⟩ := fill_indices key L
  rw [hT] at h
  obtain ⟨i, -, rfl⟩ := List.mem_map.mp h
  exact ⟨List.get_mem L i, rfl⟩

theorem mem_fill_iff {key : α → κ} {L : List α} {k : κ} : k ∈ fill key L ↔ k ∈ L.map key := by
  obtain ⟨T, hT, hCover⟩ := fill_indices key L
  rw [AList.mem_keys, AList.keys, hT, keys_map_entry, List.mem_map, List.mem_map]
  constructor
  · rintro ⟨i, -, rfl⟩
    exact ⟨L.get i, List.get_mem L i, rfl⟩
  · rintro ⟨x, hx, rfl⟩
    obtain ⟨i, rfl⟩ := List.get_of_mem hx
    exact hCover i

/-- With distinct keys nothing is replaced. -/
theorem fill_perm {key : α → κ} {L : List α} (h : (L.map key).Nodup) :
    ((fill key L).entries.map Sigma.snd).Perm L := by
  have hKeys : ((fill key L).entries.map Sigma.snd).map key = (fill key L).keys := by
    rw [AList.keys, List.keys, List.map_map]
    exact List.map_congr_left (fun e he => (mem_fill he).2)
  have hNodup : (((fill key L).entries.map Sigma.snd).map key).Nodup :=
    hKeys ▸ (fill key L).keys_nodup
  refine (List.perm_ext_iff_of_nodup (hNodup.of_map _) (h.of_map _)).mpr (fun x => ?_)
  constructor
  · intro hx
    obtain ⟨e, he, rfl⟩ := List.mem_map.mp hx
    exact (mem_fill he).1
  · intro hx
    have hMem : key x ∈ ((fill key L).entries.map Sigma.snd).map key := by
      rw [hKeys, ← AList.mem_keys, mem_fill_iff]
      exact List.mem_map_of_mem hx
    obtain ⟨y, hy, hEq⟩ := List.mem_map.mp hMem
    obtain ⟨e, he, rfl⟩ := List.mem_map.mp hy
    rwa [← List.inj_on_of_nodup_map h (mem_fill he).1 hx hEq]

/-- With distinct keys a lookup finds exactly the element with the key. -/
theorem lookup_fill_iff {key : α → κ} {L : List α} (h : (L.map key).Nodup) {k : κ} {x : α} :
    (fill key L).lookup k = some x ↔ x ∈ L ∧ key x = k := by
  rw [← Option.mem_def, AList.mem_lookup_iff]
  constructor
  · exact fun hm => mem_fill hm
  · rintro ⟨hx, rfl⟩
    have hValue := (fill_perm h).mem_iff.mpr hx
    obtain ⟨⟨k', y⟩, he, hEq⟩ := List.mem_map.mp hValue
    obtain rfl : y = x := hEq
    obtain rfl : key y = k' := (mem_fill he).2
    exact he

end KeyedMap
