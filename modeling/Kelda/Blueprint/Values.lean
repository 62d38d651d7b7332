import Kelda.DB.Rows
import Kelda.Lib.StringMap
import Kelda.Util.Str

/-! The values of the maps of a container: their texts, and the division into
plain strings and references to secrets. -/
namespace Kelda.Blueprint

open StringKeyed

def ContainerValue.toString : ContainerValue → String
  | .string value => value
  | .secret nameOfSecret => "Secret: " ++ nameOfSecret

/-- The entries with the texts of their values. -/
def valueTexts (es : List (String × ContainerValue)) : List (String × String) :=
  es.map (fun e => (e.1, e.2.toString))

/-- The text of a map, by way of a map of texts. -/
def valueMapAsString (ords : Nat → MapOrder) (m : StringMap ContainerValue) : String :=
  Str.mapAsString (ords 1) (assign (valueTexts (range (ords 0) m)))

def rawStringEntry : String × ContainerValue → Option (String × String)
  | (name, .string value) => some (name, value)
  | (_, .secret _) => none

def secretEntry : String × ContainerValue → Option (String × String)
  | (_, .string _) => none
  | (name, .secret nameOfSecret) => some (name, nameOfSecret)

/-- Two maps, one of string values, and one of secrets. -/
def divideContainerValues (ord : MapOrder) (vals : StringMap ContainerValue) :
    AList (fun _ : String => String) × AList (fun _ : String => String) :=
  (assign ((range ord vals).filterMap rawStringEntry),
    assign ((range ord vals).filterMap secretEntry))

section Texts

/-- The entries of a map of strings, as `mapAsString` joins them. -/
def sortedTexts (es : List (String × String)) : List String :=
  (es.map (fun e => e.1 ++ "=" ++ e.2)).insertionSort (· ≤ ·)

theorem sortedTexts_perm {es es' : List (String × String)} (h : es.Perm es') :
    sortedTexts es = sortedTexts es' :=
  Str.insertionSort_eq ((h.map _).trans (List.perm_insertionSort (· ≤ ·) _).symm)
    (List.pairwise_insertionSort (· ≤ ·) _)

theorem mapAsString_assign (ord : MapOrder) {es : List (String × String)}
    (h : (es.map Prod.fst).Nodup) :
    Str.mapAsString ord (assign es) = "[" ++ " ".intercalate (sortedTexts es) ++ "]" := by
  apply Str.mapAsString_eq
  · refine ((assign_perm h).map Str.entryText).trans ?_
    rw [List.map_map]
    exact (List.perm_insertionSort (· ≤ ·) _).symm
  · exact List.pairwise_insertionSort (· ≤ ·) _

theorem keys_valueTexts (es : List (String × ContainerValue)) :
    (valueTexts es).map Prod.fst = es.map Prod.fst := by
  rw [valueTexts, List.map_map]
  rfl

/-- The texts of the entries of a map, sorted and joined. -/
def valuesText (m : StringMap ContainerValue) : String :=
  " ".intercalate (sortedTexts (valueTexts (sortedEntries m)))

/-- The text does not depend on the walks. -/
theorem valueMapAsString_eq (ords : Nat → MapOrder) (m : StringMap ContainerValue) :
    valueMapAsString ords m = "[" ++ valuesText m ++ "]" := by
  have hNodup : ((valueTexts (range (ords 0) m)).map Prod.fst).Nodup := by
    rw [keys_valueTexts]
    exact nodup_range _ _
  have hPerm : (valueTexts (range (ords 0) m)).Perm (valueTexts (sortedEntries m)) :=
    (range_perm (ords 0) m).map _
  rw [valueMapAsString, mapAsString_assign _ hNodup, sortedTexts_perm hPerm, valuesText]

end Texts

section Division

variable {ord : MapOrder} {vals : StringMap ContainerValue}

/-- The entries of a map that are plain strings. -/
def rawStrings (vals : StringMap ContainerValue) : List (String × String) :=
  (sortedEntries vals).filterMap rawStringEntry

theorem rawStringEntry_eq_some {e : String × ContainerValue} {e' : String × String} :
    rawStringEntry e = some e' ↔ e = (e'.1, .string e'.2) := by
  obtain ⟨name, value⟩ := e
  cases value with
  | string value => simp [rawStringEntry, Prod.ext_iff]
  | secret nameOfSecret => simp [rawStringEntry]

theorem secretEntry_eq_some {e : String × ContainerValue} {e' : String × String} :
    secretEntry e = some e' ↔ e = (e'.1, .secret e'.2) := by
  obtain ⟨name, value⟩ := e
  cases value with
  | string value => simp [secretEntry]
  | secret nameOfSecret => simp [secretEntry, Prod.ext_iff]

theorem nodup_rawStringEntries (ord : MapOrder) (vals : StringMap ContainerValue) :
    (((range ord vals).filterMap rawStringEntry).map Prod.fst).Nodup := by
  apply nodup_filterMap _ (nodup_range ord vals)
  intro e e' h
  rw [rawStringEntry_eq_some.mp h]

theorem nodup_secretEntries (ord : MapOrder) (vals : StringMap ContainerValue) :
    (((range ord vals).filterMap secretEntry).map Prod.fst).Nodup := by
  apply nodup_filterMap _ (nodup_range ord vals)
  intro e e' h
  rw [secretEntry_eq_some.mp h]

theorem mem_rawStringEntries {e : String × String} :
    e ∈ (range ord vals).filterMap rawStringEntry ↔ vals.lookup e.1 = some (.string e.2) := by
  simp only [List.mem_filterMap, rawStringEntry_eq_some, exists_eq_right, mem_range]

theorem mem_secretEntries {e : String × String} :
    e ∈ (range ord vals).filterMap secretEntry ↔ vals.lookup e.1 = some (.secret e.2) := by
  simp only [List.mem_filterMap, secretEntry_eq_some, exists_eq_right, mem_range]

/-- The plain strings are those of the map. -/
theorem mem_divide_raw {e : Σ _ : String, String} :
    e ∈ (divideContainerValues ord vals).1.entries ↔ vals.lookup e.1 = some (.string e.2) := by
  rw [divideContainerValues, ← AList.mem_lookup_iff, Option.mem_def,
    lookup_assign (nodup_rawStringEntries ord vals), mem_rawStringEntries]

theorem mem_divide_secret {e : Σ _ : String, String} :
    e ∈ (divideContainerValues ord vals).2.entries ↔ vals.lookup e.1 = some (.secret e.2) := by
  rw [divideContainerValues, ← AList.mem_lookup_iff, Option.mem_def,
    lookup_assign (nodup_secretEntries ord vals), mem_secretEntries]

theorem divide_raw_perm (ord ord' : MapOrder) (vals : StringMap ContainerValue) :
    (divideContainerValues ord vals).1.entries.Perm (divideContainerValues ord' vals).1.entries := by
  rw [List.perm_ext_iff_of_nodup (AList.nodupKeys _).of_map (AList.nodupKeys _).of_map]
  intro e
  rw [mem_divide_raw, mem_divide_raw]

theorem divide_secret_perm (ord ord' : MapOrder) (vals : StringMap ContainerValue) :
    (divideContainerValues ord vals).2.entries.Perm (divideContainerValues ord' vals).2.entries := by
  rw [List.perm_ext_iff_of_nodup (AList.nodupKeys _).of_map (AList.nodupKeys _).of_map]
  intro e
  rw [mem_divide_secret, mem_divide_secret]

/-- Their text does not depend on the walks. -/
theorem mapAsString_divide (ord' : MapOrder) :
    Str.mapAsString ord' (divideContainerValues ord vals).1 =
      "[" ++ " ".intercalate (sortedTexts (rawStrings vals)) ++ "]" := by
  have hPerm : ((range ord vals).filterMap rawStringEntry).Perm (rawStrings vals) :=
    (range_perm ord vals).filterMap _
  rw [divideContainerValues, mapAsString_assign _ (nodup_rawStringEntries ord vals),
    sortedTexts_perm hPerm]

end Division

end Kelda.Blueprint
