import Kelda.Kubernetes.Deployment
import Kelda.Lib.FirstOf

/-! A file of a container is a mount of a volume, and the volume is a config map
that was made for some container whose files have the same text. -/
namespace Kelda.Kubernetes

open DB Minion

variable {sha1 : String → String} {files : StringMap Blueprint.ContainerValue}

/-- Some of the files are plain strings. -/
def HasPlainFile (files : StringMap Blueprint.ContainerValue) : Prop :=
  ∃ path content, files.lookup path = some (.string content)

theorem divide_raw_ne_nil (ord : MapOrder) :
    (Blueprint.divideContainerValues ord files).1.entries ≠ [] ↔ HasPlainFile files := by
  constructor
  · intro h
    obtain ⟨e, he⟩ := List.exists_mem_of_ne_nil _ h
    exact ⟨e.1, e.2, Blueprint.mem_divide_raw.mp he⟩
  · rintro ⟨path, content, h⟩
    have he : ⟨path, content⟩ ∈ (Blueprint.divideContainerValues ord files).1.entries :=
      Blueprint.mem_divide_raw.mpr h
    exact List.ne_nil_of_mem he

section ConfigMaps

/-- The texts of the plain files, sorted and joined. -/
def filesText (files : StringMap Blueprint.ContainerValue) : String :=
  " ".intercalate (Blueprint.sortedTexts (Blueprint.rawStrings files))

/-- The config map of a container. -/
def configOf (sha1 : String → String) (ords : Nat → MapOrder)
    (files : StringMap Blueprint.ContainerValue) : ConfigMap :=
  makeConfigMap sha1 (laterOrders ords 1) (Blueprint.divideContainerValues (ords 0) files).1

theorem configMapName_divide (ord ord' : MapOrder) :
    configMapName sha1 ord' (Blueprint.divideContainerValues ord files).1 =
      sha1 ("[" ++ filesText files ++ "]") := by
  rw [configMapName, Blueprint.mapAsString_divide, filesText]

theorem configOf_name (ords : Nat → MapOrder) :
    (configOf sha1 ords files).name = sha1 ("[" ++ filesText files ++ "]") :=
  configMapName_divide _ _

/-- A config map has the files under the hashes of their paths. -/
theorem configOf_data (hSha : Function.Injective sha1) (ords : Nat → MapOrder)
    {path content : String} :
    (configOf sha1 ords files).data.lookup (configMapKey sha1 path) = some content ↔
      files.lookup path = some (.string content) := by
  have hKeys : (((laterOrders ords 1 1).walk (Blueprint.divideContainerValues (ords 0)
      files).1.entries).map (fun e => configMapKey sha1 e.1)).Nodup := by
    apply MapOrder.nodup_walk_map
    have hNodup : ((Blueprint.divideContainerValues (ords 0) files).1.entries.map
      Sigma.fst).Nodup := (Blueprint.divideContainerValues (ords 0) files).1.nodupKeys
    have hMapped := hNodup.map hSha
    rwa [List.map_map] at hMapped
  rw [configOf, makeConfigMap, StringKeyed.lookup_foldl_insert hKeys]
  constructor
  · rintro ⟨e, he, hPath, rfl⟩
    rw [← hSha hPath]
    exact Blueprint.mem_divide_raw.mp ((laterOrders ords 1 1).mem_walk.mp he)
  · intro h
    exact ⟨⟨path, content⟩, (laterOrders ords 1 1).mem_walk.mpr (Blueprint.mem_divide_raw.mpr h),
      rfl, rfl⟩

/-- Of the containers with plain files, the first of a name is kept. -/
theorem foldl_addConfigMap (ords : Nat → MapOrder) (rows : List DB.Container)
    (st : List ConfigMap × Finset String) :
    rows.foldl (addConfigMap sha1 ords) st =
      ((rows.filter (fun dbc => (Blueprint.divideContainerValues (ords 0)
        dbc.filepathToContent).1.entries ≠ [])).map
        (fun dbc => configOf sha1 ords dbc.filepathToContent)).foldl
          (FirstOf.keep ConfigMap.name) st := by
  induction rows generalizing st with
  | nil => rfl
  | cons dbc rows ih =>
      rw [List.foldl_cons, ih]
      by_cases hRaw : (Blueprint.divideContainerValues (ords 0)
        dbc.filepathToContent).1.entries = []
      · rw [List.filter_cons_of_neg (by simpa using hRaw)]
        simp only [addConfigMap, if_pos hRaw]
      · rw [List.filter_cons_of_pos (by simpa using hRaw)]
        simp only [addConfigMap, if_neg hRaw]
        rfl

variable {ords : Nat → MapOrder} {view : Database}

/-- Each config map was made for a container. -/
theorem exists_of_mem_configMaps {configMap : ConfigMap}
    (h : configMap ∈ getDesiredConfigMaps sha1 ords view) :
    ∃ dbc ∈ view.rows .container, HasPlainFile dbc.filepathToContent ∧
      configMap = configOf sha1 (laterOrders ords 1) dbc.filepathToContent := by
  rw [getDesiredConfigMaps, foldl_addConfigMap] at h
  have hMade := (FirstOf.foldl_kept ConfigMap.name _).subset h
  obtain ⟨dbc, hDbc, rfl⟩ := List.mem_map.mp hMade
  rw [List.mem_filter, view.mem_selectAll, decide_eq_true_iff] at hDbc
  exact ⟨dbc, hDbc.1, (divide_raw_ne_nil _).mp hDbc.2, rfl⟩

/-- Each container with plain files finds a config map of its name. -/
theorem exists_configMap {dbc : DB.Container} (hDbc : dbc ∈ view.rows .container)
    (hPlain : HasPlainFile dbc.filepathToContent) :
    ∃ configMap ∈ getDesiredConfigMaps sha1 ords view,
      configMap.name = sha1 ("[" ++ filesText dbc.filepathToContent ++ "]") := by
  have hMade : configOf sha1 (laterOrders ords 1) dbc.filepathToContent ∈
      ((view.selectAll (ords 0) .container).filter (fun dbc =>
        (Blueprint.divideContainerValues (laterOrders ords 1 0)
          dbc.filepathToContent).1.entries ≠ [])).map
        (fun dbc => configOf sha1 (laterOrders ords 1) dbc.filepathToContent) := by
    apply List.mem_map_of_mem (f := fun dbc : DB.Container =>
      configOf sha1 (laterOrders ords 1) dbc.filepathToContent)
    rw [List.mem_filter, view.mem_selectAll, decide_eq_true_iff]
    exact ⟨hDbc, (divide_raw_ne_nil _).mpr hPlain⟩
  rw [getDesiredConfigMaps, foldl_addConfigMap]
  obtain ⟨configMap, hMem, hName⟩ := List.mem_map.mp
    ((FirstOf.foldl_kept ConfigMap.name _).covers _ hMade)
  exact ⟨configMap, hMem, hName.trans (configOf_name _)⟩

/-- The container that comes first has its own config map. -/
theorem first_configMap_mem {dbc : DB.Container} {rest : List DB.Container}
    (hAll : view.selectAll (ords 0) .container = dbc :: rest)
    (hPlain : HasPlainFile dbc.filepathToContent) :
    configOf sha1 (laterOrders ords 1) dbc.filepathToContent ∈
      getDesiredConfigMaps sha1 ords view := by
  rw [getDesiredConfigMaps, foldl_addConfigMap, hAll, List.filter_cons,
    if_pos (decide_eq_true ((divide_raw_ne_nil _).mpr hPlain))]
  exact FirstOf.head_mem_foldl_keep _ _

end ConfigMaps

section Volumes

variable {ords : Nat → MapOrder}

theorem secretVolumeName_inj {secret secret' : String} :
    secretVolumeName sha1 secret = secretVolumeName sha1 secret' ↔ sha1 secret = sha1 secret' := by
  simp [secretVolumeName, secretRef]

/-- The secret volumes are those of the entries, each of them once. -/
theorem foldl_addSecretVolume (es : List (Σ _ : String, String))
    (st : List Volume × Finset String) :
    es.foldl (addSecretVolume sha1) st =
      (es.map (fun e => secretVolume sha1 e.2)).foldl (FirstOf.keep Volume.name) st := by
  induction es generalizing st with
  | nil => rfl
  | cons e es ih =>
      rw [List.foldl_cons, ih]
      rfl

/-- The name of a secret volume says what it is. -/
theorem secretVolume_eq_of_name {secret secret' : String}
    (h : (secretVolume sha1 secret).name = (secretVolume sha1 secret').name) :
    secretVolume sha1 secret = secretVolume sha1 secret' := by
  have hSha : sha1 secret = sha1 secret' := secretVolumeName_inj.mp h
  rw [secretVolume, secretVolume, secretVolumeName, secretVolumeName, secretRef, secretRef, hSha]

/-- The volume of the plain files. -/
def filesVolume (sha1 : String → String) (files : StringMap Blueprint.ContainerValue) :
    Volume where
  name := filesVolumeName
  source := .configMap (sha1 ("[" ++ filesText files ++ "]")) filepathToContentMode

/-- The volumes of the secrets and that of the plain files. -/
theorem mem_fileVolumes {volume : Volume} :
    volume ∈ (makeVolumesForFilepathToContent sha1 ords files).1 ↔
      (∃ path secret, files.lookup path = some (.secret secret) ∧
        volume = secretVolume sha1 secret) ∨
      HasPlainFile files ∧ volume = filesVolume sha1 files := by
  have hKept := FirstOf.foldl_kept Volume.name (((ords 1).walk (Blueprint.divideContainerValues
    (ords 0) files).2.entries).map (fun e => secretVolume sha1 e.2))
  simp only [makeVolumesForFilepathToContent, foldl_addSecretVolume, List.mem_append]
  apply or_congr
  · constructor
    · intro h
      obtain ⟨e, he, rfl⟩ := List.mem_map.mp (hKept.subset h)
      exact ⟨e.1, e.2, Blueprint.mem_divide_secret.mp ((ords 1).mem_walk.mp he), rfl⟩
    · rintro ⟨path, secret, hSecret, rfl⟩
      have hMem : secretVolume sha1 secret ∈ ((ords 1).walk (Blueprint.divideContainerValues
          (ords 0) files).2.entries).map (fun e => secretVolume sha1 e.2) :=
        List.mem_map.mpr ⟨⟨path, secret⟩,
          (ords 1).mem_walk.mpr (Blueprint.mem_divide_secret.mpr hSecret), rfl⟩
      obtain ⟨volume, hVolume, hName⟩ := List.mem_map.mp (hKept.covers _ hMem)
      obtain ⟨e, -, rfl⟩ := List.mem_map.mp (hKept.subset hVolume)
      rwa [← secretVolume_eq_of_name hName]
  · rw [← divide_raw_ne_nil (ords 0)]
    split
    · next hRaw => simp [hRaw]
    · next hRaw =>
        rw [List.mem_singleton, configMapName_divide, filesVolume]
        exact (and_iff_right hRaw).symm

theorem secretVolumeName_ne_files (secret : String) :
    secretVolumeName sha1 secret ≠ filesVolumeName := by
  intro h
  have hHead := congrArg (fun s => s.toList.head?) h
  simp [secretVolumeName, filesVolumeName] at hHead

/-- No two of them have the same name. -/
theorem nodup_fileVolumes :
    ((makeVolumesForFilepathToContent sha1 ords files).1.map Volume.name).Nodup := by
  have hKept := FirstOf.foldl_kept Volume.name (((ords 1).walk (Blueprint.divideContainerValues
    (ords 0) files).2.entries).map (fun e => secretVolume sha1 e.2))
  simp only [makeVolumesForFilepathToContent, foldl_addSecretVolume, List.map_append]
  split
  · rw [List.map_nil, List.append_nil]
    exact hKept.nodup
  · rw [List.map_singleton, List.nodup_append_comm, List.singleton_append, List.nodup_cons]
    refine ⟨fun hMem => ?_, hKept.nodup⟩
    obtain ⟨volume, hVolume, hName⟩ := List.mem_map.mp hMem
    obtain ⟨e, -, rfl⟩ := List.mem_map.mp (hKept.subset hVolume)
    exact secretVolumeName_ne_files e.2 hName

theorem mem_fileMounts {mount : VolumeMount} :
    mount ∈ (makeVolumesForFilepathToContent sha1 ords files).2 ↔
      (∃ path secret, files.lookup path = some (.secret secret) ∧
        mount = secretMount sha1 ⟨path, secret⟩) ∨
      ∃ path content, files.lookup path = some (.string content) ∧
        mount = fileMount sha1 ⟨path, content⟩ := by
  simp only [makeVolumesForFilepathToContent, List.mem_append, List.mem_map, MapOrder.mem_walk]
  apply or_congr
  · constructor
    · rintro ⟨e, he, rfl⟩
      exact ⟨e.1, e.2, Blueprint.mem_divide_secret.mp he, rfl⟩
    · rintro ⟨path, secret, h, rfl⟩
      exact ⟨⟨path, secret⟩, Blueprint.mem_divide_secret.mpr h, rfl⟩
  · constructor
    · rintro ⟨e, he, rfl⟩
      exact ⟨e.1, e.2, Blueprint.mem_divide_raw.mp he, rfl⟩
    · rintro ⟨path, content, h, rfl⟩
      exact ⟨⟨path, content⟩, Blueprint.mem_divide_raw.mpr h, rfl⟩

/-- The mount at the path of a plain file is that of the file. -/
theorem mount_at_path {path content : String} (h : files.lookup path = some (.string content))
    {mount : VolumeMount} (hMount : mount ∈ (makeVolumesForFilepathToContent sha1 ords files).2)
    (hPath : mount.mountPath = path) : mount = fileMount sha1 ⟨path, content⟩ := by
  rcases mem_fileMounts.mp hMount with ⟨path', secret, hSecret, rfl⟩ | ⟨path', content', hPlain, rfl⟩
  · obtain rfl : path' = path := hPath
    rw [h] at hSecret
    cases hSecret
  · obtain rfl : path' = path := hPath
    rfl

/-- The only volume of that name is the one of the plain files. -/
theorem volume_of_files {volume : Volume}
    (hVolume : volume ∈ (makeVolumesForFilepathToContent sha1 ords files).1)
    (hName : volume.name = filesVolumeName) : volume = filesVolume sha1 files := by
  rcases mem_fileVolumes.mp hVolume with ⟨path, secret, -, rfl⟩ | ⟨-, rfl⟩
  · exact absurd hName (secretVolumeName_ne_files secret)
  · rfl

end Volumes

section Sight

/-- The mount at the path names a volume, and the config maps of that volume have
the content. -/
structure SeesFile (configMaps : List ConfigMap) (pod : List Volume × List VolumeMount)
    (path content : String) : Prop where
  mounted : ∃ mount ∈ pod.2, mount.mountPath = path
  named : ∀ mount ∈ pod.2, mount.mountPath = path → ∃ volume ∈ pod.1, volume.name = mount.name
  reads : ∀ mount ∈ pod.2, mount.mountPath = path →
    ∀ volume ∈ pod.1, volume.name = mount.name → ∃ name mode,
      volume.source = .configMap name mode ∧ (∃ configMap ∈ configMaps, configMap.name = name) ∧
      ∀ configMap ∈ configMaps, configMap.name = name →
        configMap.data.lookup mount.subPath = some content

/-- The plain files of the first container are those of the second. -/
def SamePlainFiles (files files' : StringMap Blueprint.ContainerValue) : Prop :=
  ∀ path content, files.lookup path = some (.string content) ↔
    files'.lookup path = some (.string content)

variable {view : Database}

/-- A file is seen if the config maps of its text all have it. -/
theorem seesFile_iff {configMaps : List ConfigMap} {ords : Nat → MapOrder} {path content : String}
    (h : files.lookup path = some (.string content)) :
    SeesFile configMaps (makeVolumesForFilepathToContent sha1 ords files) path content ↔
      (∃ configMap ∈ configMaps, configMap.name = sha1 ("[" ++ filesText files ++ "]")) ∧
      ∀ configMap ∈ configMaps, configMap.name = sha1 ("[" ++ filesText files ++ "]") →
        configMap.data.lookup (configMapKey sha1 path) = some content := by
  have hMount : fileMount sha1 ⟨path, content⟩ ∈
      (makeVolumesForFilepathToContent sha1 ords files).2 :=
    mem_fileMounts.mpr (Or.inr ⟨path, content, h, rfl⟩)
  have hVolume : filesVolume sha1 files ∈ (makeVolumesForFilepathToContent sha1 ords files).1 :=
    mem_fileVolumes.mpr (Or.inr ⟨⟨path, content, h⟩, rfl⟩)
  constructor
  · intro hSees
    obtain ⟨name, mode, hSource, hHas, hReads⟩ := hSees.reads _ hMount rfl _ hVolume rfl
    cases hSource
    exact ⟨hHas, hReads⟩
  · rintro ⟨hHas, hReads⟩
    constructor
    · exact ⟨_, hMount, rfl⟩
    · intro mount hMem hPath
      rw [mount_at_path h hMem hPath]
      exact ⟨_, hVolume, rfl⟩
    · intro mount hMem hPath volume hVolume' hName
      rw [mount_at_path h hMem hPath] at hName ⊢
      rw [volume_of_files hVolume' hName]
      exact ⟨_, _, rfl, hHas, hReads⟩

/-- A container sees the files of the container that comes first. -/
theorem lookup_of_seen (hSha : Function.Injective sha1) {c d : DB.Container}
    {rest : List DB.Container} {ords ords' : Nat → MapOrder}
    (hAll : view.selectAll (ords 0) .container = d :: rest)
    (hPlain : HasPlainFile d.filepathToContent)
    (hText : filesText c.filepathToContent = filesText d.filepathToContent)
    {path content : String} (h : c.filepathToContent.lookup path = some (.string content))
    (hSeen : SeesFile (getDesiredConfigMaps sha1 ords view)
      (makeVolumesForFilepathToContent sha1 ords' c.filepathToContent) path content) :
    d.filepathToContent.lookup path = some (.string content) := by
  have hFirst : configOf sha1 (laterOrders ords 1) d.filepathToContent ∈
      getDesiredConfigMaps sha1 ords view := first_configMap_mem hAll hPlain
  have hReads := ((seesFile_iff h).mp hSeen).2 _ hFirst (by rw [configOf_name, hText])
  exact (configOf_data hSha _).mp hReads

/-- All containers see their plain files exactly if those whose files have the
same text have the same files. -/
theorem containers_see_files_iff (sha1 : String → String) (hSha : Function.Injective sha1)
    (view : Database) :
    (∀ ords ords', ∀ c ∈ view.rows .container, ∀ path content,
      c.filepathToContent.lookup path = some (.string content) →
      SeesFile (getDesiredConfigMaps sha1 ords view)
        (makeVolumesForFilepathToContent sha1 ords' c.filepathToContent) path content) ↔
    ∀ c ∈ view.rows .container, ∀ d ∈ view.rows .container,
      HasPlainFile c.filepathToContent → HasPlainFile d.filepathToContent →
      filesText c.filepathToContent = filesText d.filepathToContent →
      SamePlainFiles c.filepathToContent d.filepathToContent := by
  constructor
  · intro hSeen c hc d hd hPlain hPlain' hText path content
    -- the other container comes first, so that its files are seen
    constructor
    · intro h
      obtain ⟨ord, hAll⟩ := view.exists_selectAll_eq (List.perm_cons_erase hd)
      exact lookup_of_seen hSha hAll hPlain' hText h
        (hSeen (fun _ => ord) (fun _ => .stored) c hc path content h)
    · intro h
      obtain ⟨ord, hAll⟩ := view.exists_selectAll_eq (List.perm_cons_erase hc)
      exact lookup_of_seen hSha hAll hPlain hText.symm h
        (hSeen (fun _ => ord) (fun _ => .stored) d hd path content h)
  · intro hSame ords ords' c hc path content h
    have hPlain : HasPlainFile c.filepathToContent := ⟨path, content, h⟩
    rw [seesFile_iff h]
    refine ⟨exists_configMap hc hPlain, fun configMap hMem hName => ?_⟩
    obtain ⟨d, hd, hPlain', rfl⟩ := exists_of_mem_configMaps hMem
    rw [configOf_name, hSha.eq_iff] at hName
    have hText : filesText c.filepathToContent = filesText d.filepathToContent := by
      simpa using hName.symm
    exact (configOf_data hSha _).mpr ((hSame c hc d hd hPlain hPlain' hText path content).mp h)

/-- Two files, and one file with their text. -/
def splitFiles : StringMap Blueprint.ContainerValue :=
  StringKeyed.ofEntries [("a", .string "1"), ("b", .string "2")]

def joinedFiles : StringMap Blueprint.ContainerValue :=
  StringKeyed.ofEntries [("a", .string "1 b=2")]

theorem filesText_splitFiles : filesText splitFiles = filesText joinedFiles := by
  rw [filesText, filesText, Blueprint.rawStrings, Blueprint.rawStrings, splitFiles, joinedFiles,
    StringKeyed.sortedEntries_ofEntries (by decide), StringKeyed.sortedEntries_ofEntries (by decide)]
  decide +kernel

/-- Two containers with these files. -/
def twinView : Database where
  rows
    | .container => [{ id := 1, hostname := "web", filepathToContent := joinedFiles },
        { id := 2, hostname := "db", filepathToContent := splitFiles }]
    | _ => []
  shouldAlert := fun _ => false
  curID := 2
  nodup := fun tt => by cases tt <;> simp [getID]
  bounded := fun tt => by cases tt <;> simp [getID]

/-- The second container does not see its file. -/
theorem twin_misses_file :
    splitFiles.lookup "b" = some (.string "2") ∧
      ¬SeesFile (getDesiredConfigMaps (fun s => s) (fun _ => .stored) twinView)
        (makeVolumesForFilepathToContent (fun s => s) (fun _ => .stored) splitFiles) "b" "2" := by
  have hSplit : splitFiles.lookup "b" = some (.string "2") := by decide
  have hPlain : HasPlainFile joinedFiles := ⟨"a", "1 b=2", by decide⟩
  have hAll : twinView.selectAll .stored .container =
      [{ id := 1, hostname := "web", filepathToContent := joinedFiles },
        { id := 2, hostname := "db", filepathToContent := splitFiles }] := rfl
  refine ⟨hSplit, fun hSeen => ?_⟩
  let twin : DB.Container := { id := 2, hostname := "db", filepathToContent := splitFiles }
  have hJoined : joinedFiles.lookup "b" = some (.string "2") :=
    @lookup_of_seen _ twinView (fun _ _ h => h) twin _ _ _ _ hAll hPlain filesText_splitFiles
      "b" "2" hSplit hSeen
  exact absurd hJoined (by decide)

theorem twins_see_files_iff :
    Function.Injective (fun s : String => s) ∧
    ((∀ ords ords', ∀ c ∈ twinView.rows .container, ∀ path content,
      c.filepathToContent.lookup path = some (.string content) →
      SeesFile (getDesiredConfigMaps (fun s => s) ords twinView)
        (makeVolumesForFilepathToContent (fun s => s) ords' c.filepathToContent) path content) ↔
    ∀ c ∈ twinView.rows .container, ∀ d ∈ twinView.rows .container,
      HasPlainFile c.filepathToContent → HasPlainFile d.filepathToContent →
      filesText c.filepathToContent = filesText d.filepathToContent →
      SamePlainFiles c.filepathToContent d.filepathToContent) :=
  ⟨fun _ _ h => h, containers_see_files_iff (fun s => s) (fun _ _ h => h) twinView⟩

end Sight

end Kelda.Kubernetes
