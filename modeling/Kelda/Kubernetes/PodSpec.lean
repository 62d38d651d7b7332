import Kelda.Kubernetes.Files

/-! The specs of the pods: when Kubernetes accepts them, and that they do not
change from round to round while the containers stay the same. -/
namespace Kelda.Kubernetes

open DB Minion

variable {sha1 : String → String} {ords ords' : Nat → MapOrder} {images : List Image}
  {idToAffinity : StringMap Affinity} {secretClient : String → Option String}
  {volumes : List Blueprint.Volume} {volumeMap : StringMap Volume} {dbc : DB.Container}
  {pod : PodSpec} {userVolumes : List Volume}

/-- The names of the volumes that are made for files. -/
def GeneratedName (sha1 : String → String) (files : StringMap Blueprint.ContainerValue)
    (name : String) : Prop :=
  (∃ path secret, files.lookup path = some (.secret secret) ∧
    name = secretVolumeName sha1 secret) ∨
  HasPlainFile files ∧ name = filesVolumeName

theorem mem_fileVolumeNames {files : StringMap Blueprint.ContainerValue} {name : String} :
    name ∈ (makeVolumesForFilepathToContent sha1 ords files).1.map Volume.name ↔
      GeneratedName sha1 files name := by
  simp only [List.mem_map, mem_fileVolumes, GeneratedName]
  constructor
  · rintro ⟨volume, ⟨path, secret, hSecret, rfl⟩ | ⟨hPlain, rfl⟩, rfl⟩
    · exact Or.inl ⟨path, secret, hSecret, rfl⟩
    · exact Or.inr ⟨hPlain, rfl⟩
  · rintro (⟨path, secret, hSecret, rfl⟩ | ⟨hPlain, rfl⟩)
    · exact ⟨_, Or.inl ⟨path, secret, hSecret, rfl⟩, rfl⟩
    · exact ⟨_, Or.inr ⟨hPlain, rfl⟩, rfl⟩

/-- The volumes that the container mounts have the names that it gives. -/
theorem map_name_userVolumes (hKeyed : KeyedByName volumeMap)
    {mounts : List Blueprint.VolumeMount}
    (h : mounts.mapM (fun m => volumeMap.lookup m.volumeName) = some userVolumes) :
    userVolumes.map Volume.name = mounts.map Blueprint.VolumeMount.volumeName := by
  induction mounts generalizing userVolumes with
  | nil =>
      cases h
      rfl
  | cons mount mounts ih =>
      rw [List.mapM_cons] at h
      obtain ⟨volume, hLookup, hRest⟩ := Option.bind_eq_some_iff.mp h
      obtain ⟨others, hOthers, hEq⟩ := Option.bind_eq_some_iff.mp hRest
      cases hEq
      rw [List.map_cons, List.map_cons, hKeyed _ _ hLookup, ih hOthers]

section WellFormed

/-- Kubernetes accepts no spec in which two volumes have one name, or in which a
mount names none of them. -/
structure WellFormed (pod : PodSpec) : Prop where
  names : (pod.volumes.map Volume.name).Nodup
  mounts : ∀ container ∈ pod.containers, ∀ mount ∈ container.volumeMounts,
    mount.name ∈ pod.volumes.map Volume.name

/-- The names of the volumes are those that are generated and those that are
mounted. -/
theorem volumeNames_perm (hKeyed : KeyedByName volumeMap)
    (hUser : dbc.volumeMounts.mapM (fun m => volumeMap.lookup m.volumeName) = some userVolumes)
    {hashes : List EnvVar} {image : String} :
    ((podSpec sha1 ords idToAffinity hashes dbc image userVolumes).volumes.map Volume.name).Perm
      ((makeVolumesForFilepathToContent sha1 (laterOrders ords 5)
        dbc.filepathToContent).1.map Volume.name ++
        dbc.volumeMounts.map Blueprint.VolumeMount.volumeName) := by
  rw [← map_name_userVolumes hKeyed hUser, ← List.map_append]
  exact (sortUnstable_perm _ _ _).map _

theorem nodup_volumeNames_iff (hKeyed : KeyedByName volumeMap)
    (hUser : dbc.volumeMounts.mapM (fun m => volumeMap.lookup m.volumeName) = some userVolumes)
    {hashes : List EnvVar} {image : String} :
    ((podSpec sha1 ords idToAffinity hashes dbc image userVolumes).volumes.map Volume.name).Nodup ↔
      (dbc.volumeMounts.map Blueprint.VolumeMount.volumeName).Nodup ∧
        ∀ mount ∈ dbc.volumeMounts,
          ¬GeneratedName sha1 dbc.filepathToContent mount.volumeName := by
  rw [(volumeNames_perm hKeyed hUser).nodup_iff, List.nodup_append']
  constructor
  · rintro ⟨-, hNodup, hDisjoint⟩
    refine ⟨hNodup, fun mount hMount hGenerated => ?_⟩
    exact hDisjoint (mem_fileVolumeNames.mpr hGenerated) (List.mem_map_of_mem hMount)
  · rintro ⟨hNodup, hOwn⟩
    refine ⟨nodup_fileVolumes, hNodup, fun name hGenerated hName => ?_⟩
    obtain ⟨mount, hMount, rfl⟩ := List.mem_map.mp hName
    exact hOwn mount hMount (mem_fileVolumeNames.mp hGenerated)

/-- Every mount names a volume. -/
theorem mount_named (hKeyed : KeyedByName volumeMap)
    (hUser : dbc.volumeMounts.mapM (fun m => volumeMap.lookup m.volumeName) = some userVolumes)
    {hashes : List EnvVar} {image : String} :
    ∀ container ∈ (podSpec sha1 ords idToAffinity hashes dbc image userVolumes).containers,
      ∀ mount ∈ container.volumeMounts, mount.name ∈
        (podSpec sha1 ords idToAffinity hashes dbc image userVolumes).volumes.map Volume.name := by
  intro container hContainer mount hMount
  obtain rfl := List.mem_singleton.mp hContainer
  rw [(volumeNames_perm hKeyed hUser).mem_iff, List.mem_append, mem_fileVolumeNames]
  rcases List.mem_append.mp ((sortUnstable_perm _ _ _).mem_iff.mp hMount) with hFile | hUserMount
  · left
    rcases mem_fileMounts.mp hFile with ⟨path, secret, hSecret, rfl⟩ | ⟨path, content, hPlain, rfl⟩
    · exact Or.inl ⟨path, secret, hSecret, rfl⟩
    · exact Or.inr ⟨⟨path, content, hPlain⟩, rfl⟩
  · obtain ⟨m, hm, rfl⟩ := List.mem_map.mp hUserMount
    exact Or.inr (List.mem_map_of_mem hm)

/-- A spec is well formed exactly if each volume is mounted once and none of them
has a generated name. -/
theorem makePod_wellFormed_iff (sha1 : String → String) (ords : Nat → MapOrder)
    (images : List Image) (idToAffinity : StringMap Affinity)
    (secretClient : String → Option String) (volumes : List Blueprint.Volume)
    (volumeMap : StringMap Volume) (hMap : makeVolumeMap volumes = .ok volumeMap)
    (dbc : DB.Container) (pod : PodSpec)
    (hPod : makePod sha1 ords images idToAffinity secretClient volumeMap dbc = some pod) :
    WellFormed pod ↔ (dbc.volumeMounts.map Blueprint.VolumeMount.volumeName).Nodup ∧
      ∀ mount ∈ dbc.volumeMounts,
        ¬GeneratedName sha1 dbc.filepathToContent mount.volumeName := by
  have hKeyed := keyed_of_makeVolumeMap hMap
  obtain ⟨image, userVolumes, -, -, hUser, rfl⟩ := (makePod_eq_some_iff sha1).mp hPod
  constructor
  · intro h
    exact (nodup_volumeNames_iff hKeyed hUser).mp h.names
  · intro h
    exact ⟨(nodup_volumeNames_iff hKeyed hUser).mpr h, mount_named hKeyed hUser⟩

/-- A container that mounts one volume at two paths. -/
def twoMounts : DB.Container :=
  { id := 1, hostname := "web", image := "nginx"
    volumeMounts := [⟨"data", "/a"⟩, ⟨"data", "/b"⟩] }

def dataVolume : Blueprint.Volume :=
  { name := "data", type := "hostPath", conf := StringKeyed.ofEntries [("path", "/var/data")] }

theorem makeVolumeMap_data :
    makeVolumeMap [dataVolume] =
      .ok ((∅ : StringMap Volume).insert "data" (hostPathVolume dataVolume)) := rfl

theorem makePod_twoMounts :
    makePod (fun s => s) (fun _ => .stored) [] ∅ (fun _ => none)
        ((∅ : StringMap Volume).insert "data" (hostPathVolume dataVolume)) twoMounts =
      some (podSpec (fun s => s) (fun _ => .stored) ∅ [] twoMounts "nginx"
        [hostPathVolume dataVolume, hostPathVolume dataVolume]) := by
  have hSecrets : getReferencedSecrets (fun _ => .stored) twoMounts = [] := by
    simp [getReferencedSecrets, twoMounts]
  rw [makePod_eq_some_iff, hSecrets]
  exact ⟨"nginx", _, rfl, rfl, rfl, rfl⟩

/-- The volume is in the spec twice. -/
theorem twice_mounted_malformed :
    makeVolumeMap [dataVolume] =
        .ok ((∅ : StringMap Volume).insert "data" (hostPathVolume dataVolume)) ∧
      makePod (fun s => s) (fun _ => .stored) [] ∅ (fun _ => none)
          ((∅ : StringMap Volume).insert "data" (hostPathVolume dataVolume)) twoMounts =
        some (podSpec (fun s => s) (fun _ => .stored) ∅ [] twoMounts "nginx"
          [hostPathVolume dataVolume, hostPathVolume dataVolume]) ∧
      ¬WellFormed (podSpec (fun s => s) (fun _ => .stored) ∅ [] twoMounts "nginx"
        [hostPathVolume dataVolume, hostPathVolume dataVolume]) := by
  refine ⟨makeVolumeMap_data, makePod_twoMounts, fun h => ?_⟩
  have hKeyed := keyed_of_makeVolumeMap makeVolumeMap_data
  have hUser : twoMounts.volumeMounts.mapM (fun m => ((∅ : StringMap Volume).insert "data"
      (hostPathVolume dataVolume)).lookup m.volumeName) =
        some [hostPathVolume dataVolume, hostPathVolume dataVolume] := rfl
  have hNodup := ((nodup_volumeNames_iff hKeyed hUser).mp h.names).1
  exact absurd hNodup (by decide)

theorem twoMounts_wellFormed_iff :
    WellFormed (podSpec (fun s => s) (fun _ => .stored) ∅ [] twoMounts "nginx"
        [hostPathVolume dataVolume, hostPathVolume dataVolume]) ↔
      (twoMounts.volumeMounts.map Blueprint.VolumeMount.volumeName).Nodup ∧
        ∀ mount ∈ twoMounts.volumeMounts,
          ¬GeneratedName (fun s => s) twoMounts.filepathToContent mount.volumeName :=
  makePod_wellFormed_iff (fun s => s) (fun _ => .stored) [] ∅ (fun _ => none) [dataVolume] _
    makeVolumeMap_data twoMounts _ makePod_twoMounts

end WellFormed

section Consistent

/-- The container refers to the secret. -/
def References (dbc : DB.Container) (secret : String) : Prop :=
  (∃ key, dbc.env.lookup key = some (.secret secret)) ∨
    ∃ path, dbc.filepathToContent.lookup path = some (.secret secret)

theorem secretName_eq_some {e : String × Blueprint.ContainerValue} {secret : String} :
    secretName e = some secret ↔ e.2 = .secret secret := by
  obtain ⟨key, value⟩ := e
  cases value with
  | string value => simp [secretName]
  | secret name => simp [secretName]

theorem mem_getReferencedSecrets {secret : String} :
    secret ∈ getReferencedSecrets ords dbc ↔ References dbc secret := by
  simp only [getReferencedSecrets, List.mem_append, List.mem_filterMap, StringKeyed.mem_range,
    secretName_eq_some, References]
  apply or_congr
  · constructor
    · rintro ⟨e, hLookup, hSecret⟩
      exact ⟨e.1, hSecret ▸ hLookup⟩
    · rintro ⟨key, hLookup⟩
      exact ⟨(key, .secret secret), hLookup, rfl⟩
  · constructor
    · rintro ⟨e, hLookup, hSecret⟩
      exact ⟨e.1, hSecret ▸ hLookup⟩
    · rintro ⟨path, hLookup⟩
      exact ⟨(path, .secret secret), hLookup, rfl⟩

theorem getReferencedSecrets_perm :
    (getReferencedSecrets ords dbc).Perm (getReferencedSecrets ords' dbc) :=
  ((StringKeyed.range_perm_range _ _ _).filterMap _).append
    ((StringKeyed.range_perm_range _ _ _).filterMap _)

/-- One variable of the environment. -/
def podEnvVar (sha1 : String → String) (key : String) : Blueprint.ContainerValue → EnvVar
  | .string value => rawEnvVar ⟨key, value⟩
  | .secret name => secretEnvVar sha1 ⟨key, name⟩

theorem mem_makePodEnvVars {env : StringMap Blueprint.ContainerValue} {v : EnvVar}
    (h : v ∈ makePodEnvVars sha1 ords env) :
    ∃ key value, env.lookup key = some value ∧ v = podEnvVar sha1 key value ∧ v.name = key := by
  simp only [makePodEnvVars, List.mem_append, List.mem_map, MapOrder.mem_walk] at h
  rcases h with ⟨e, he, rfl⟩ | ⟨e, he, rfl⟩
  · exact ⟨e.1, .string e.2, Blueprint.mem_divide_raw.mp he, rfl, rfl⟩
  · exact ⟨e.1, .secret e.2, Blueprint.mem_divide_secret.mp he, rfl, rfl⟩

theorem makePodEnvVars_perm {env : StringMap Blueprint.ContainerValue} :
    (makePodEnvVars sha1 ords env).Perm (makePodEnvVars sha1 ords' env) := by
  have hRaw := ((ords 1).perm _).trans ((Blueprint.divide_raw_perm (ords 0) (ords' 0) env).trans
    ((ords' 1).perm _).symm)
  have hSecret := ((ords 2).perm _).trans
    ((Blueprint.divide_secret_perm (ords 0) (ords' 0) env).trans ((ords' 2).perm _).symm)
  exact (hRaw.map rawEnvVar).append (hSecret.map (secretEnvVar sha1))

theorem mem_secretHashes {secrets : List String} {v : EnvVar}
    (h : v ∈ (makeSecretHashEnvVars sha1 secretClient secrets).1) :
    ∃ secret ∈ secrets, ∃ val, secretClient secret = some val ∧
      v = { name := secretHashName secret, value := formatHex (hashStr sha1 val) } := by
  obtain ⟨secret, hSecret, hVar⟩ := List.mem_filterMap.mp h
  obtain ⟨val, hVal, rfl⟩ := Option.map_eq_some_iff.mp hVar
  exact ⟨secret, hSecret, val, hVal, rfl⟩

/-- Variables of the same name are equal, also if a secret is referred to several
times. -/
theorem envVar_ties (hEnv : ∀ secret, References dbc secret →
      dbc.env.lookup (secretHashName secret) = none) {a b : EnvVar}
    (ha : a ∈ (makeSecretHashEnvVars sha1 secretClient (getReferencedSecrets ords dbc)).1 ++
      makePodEnvVars sha1 (laterOrders ords 2) dbc.env)
    (hb : b ∈ (makeSecretHashEnvVars sha1 secretClient (getReferencedSecrets ords dbc)).1 ++
      makePodEnvVars sha1 (laterOrders ords 2) dbc.env) (hName : a.name = b.name) : a = b := by
  have hMixed : ∀ v v', v ∈ (makeSecretHashEnvVars sha1 secretClient
      (getReferencedSecrets ords dbc)).1 → v' ∈ makePodEnvVars sha1 (laterOrders ords 2) dbc.env →
      v.name ≠ v'.name := by
    intro v v' hv hv' hEq
    obtain ⟨secret, hSecret, val, -, rfl⟩ := mem_secretHashes hv
    obtain ⟨key, value, hLookup, -, rfl⟩ := mem_makePodEnvVars hv'
    rw [← hEq, hEnv secret (mem_getReferencedSecrets.mp hSecret)] at hLookup
    cases hLookup
  rcases List.mem_append.mp ha with ha | ha <;> rcases List.mem_append.mp hb with hb | hb
  · obtain ⟨secret, -, val, hVal, rfl⟩ := mem_secretHashes ha
    obtain ⟨secret', -, val', hVal', rfl⟩ := mem_secretHashes hb
    obtain rfl : secret = secret' := by simpa [secretHashName] using hName
    rw [hVal] at hVal'
    cases hVal'
    rfl
  · exact absurd hName (hMixed a b ha hb)
  · exact absurd hName.symm (hMixed b a hb ha)
  · obtain ⟨key, value, hLookup, rfl, hKey⟩ := mem_makePodEnvVars ha
    obtain ⟨key', value', hLookup', rfl, hKey'⟩ := mem_makePodEnvVars hb
    obtain rfl : key = key' := hKey.symm.trans (hName.trans hKey')
    rw [hLookup] at hLookup'
    cases hLookup'
    rfl

theorem fileVolumes_perm {files : StringMap Blueprint.ContainerValue} :
    (makeVolumesForFilepathToContent sha1 ords files).1.Perm
      (makeVolumesForFilepathToContent sha1 ords' files).1 := by
  rw [List.perm_ext_iff_of_nodup nodup_fileVolumes.of_map nodup_fileVolumes.of_map]
  intro volume
  rw [mem_fileVolumes, mem_fileVolumes]

theorem fileMounts_perm {files : StringMap Blueprint.ContainerValue} :
    (makeVolumesForFilepathToContent sha1 ords files).2.Perm
      (makeVolumesForFilepathToContent sha1 ords' files).2 := by
  have hSecret := ((ords 1).perm _).trans
    ((Blueprint.divide_secret_perm (ords 0) (ords' 0) files).trans ((ords' 1).perm _).symm)
  have hRaw := ((ords 3).perm _).trans ((Blueprint.divide_raw_perm (ords 0) (ords' 0) files).trans
    ((ords' 3).perm _).symm)
  exact (hSecret.map (secretMount sha1)).append (hRaw.map (fileMount sha1))

/-- One mount of the files. -/
def podMount (sha1 : String → String) (path : String) : Blueprint.ContainerValue → VolumeMount
  | .string content => fileMount sha1 ⟨path, content⟩
  | .secret name => secretMount sha1 ⟨path, name⟩

theorem fileMount_at {files : StringMap Blueprint.ContainerValue} {mount : VolumeMount}
    (h : mount ∈ (makeVolumesForFilepathToContent sha1 ords files).2) :
    ∃ path value, files.lookup path = some value ∧ mount = podMount sha1 path value ∧
      mount.mountPath = path := by
  rcases mem_fileMounts.mp h with ⟨path, secret, hSecret, rfl⟩ | ⟨path, content, hPlain, rfl⟩
  · exact ⟨path, .secret secret, hSecret, rfl, rfl⟩
  · exact ⟨path, .string content, hPlain, rfl, rfl⟩

/-- Mounts at one path are equal if the paths of the user are new. -/
theorem mount_ties (hPaths : (dbc.volumeMounts.map Blueprint.VolumeMount.mountPath).Nodup)
    (hFiles : ∀ mount ∈ dbc.volumeMounts, dbc.filepathToContent.lookup mount.mountPath = none)
    {a b : VolumeMount}
    (ha : a ∈ (makeVolumesForFilepathToContent sha1 ords dbc.filepathToContent).2 ++
      dbc.volumeMounts.map userMount)
    (hb : b ∈ (makeVolumesForFilepathToContent sha1 ords dbc.filepathToContent).2 ++
      dbc.volumeMounts.map userMount) (hPath : a.mountPath = b.mountPath) : a = b := by
  have hMixed : ∀ m m', m ∈ (makeVolumesForFilepathToContent sha1 ords
      dbc.filepathToContent).2 → m' ∈ dbc.volumeMounts.map userMount →
      m.mountPath ≠ m'.mountPath := by
    intro m m' hm hm' hEq
    obtain ⟨path, value, hLookup, -, rfl⟩ := fileMount_at hm
    obtain ⟨mount, hMount, rfl⟩ := List.mem_map.mp hm'
    rw [hEq, userMount, hFiles mount hMount] at hLookup
    cases hLookup
  rcases List.mem_append.mp ha with ha | ha <;> rcases List.mem_append.mp hb with hb | hb
  · obtain ⟨path, value, hLookup, rfl, hAt⟩ := fileMount_at ha
    obtain ⟨path', value', hLookup', rfl, hAt'⟩ := fileMount_at hb
    obtain rfl : path = path' := hAt.symm.trans (hPath.trans hAt')
    rw [hLookup] at hLookup'
    cases hLookup'
    rfl
  · exact absurd hPath (hMixed a b ha hb)
  · exact absurd hPath.symm (hMixed b a hb ha)
  · obtain ⟨mount, hMount, rfl⟩ := List.mem_map.mp ha
    obtain ⟨mount', hMount', rfl⟩ := List.mem_map.mp hb
    rw [List.inj_on_of_nodup_map hPaths hMount hMount' hPath]

theorem missing_eq_nil_iff {secrets : List String} :
    (makeSecretHashEnvVars sha1 secretClient secrets).2 = [] ↔
      ∀ secret ∈ secrets, (secretClient secret).isSome := by
  simp [makeSecretHashEnvVars, List.filter_eq_nil_iff, Option.isSome_iff_ne_none]

/-- What the user chooses does not clash with itself or with what is generated. -/
structure Distinct (sha1 : String → String) (dbc : DB.Container) : Prop where
  paths : (dbc.volumeMounts.map Blueprint.VolumeMount.mountPath).Nodup
  files : ∀ mount ∈ dbc.volumeMounts, dbc.filepathToContent.lookup mount.mountPath = none
  names : (dbc.volumeMounts.map Blueprint.VolumeMount.volumeName).Nodup
  generated : ∀ mount ∈ dbc.volumeMounts,
    ¬GeneratedName sha1 dbc.filepathToContent mount.volumeName
  env : ∀ secret, References dbc secret → dbc.env.lookup (secretHashName secret) = none

theorem podSpec_eq (h : Distinct sha1 dbc) (hKeyed : KeyedByName volumeMap)
    (hUser : dbc.volumeMounts.mapM (fun m => volumeMap.lookup m.volumeName) = some userVolumes)
    {image : String} :
    podSpec sha1 ords idToAffinity (makeSecretHashEnvVars sha1 secretClient
        (getReferencedSecrets ords dbc)).1 dbc image userVolumes =
      podSpec sha1 ords' idToAffinity (makeSecretHashEnvVars sha1 secretClient
        (getReferencedSecrets ords' dbc)).1 dbc image userVolumes := by
  have hEnv : sortUnstable (ords 11) envVarLess ((makeSecretHashEnvVars sha1 secretClient
        (getReferencedSecrets ords dbc)).1 ++ makePodEnvVars sha1 (laterOrders ords 2) dbc.env) =
      sortUnstable (ords' 11) envVarLess ((makeSecretHashEnvVars sha1 secretClient
        (getReferencedSecrets ords' dbc)).1 ++
        makePodEnvVars sha1 (laterOrders ords' 2) dbc.env) := by
    apply sortUnstable_eq EnvVar.name (fun a b => decide_eq_true_iff)
    · exact (getReferencedSecrets_perm.filterMap _).append makePodEnvVars_perm
    · exact fun a ha b hb => envVar_ties h.env ha hb
  have hMounts : sortUnstable (ords 9) volumeMountLess ((makeVolumesForFilepathToContent sha1
        (laterOrders ords 5) dbc.filepathToContent).2 ++ dbc.volumeMounts.map userMount) =
      sortUnstable (ords' 9) volumeMountLess ((makeVolumesForFilepathToContent sha1
        (laterOrders ords' 5) dbc.filepathToContent).2 ++ dbc.volumeMounts.map userMount) := by
    apply sortUnstable_eq VolumeMount.mountPath (fun a b => decide_eq_true_iff)
    · exact fileMounts_perm.append_right _
    · exact fun a ha b hb => mount_ties h.paths h.files ha hb
  have hVolumes : sortUnstable (ords 10) volumeLess ((makeVolumesForFilepathToContent sha1
        (laterOrders ords 5) dbc.filepathToContent).1 ++ userVolumes) =
      sortUnstable (ords' 10) volumeLess ((makeVolumesForFilepathToContent sha1
        (laterOrders ords' 5) dbc.filepathToContent).1 ++ userVolumes) := by
    apply sortUnstable_eq Volume.name (fun a b => decide_eq_true_iff)
    · exact fileVolumes_perm.append_right _
    · have hSorted : ((podSpec sha1 ords idToAffinity [] dbc image userVolumes).volumes.map
          Volume.name).Nodup := (nodup_volumeNames_iff hKeyed hUser).mpr ⟨h.names, h.generated⟩
      have hNodup := ((sortUnstable_perm _ _ _).map Volume.name).nodup_iff.mp hSorted
      exact fun a ha b hb => List.inj_on_of_nodup_map hNodup ha hb
  simp only [podSpec, hEnv, hMounts, hVolumes]

/-- Among images that differ in name or Dockerfile, the order does not matter. -/
theorem podImage_perm {images' : List Image} (hImages : images'.Perm images)
    (hDistinct : (images.map (fun img => (img.name, img.dockerfile))).Nodup) :
    podImage images' dbc = podImage images dbc := by
  rw [podImage, podImage]
  congr 2
  refine (List.find?_eq_find?_of_perm hImages.symm ?_).symm
  rintro img ⟨himg, hHit⟩ img' ⟨himg', hHit'⟩
  rw [decide_eq_true_eq] at hHit hHit'
  exact List.inj_on_of_nodup_map hDistinct himg himg'
    (Prod.ext (hHit.1.trans hHit'.1.symm) (hHit.2.1.trans hHit'.2.1.symm))

/-- Any two evaluations return the same spec, whatever the orders of the walks and
the outcomes of the sorts, and in whatever order the images are listed if they
differ in name or Dockerfile. -/
theorem makePod_order_independent (sha1 : String → String) (images images' : List Image)
    (hImages : images' = images ∨
      images'.Perm images ∧ (images.map (fun img => (img.name, img.dockerfile))).Nodup)
    (idToAffinity : StringMap Affinity) (secretClient : String → Option String)
    (volumes : List Blueprint.Volume) (volumeMap : StringMap Volume)
    (hMap : makeVolumeMap volumes = .ok volumeMap) (dbc : DB.Container) (h : Distinct sha1 dbc)
    (ords ords' : Nat → MapOrder) :
    makePod sha1 ords images idToAffinity secretClient volumeMap dbc =
      makePod sha1 ords' images' idToAffinity secretClient volumeMap dbc := by
  have hKeyed := keyed_of_makeVolumeMap hMap
  have hImage : podImage images' dbc = podImage images dbc := by
    rcases hImages with rfl | ⟨hPerm, hDistinct⟩
    · rfl
    · exact podImage_perm hPerm hDistinct
  have hSame : makePod sha1 ords' images' idToAffinity secretClient volumeMap dbc =
      makePod sha1 ords' images idToAffinity secretClient volumeMap dbc := by
    rw [makePod, makePod, hImage]
  rw [hSame]
  have hSome : ∀ (first second : Nat → MapOrder) (pod : PodSpec),
      makePod sha1 first images idToAffinity secretClient volumeMap dbc = some pod →
      makePod sha1 second images idToAffinity secretClient volumeMap dbc = some pod := by
    intro first second pod hPod
    obtain ⟨image, userVolumes, hImage, hMissing, hUser, rfl⟩ := (makePod_eq_some_iff sha1).mp hPod
    rw [makePod_eq_some_iff]
    refine ⟨image, userVolumes, hImage, ?_, hUser, podSpec_eq h hKeyed hUser⟩
    rw [missing_eq_nil_iff] at hMissing ⊢
    intro secret hSecret
    exact hMissing secret (getReferencedSecrets_perm.mem_iff.mp hSecret)
  exact Option.ext (fun pod => ⟨hSome ords ords' pod, hSome ords' ords pod⟩)

/-- A container that refers to one secret from its environment and from a file, and
mounts a volume. -/
def secretContainer : DB.Container :=
  { id := 1, hostname := "web", image := "nginx"
    env := StringKeyed.ofEntries [("KEY", .secret "key"), ("PORT", .string "80")]
    filepathToContent := StringKeyed.ofEntries [("/conf", .string "x"), ("/key", .secret "key")]
    volumeMounts := [⟨"data", "/data"⟩] }

theorem secretContainer_distinct : Distinct (fun s => s) secretContainer where
  paths := by decide
  files := by decide
  names := by decide
  generated := by
    intro mount hMount hGenerated
    obtain rfl := List.mem_singleton.mp hMount
    rcases hGenerated with ⟨path, secret, -, hName⟩ | ⟨-, hName⟩
    · have hHead := congrArg (fun s => s.toList.head?) hName
      simp [secretVolumeName] at hHead
    · exact absurd hName (by decide)
  env := by
    intro secret _
    have hKey : secretHashName secret ≠ "KEY" := by
      intro hEq
      have hHead := congrArg (fun s => s.toList.head?) hEq
      simp [secretHashName] at hHead
    have hPort : secretHashName secret ≠ "PORT" := by
      intro hEq
      have hHead := congrArg (fun s => s.toList.head?) hEq
      simp [secretHashName] at hHead
    simp [secretContainer, StringKeyed.ofEntries, Finmap.lookup_insert_of_ne, hKey, hPort]

/-- It has a pod, the same in opposite orders. -/
theorem secretContainer_order_independent :
    (∃ pod, makePod (fun s => s) (fun _ => .stored) [{ id := 2, name := "a" }, { id := 3 }] ∅
        (fun _ => some "value")
        ((∅ : StringMap Volume).insert "data" (hostPathVolume dataVolume)) secretContainer =
      some pod) ∧
    makePod (fun s => s) (fun _ => .stored) [{ id := 2, name := "a" }, { id := 3 }] ∅
        (fun _ => some "value")
        ((∅ : StringMap Volume).insert "data" (hostPathVolume dataVolume)) secretContainer =
      makePod (fun s => s) (fun _ => .reversed) [{ id := 3 }, { id := 2, name := "a" }] ∅
        (fun _ => some "value")
        ((∅ : StringMap Volume).insert "data" (hostPathVolume dataVolume)) secretContainer := by
  constructor
  · refine ⟨_, (makePod_eq_some_iff (fun s => s)).mpr ⟨"nginx", [hostPathVolume dataVolume], rfl,
      ?_, rfl, rfl⟩⟩
    exact missing_eq_nil_iff.mpr (fun _ _ => rfl)
  · exact makePod_order_independent (fun s => s) _ _ (.inr ⟨List.Perm.swap .., by decide⟩) ∅
      (fun _ => some "value") [dataVolume] _ makeVolumeMap_data secretContainer
      secretContainer_distinct _ _

end Consistent

end Kelda.Kubernetes
