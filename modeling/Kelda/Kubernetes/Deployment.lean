import Kelda.Join.HashJoin
import Kelda.Kubernetes.Affinity
import Kelda.Kubernetes.ConfigMap
import Kelda.Lib.Text

/-! The deployments that the containers ask for, and the calls that bring them
about. -/
namespace Kelda.Kubernetes

open DB Join Minion

variable (sha1 : String → String)

section Pods

/-- The Kubernetes secret of a secret, and the key of its value. -/
def secretRef (name : String) : String × String := ("kelda-" ++ sha1 name, "value")

def hashStr (toHash : String) : String := sha1 toHash

def hashContainerValueMap (ords : Nat → MapOrder)
    (containerValMap : StringMap Blueprint.ContainerValue) : String :=
  hashStr sha1 (Blueprint.valueMapAsString ords containerValMap)

/-- The bytes of a string in the hexadecimal format. -/
def formatHex (s : String) : String :=
  Text.hexText s.toUTF8.toList

def secretName : String × Blueprint.ContainerValue → Option String
  | (_, .string _) => none
  | (_, .secret nameOfSecret) => some nameOfSecret

/-- The names of all secrets that the maps of a container refer to. -/
def getReferencedSecrets (ords : Nat → MapOrder) (dbc : DB.Container) : List String :=
  (StringKeyed.range (ords 0) dbc.env).filterMap secretName ++
    (StringKeyed.range (ords 1) dbc.filepathToContent).filterMap secretName

def secretHashName (name : String) : String := "SECRET_HASH_" ++ name

/-- The variables with the hashes of the secrets, and the secrets without a
value. -/
def makeSecretHashEnvVars (secretClient : String → Option String) (secretNames : List String) :
    List EnvVar × List String :=
  (secretNames.filterMap (fun name => (secretClient name).map (fun val =>
      { name := secretHashName name, value := formatHex (hashStr sha1 val) })),
    secretNames.filter (fun name => (secretClient name).isNone))

def rawEnvVar (e : Σ _ : String, String) : EnvVar := { name := e.1, value := e.2 }

def secretEnvVar (e : Σ _ : String, String) : EnvVar :=
  { name := e.1, valueFrom := some ⟨(secretRef sha1 e.2).1, (secretRef sha1 e.2).2⟩ }

def makePodEnvVars (ords : Nat → MapOrder) (dbcEnv : StringMap Blueprint.ContainerValue) :
    List EnvVar :=
  let (rawStrings, secrets) := Blueprint.divideContainerValues (ords 0) dbcEnv
  ((ords 1).walk rawStrings.entries).map rawEnvVar ++
    ((ords 2).walk secrets.entries).map (secretEnvVar sha1)

def filesVolumeName : String := "filepath-to-content"

/-- The default mode of the files. -/
def filepathToContentMode : Nat := 0o644

def secretVolumeName (secret : String) : String := "secret-volume-" ++ (secretRef sha1 secret).1

def secretVolume (secret : String) : Volume where
  name := secretVolumeName sha1 secret
  source := .secret (secretRef sha1 secret).1

def secretMount (e : Σ _ : String, String) : VolumeMount where
  name := secretVolumeName sha1 e.2
  mountPath := e.1
  subPath := (secretRef sha1 e.2).2

/-- The volumes found so far, with the set of their names, and one more secret.
A secret volume is only mounted once. -/
def addSecretVolume : List Volume × Finset String → (Σ _ : String, String) →
    List Volume × Finset String
  | (volumes, mountedSecretVolumes), e =>
    if secretVolumeName sha1 e.2 ∈ mountedSecretVolumes then (volumes, mountedSecretVolumes)
    else (volumes ++ [secretVolume sha1 e.2],
      insert (secretVolumeName sha1 e.2) mountedSecretVolumes)

def fileMount (e : Σ _ : String, String) : VolumeMount where
  name := filesVolumeName
  mountPath := e.1
  subPath := configMapKey sha1 e.1

/-- Plain files come from config map volumes, the others from secret volumes. -/
def makeVolumesForFilepathToContent (ords : Nat → MapOrder)
    (filepathToContent : StringMap Blueprint.ContainerValue) : List Volume × List VolumeMount :=
  let (rawStrings, secrets) := Blueprint.divideContainerValues (ords 0) filepathToContent
  let secretVolumes := (((ords 1).walk secrets.entries).foldl (addSecretVolume sha1) ([], ∅)).1
  let fileVolumes :=
    if rawStrings.entries = [] then []
    else [{ name := filesVolumeName,
            source := .configMap (configMapName sha1 (ords 2) rawStrings) filepathToContentMode }]
  (secretVolumes ++ fileVolumes,
    ((ords 1).walk secrets.entries).map (secretMount sha1) ++
      ((ords 3).walk rawStrings.entries).map (fileMount sha1))

def userMount (volumeMount : Blueprint.VolumeMount) : VolumeMount where
  name := volumeMount.volumeName
  mountPath := volumeMount.mountPath

/-- The image of a container. One that is built by Kelda is rewritten to the
version hosted by the local registry. -/
def podImage (images : List Image) (dbc : DB.Container) : Option String :=
  if dbc.dockerfile ≠ "" then
    (images.find? (fun img => img.name = dbc.image ∧ img.dockerfile = dbc.dockerfile ∧
      img.status = built)).map Image.repoDigest
  else some dbc.image

def volumeMountLess (a b : VolumeMount) : Bool := a.mountPath < b.mountPath

def volumeLess (a b : Volume) : Bool := a.name < b.name

def envVarLess (a b : EnvVar) : Bool := a.name < b.name

/-- The pod of a container with its image and the volumes it mounts. The lists are
sorted, so that differences in the orders do not restart the pod. -/
def podSpec (ords : Nat → MapOrder) (idToAffinity : StringMap Affinity) (hashes : List EnvVar)
    (dbc : DB.Container) (image : String) (userVolumes : List Volume) : PodSpec :=
  let env := hashes ++ makePodEnvVars sha1 (laterOrders ords 2) dbc.env
  let (volumes, volumeMounts) :=
    makeVolumesForFilepathToContent sha1 (laterOrders ords 5) dbc.filepathToContent
  { hostname := dbc.hostname
    containers := [{
      name := dbc.hostname
      image := image
      env := sortUnstable (ords 11) envVarLess env
      args := dbc.command
      volumeMounts := sortUnstable (ords 9) volumeMountLess
        (volumeMounts ++ dbc.volumeMounts.map userMount)
      privileged := some dbc.privileged }]
    affinity := idToAffinity.lookup dbc.hostname
    dnsPolicy := "Default"
    volumes := sortUnstable (ords 10) volumeLess (volumes ++ userVolumes) }

/-- The pod of a container, if it is possible to create one at this time. The
image might not be built yet, a secret might be missing, and a volume might be
unknown. -/
def makePod (ords : Nat → MapOrder) (images : List Image) (idToAffinity : StringMap Affinity)
    (secretClient : String → Option String) (volumeMap : StringMap Volume) (dbc : DB.Container) :
    Option PodSpec := do
  let image ← podImage images dbc
  let (hashes, missing) := makeSecretHashEnvVars sha1 secretClient (getReferencedSecrets ords dbc)
  if missing = [] then
    let userVolumes ← dbc.volumeMounts.mapM (fun m => volumeMap.lookup m.volumeName)
    some (podSpec sha1 ords idToAffinity hashes dbc image userVolumes)
  else none

/-- What it takes to make a pod. -/
theorem makePod_eq_some_iff {ords : Nat → MapOrder} {images : List Image}
    {idToAffinity : StringMap Affinity} {secretClient : String → Option String}
    {volumeMap : StringMap Volume} {dbc : DB.Container} {pod : PodSpec} :
    makePod sha1 ords images idToAffinity secretClient volumeMap dbc = some pod ↔
      ∃ image userVolumes, podImage images dbc = some image ∧
        (makeSecretHashEnvVars sha1 secretClient (getReferencedSecrets ords dbc)).2 = [] ∧
        dbc.volumeMounts.mapM (fun m => volumeMap.lookup m.volumeName) = some userVolumes ∧
        pod = podSpec sha1 ords idToAffinity
          (makeSecretHashEnvVars sha1 secretClient (getReferencedSecrets ords dbc)).1 dbc image
          userVolumes := by
  simp only [makePod, Option.bind_eq_bind, Option.bind_eq_some_iff]
  constructor
  · rintro ⟨image, hImage, hRest⟩
    split at hRest
    · next hMissing =>
        obtain ⟨userVolumes, hVolumes, hPod⟩ := Option.bind_eq_some_iff.mp hRest
        exact ⟨image, userVolumes, hImage, hMissing, hVolumes, (Option.some.inj hPod).symm⟩
    · cases hRest
  · rintro ⟨image, userVolumes, hImage, hMissing, hVolumes, rfl⟩
    refine ⟨image, hImage, ?_⟩
    rw [if_pos hMissing, hVolumes]
    rfl

end Pods

section Deployments

def envHashKey : String := "env-hash"

def filesHashKey : String := "files-hash"

def dockerfileHashKey : String := "dockerfile-hash"

def imageKey : String := "friendly-image"

/-- The annotations are used to match up pods with containers. -/
def makeAnnotations (ords : Nat → MapOrder) (dbc : DB.Container) : StringMap String :=
  (((((∅ : StringMap String).insert dockerfileHashKey (hashStr sha1 dbc.dockerfile)).insert
    filesHashKey (hashContainerValueMap sha1 ords dbc.filepathToContent)).insert
    envHashKey (hashContainerValueMap sha1 (laterOrders ords 2) dbc.env)).insert
    imageKey dbc.image).insert "keldaIP" dbc.ip

def makeDeployment (ords : Nat → MapOrder) (dbc : DB.Container) (pod : PodSpec) : Deployment where
  name := dbc.hostname
  labels := (∅ : StringMap String).insert hostnameKey dbc.hostname
  annotations := makeAnnotations sha1 ords dbc
  spec := pod
  matchLabels := (∅ : StringMap String).insert hostnameKey dbc.hostname
  strategy := "Recreate"

/-- Why the deployments could not be computed. -/
inductive DesiredError where
  | noBlueprint
  | volume (text : String)
deriving DecidableEq

def hostPathVolume (volume : Blueprint.Volume) : Volume where
  name := volume.name
  source := .hostPath ((volume.conf.lookup "path").getD "")

def makeVolume (volume : Blueprint.Volume) : Except DesiredError Volume :=
  if volume.type = "hostPath" then .ok (hostPathVolume volume)
  else .error (.volume ("unknown volume type: " ++ volume.type))

def addVolume (volumeMap : StringMap Volume) (volume : Blueprint.Volume) :
    Except DesiredError (StringMap Volume) := do
  let kubeVolume ← makeVolume volume
  .ok (volumeMap.insert volume.name kubeVolume)

/-- A later volume replaces an earlier one of the same name. -/
def makeVolumeMap (volumes : List Blueprint.Volume) : Except DesiredError (StringMap Volume) :=
  volumes.foldlM addVolume ∅

/-- The outer error is a panic. -/
def makeDesiredDeployments (ords : Nat → MapOrder) (view : Database)
    (secretClient : String → Option String) :
    Except String (Except DesiredError (List Deployment)) := do
  match ← getBlueprint (ords 0) view with
  | .error _ => .ok (.error .noBlueprint)
  | .ok bp =>
    let containers := view.select (ords 1) .container (fun dbc => dbc.ip ≠ "")
    let images := view.selectAll (ords 2) .image
    let idToAffinity := toAffinities (view.selectAll (ords 3) .placement)
    match makeVolumeMap bp.blueprint.volumes with
    | .error err => .ok (.error err)
    | .ok volumeMap =>
      .ok (.ok (containers.filterMap (fun dbc =>
        (makePod sha1 (laterOrders ords 5) images idToAffinity secretClient volumeMap dbc).map
          (makeDeployment sha1 (laterOrders ords 17) dbc))))

/-- A call of the deployments client. An update is retried on conflicts. -/
inductive Call where
  | update (deployment : Deployment)
  | create (deployment : Deployment)
  | delete (name : String)
deriving DecidableEq

/-- Existing deployments are updated, missing ones created, others deleted. -/
def syncDeployments (ord : MapOrder) (desired current : List Deployment) : List Call :=
  let res := hashJoin ord desired current Deployment.name Deployment.name
  res.pairs.map (fun p => .update p.L) ++ res.lonelyLefts.map .create ++
    res.lonelyRights.map (fun d => .delete d.name)

/-- The calls of one round. An error while the deployments are computed is only
logged, unless there is no blueprint. -/
def updateDeployments (ords : Nat → MapOrder) (current : Option (List Deployment))
    (view : Database) (secretClient : String → Option String) : Except String (List Call) :=
  match current with
  | none => .ok []
  | some items => do
    match ← makeDesiredDeployments sha1 (laterOrders ords 1) view secretClient with
    | .ok desired => .ok (syncDeployments (ords 0) desired items)
    | .error .noBlueprint => .ok []
    | .error (.volume _) => .ok (syncDeployments (ords 0) [] items)

end Deployments

section Teardown

variable {sha1} {volumes : List Blueprint.Volume} {volumeMap : StringMap Volume}
  {ords : Nat → MapOrder} {view : Database} {secretClient : String → Option String}

theorem addVolume_hostPath {volume : Blueprint.Volume} (h : volume.type = "hostPath") :
    addVolume volumeMap volume = .ok (volumeMap.insert volume.name (hostPathVolume volume)) := by
  rw [addVolume, makeVolume, if_pos h]
  rfl

/-- The first volume that cannot be converted ends the loop. -/
theorem foldlM_addVolume_error (h : ∃ volume ∈ volumes, volume.type ≠ "hostPath")
    (volumeMap : StringMap Volume) :
    ∃ text, volumes.foldlM addVolume volumeMap = .error (.volume text) := by
  induction volumes generalizing volumeMap with
  | nil =>
      obtain ⟨volume, hMem, -⟩ := h
      cases hMem
  | cons volume volumes ih =>
      by_cases hType : volume.type = "hostPath"
      · obtain ⟨bad, hBad, hUnknown⟩ := h
        have hLater : bad ∈ volumes := by
          rcases List.mem_cons.mp hBad with rfl | hBad
          · exact absurd hType hUnknown
          · exact hBad
        rw [List.foldlM_cons, addVolume_hostPath hType]
        exact ih ⟨bad, hLater, hUnknown⟩ _
      · use "unknown volume type: " ++ volume.type
        rw [List.foldlM_cons, addVolume, makeVolume, if_neg hType]
        rfl

/-- The name of a volume is its key in the map. -/
def KeyedByName (volumeMap : StringMap Volume) : Prop :=
  ∀ name volume, volumeMap.lookup name = some volume → volume.name = name

/-- Otherwise the map is complete, and its volumes are named by their keys. -/
theorem foldlM_addVolume_ok (h : ∀ volume ∈ volumes, volume.type = "hostPath")
    (hNames : KeyedByName volumeMap) :
    ∃ volumeMap', volumes.foldlM addVolume volumeMap = .ok volumeMap' ∧
      KeyedByName volumeMap' := by
  induction volumes generalizing volumeMap with
  | nil => exact ⟨volumeMap, rfl, hNames⟩
  | cons volume volumes ih =>
      rw [List.foldlM_cons, addVolume_hostPath (h volume (List.mem_cons_self ..))]
      apply ih (fun v hv => h v (List.mem_cons_of_mem _ hv))
      intro name v hLookup
      by_cases hName : name = volume.name
      · rw [hName, Finmap.lookup_insert] at hLookup
        rw [← Option.some.inj hLookup, hName]
        rfl
      · rw [Finmap.lookup_insert_of_ne _ hName] at hLookup
        exact hNames name v hLookup

theorem KeyedByName.empty : KeyedByName ∅ := by
  intro name volume hLookup
  rw [Finmap.lookup_empty] at hLookup
  cases hLookup

/-- Every volume of the map can be found under its name. -/
theorem keyed_of_makeVolumeMap (h : makeVolumeMap volumes = .ok volumeMap) :
    KeyedByName volumeMap := by
  by_cases hTypes : ∀ volume ∈ volumes, volume.type = "hostPath"
  · obtain ⟨volumeMap', hOk, hKeyed⟩ := foldlM_addVolume_ok hTypes KeyedByName.empty
    rw [makeVolumeMap, hOk] at h
    cases h
    exact hKeyed
  · push Not at hTypes
    obtain ⟨text, hErr⟩ := foldlM_addVolume_error hTypes ∅
    rw [makeVolumeMap, hErr] at h
    cases h

/-- Without desired deployments all those that exist are deleted. -/
theorem syncDeployments_nil (ord : MapOrder) (items : List Deployment) :
    (syncDeployments ord [] items).Perm (items.map (fun d => .delete d.name)) := by
  have hJoin := hashJoin_reconciles ord ([] : List Deployment) items Deployment.name Deployment.name
  obtain ⟨hPairs, hLefts⟩ := List.append_eq_nil_iff.mp (List.subset_nil.mp hJoin.lefts)
  have hRights := hJoin.rights
  rw [List.map_eq_nil_iff] at hPairs
  simp only [hPairs, List.map_nil, List.nil_append] at hRights
  simp only [syncDeployments, hPairs, hLefts, List.map_nil, List.nil_append]
  exact hRights.map _

/-- With a blueprint, only its volumes can be the error. -/
theorem makeDesiredDeployments_of_blueprint {bp : BlueprintRow}
    (h : view.rows .blueprint = [bp]) {err : DesiredError} :
    makeDesiredDeployments sha1 ords view secretClient = .ok (.error err) ↔
      makeVolumeMap bp.blueprint.volumes = .error err := by
  have hGet : getBlueprint (ords 0) view = .ok (.ok bp) := getBlueprint_single h
  simp only [makeDesiredDeployments, hGet, bind, Except.bind]
  cases hVolumes : makeVolumeMap bp.blueprint.volumes with
  | error e => simp only [Except.ok.injEq, Except.error.injEq]
  | ok volumeMap => simp only [Except.ok.injEq, reduceCtorEq]

/-- With a volume that cannot be converted the round deletes what exists. -/
theorem updateDeployments_of_unknown {bp : BlueprintRow} (h : view.rows .blueprint = [bp])
    (hUnknown : ∃ volume ∈ bp.blueprint.volumes, volume.type ≠ "hostPath")
    (items : List Deployment) :
    updateDeployments sha1 ords (some items) view secretClient =
      .ok (syncDeployments (ords 0) [] items) := by
  obtain ⟨text, hVolumes⟩ := foldlM_addVolume_error hUnknown ∅
  rw [updateDeployments, (makeDesiredDeployments_of_blueprint h).mpr hVolumes]
  rfl

/-- An error leaves the deployments alone exactly if there are none, or if every
volume of the blueprint can be converted. -/
theorem updateDeployments_idle_iff (sha1 : String → String) (view : Database)
    (secretClient : String → Option String) (items : List Deployment) :
    (∀ ords err, makeDesiredDeployments sha1 (laterOrders ords 1) view secretClient =
        .ok (.error err) →
      updateDeployments sha1 ords (some items) view secretClient = .ok []) ↔
    items = [] ∨ ∀ bp, view.rows .blueprint = [bp] →
      ∀ volume ∈ bp.blueprint.volumes, volume.type = "hostPath" := by
  constructor
  · intro h
    by_contra hNot
    push Not at hNot
    obtain ⟨hItems, bp, hBlueprint, hUnknown⟩ := hNot
    obtain ⟨text, hVolumes⟩ := foldlM_addVolume_error hUnknown ∅
    have hIdle := h (fun _ => .stored) _ ((makeDesiredDeployments_of_blueprint hBlueprint).mpr
      hVolumes)
    rw [updateDeployments_of_unknown hBlueprint hUnknown] at hIdle
    have hDeletes := syncDeployments_nil .stored items
    rw [Except.ok.inj hIdle] at hDeletes
    exact hItems (List.map_eq_nil_iff.mp (List.nil_perm.mp hDeletes))
  · intro h ords err hErr
    rw [updateDeployments, hErr]
    cases err with
    | noBlueprint => rfl
    | volume text =>
        change Except.ok (syncDeployments (ords 0) [] items) = _
        rcases h with rfl | h
        · rw [List.perm_nil.mp (syncDeployments_nil (ords 0) [])]
        · rw [makeDesiredDeployments] at hErr
          obtain ⟨got, hGet, hRest⟩ := Except.exists_of_bind_eq_ok hErr
          cases got with
          | error e => cases hRest
          | ok bp =>
              have hRows := rows_of_getBlueprint hGet
              have hVolumes := (makeDesiredDeployments_of_blueprint hRows).mp hErr
              obtain ⟨volumeMap, hOk, -⟩ := foldlM_addVolume_ok (h bp hRows) KeyedByName.empty
              rw [makeVolumeMap, hOk] at hVolumes
              cases hVolumes

/-- A blueprint with a volume of another type. -/
def nfsView : Database where
  rows
    | .blueprint => [{ id := 1, blueprint := {
        containers := [], loadBalancers := [], connections := [], placements := [], machines := [],
        volumes := [{ name := "data", type := "nfs", conf := ∅ }] } }]
    | _ => []
  shouldAlert := fun _ => false
  curID := 1
  nodup := fun tt => by cases tt <;> simp
  bounded := fun tt => by cases tt <;> simp [getID]

def runningDeployment : Deployment where
  name := "web"
  labels := ∅
  annotations := ∅
  spec := { hostname := "web", containers := [], affinity := none, dnsPolicy := "", volumes := [] }
  matchLabels := ∅
  strategy := "Recreate"

/-- The volume is an error, and the deployment that runs is deleted. -/
theorem unknown_volume_deletes :
    makeDesiredDeployments (fun s => s) (fun _ => .stored) nfsView (fun _ => none) =
        .ok (.error (.volume "unknown volume type: nfs")) ∧
      updateDeployments (fun s => s) (fun _ => .stored) (some [runningDeployment]) nfsView
        (fun _ => none) = .ok [.delete "web"] := by
  constructor
  · rfl
  · rfl

end Teardown

end Kelda.Kubernetes
