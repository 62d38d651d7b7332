import Kelda.DB.Loops
import Kelda.Kubernetes.Deployment

/-! The status of the containers. Pods are matched with containers by a key that
is computed twice, from the row of the container and from the pod that was made
for it. Containers without a pod are told what they wait for. -/
namespace Kelda.Kubernetes

open DB Join Minion

section Model

variable (sha1 : String → String)

/-- The key of the join. Lists and maps are compared by their texts. -/
structure JoinKey where
  hostname : String
  image : String
  command : String
  envHash : String
  filepathToContentHash : String
  dockerfileHash : String
  privileged : Bool
deriving DecidableEq

def dbcKey (ords : Nat → MapOrder) (dbc : DB.Container) : JoinKey where
  hostname := dbc.hostname
  image := dbc.image
  command := Str.formatSlice dbc.command
  envHash := hashContainerValueMap sha1 ords dbc.env
  filepathToContentHash := hashContainerValueMap sha1 (laterOrders ords 2) dbc.filepathToContent
  dockerfileHash := hashStr sha1 dbc.dockerfile
  privileged := dbc.privileged

/-- A missing annotation is empty. -/
def annotation (pod : Pod) (key : String) : String := (pod.annotations.lookup key).getD ""

/-- Pods with several containers have a key of their own. -/
def podKey (pod : Pod) : Option JoinKey :=
  match pod.spec.containers with
  | [container] => some {
      hostname := pod.spec.hostname
      image := annotation pod imageKey
      command := Str.formatSlice container.args
      envHash := annotation pod envHashKey
      filepathToContentHash := annotation pod filesHashKey
      dockerfileHash := annotation pod dockerfileHashKey
      privileged := container.privileged.getD false }
  | _ => none

/-- The pairs, and the containers without information. -/
def joinContainersToPods (ords : Nat → MapOrder) (dbcs : List DB.Container) (pods : List Pod) :
    List (Pair DB.Container Pod) × List DB.Container :=
  let res := hashJoin (ords 0) dbcs pods (fun dbc => some (dbcKey sha1 (laterOrders ords 1) dbc))
    podKey
  (res.pairs, res.lonelyLefts)

/-- Why a container has not been scheduled yet. -/
def statusForContainer (ords : Nat → MapOrder) (imageMap : AList (fun _ : String × String => Image))
    (secretClient : String → Option String) (dbc : DB.Container) : String :=
  let missing := (makeSecretHashEnvVars sha1 secretClient (getReferencedSecrets ords dbc)).2
  if missing ≠ [] then
    "Waiting for secrets: " ++ Str.formatSlice (missing.insertionSort (· ≤ ·))
  else ((imageMap.lookup (dbc.image, dbc.dockerfile)).map Image.status).getD ""

def podScheduled : String := "PodScheduled"

def conditionTrue : String := "True"

/-- The status of a pod, and the time it was started if it is running. -/
def statusForPod (pod : Pod) : String × Int :=
  match pod.containerStatuses with
  | [status] =>
    match status.running, status.waiting, status.terminated with
    | some startedAt, _, _ => ("running", startedAt)
    | none, some reason, _ => ("waiting: " ++ reason, 0)
    | none, none, some reason => ("terminated: " ++ reason, 0)
    | none, none, none => ("unrecognized container state", 0)
  | _ =>
    if pod.conditions.any (fun c => c.status = conditionTrue ∧ c.type = podScheduled) then
      ("scheduled", 0)
    else ("no status information", 0)

/-- The row of a container with a pod. -/
def withPod (dbc : DB.Container) (pod : Pod) : DB.Container :=
  { dbc with
    status := (statusForPod pod).1
    created := (statusForPod pod).2
    podName := pod.name
    minion := pod.hostIP }

/-- The row of a container without a pod. The time is unset in case it was set
when the container was running in the past. -/
def withoutPod (dbc : DB.Container) (status : String) : DB.Container :=
  { dbc with
    status := status
    created := 0 }

def imageKeyOf (img : Image) : String × String := (img.name, img.dockerfile)

/-- The transaction on the Image and Container tables. -/
def updateContainerStatuses (ords : Nat → MapOrder) (pods : Option (List Pod))
    (secretClient : String → Option String) (view : Database) : Except String Database :=
  match pods with
  | none => .ok view
  | some items => do
    let (pairs, noInfoContainers) :=
      joinContainersToPods sha1 (laterOrders ords 2) (view.selectAll (ords 0) .container) items
    let view ← view.commitAll .container (fun pod dbc => withPod dbc pod) (pairs.map Pair.swap)
    let imageMap := KeyedMap.fill imageKeyOf (view.selectAll (ords 1) .image)
    view.commitEach .container
      (fun dbc => withoutPod dbc
        (statusForContainer sha1 (laterOrders ords 7) imageMap secretClient dbc)) noInfoContainers

end Model

section Matching

variable {sha1 : String → String} {c d : DB.Container} {spec : PodSpec} {pod : Pod}

/-- A pod of a deployment has the annotations and the spec of its template. -/
structure CreatedFrom (deployment : Deployment) (pod : Pod) : Prop where
  annotations : pod.annotations = deployment.annotations
  spec : pod.spec = deployment.spec

/-- What the pods of two containers have in common if either could stand for the
other. -/
structure SameSpec (c d : DB.Container) : Prop where
  hostname : c.hostname = d.hostname
  image : c.image = d.image
  dockerfile : c.dockerfile = d.dockerfile
  privileged : c.privileged = d.privileged
  command : c.command = d.command
  env : c.env = d.env
  filepathToContent : c.filepathToContent = d.filepathToContent

/-- The same, with the list and the maps compared by their texts. -/
structure SameTexts (c d : DB.Container) : Prop where
  hostname : c.hostname = d.hostname
  image : c.image = d.image
  dockerfile : c.dockerfile = d.dockerfile
  privileged : c.privileged = d.privileged
  command : " ".intercalate c.command = " ".intercalate d.command
  env : Blueprint.valuesText c.env = Blueprint.valuesText d.env
  filepathToContent :
    Blueprint.valuesText c.filepathToContent = Blueprint.valuesText d.filepathToContent

theorem SameSpec.texts (h : SameSpec c d) : SameTexts c d where
  hostname := h.hostname
  image := h.image
  dockerfile := h.dockerfile
  privileged := h.privileged
  command := by rw [h.command]
  env := by rw [h.env]
  filepathToContent := by rw [h.filepathToContent]

theorem hashContainerValueMap_eq (ords : Nat → MapOrder)
    (m : StringMap Blueprint.ContainerValue) :
    hashContainerValueMap sha1 ords m = sha1 ("[" ++ Blueprint.valuesText m ++ "]") := by
  rw [hashContainerValueMap, Blueprint.valueMapAsString_eq, hashStr]

/-- The key of a row does not depend on the walks over its maps. -/
theorem dbcKey_eq (ords ords' : Nat → MapOrder) (dbc : DB.Container) :
    dbcKey sha1 ords dbc = dbcKey sha1 ords' dbc := by
  simp only [dbcKey, hashContainerValueMap_eq]

/-- A pod has the key of the row that it was made from. -/
theorem podKey_of_created {ords : Nat → MapOrder} {images : List Image}
    {idToAffinity : StringMap Affinity} {secretClient : String → Option String}
    {volumeMap : StringMap Volume} {ordsD ordsK : Nat → MapOrder}
    (hSpec : makePod sha1 ords images idToAffinity secretClient volumeMap d = some spec)
    (hPod : CreatedFrom (makeDeployment sha1 ordsD d spec) pod) :
    podKey pod = some (dbcKey sha1 ordsK d) := by
  obtain ⟨image, userVolumes, -, -, -, rfl⟩ := (makePod_eq_some_iff sha1).mp hSpec
  simp only [podKey, annotation, hPod.annotations, hPod.spec, makeDeployment, podSpec,
    makeAnnotations, dbcKey, hashContainerValueMap_eq]
  simp [Finmap.lookup_insert, Finmap.lookup_insert_of_ne, imageKey, envHashKey, filesHashKey,
    dockerfileHashKey]

/-- Without collisions the keys of two rows compare their texts. -/
theorem dbcKey_eq_iff (hSha : Function.Injective sha1) {ords ords' : Nat → MapOrder} :
    dbcKey sha1 ords c = dbcKey sha1 ords' d ↔ SameTexts c d := by
  simp only [dbcKey, hashContainerValueMap_eq, hashStr, Str.formatSlice, JoinKey.mk.injEq,
    hSha.eq_iff]
  constructor
  · rintro ⟨hHost, hImage, hCommand, hEnv, hFiles, hDocker, hPriv⟩
    exact ⟨hHost, hImage, hDocker, hPriv, by simpa using hCommand, by simpa using hEnv,
      by simpa using hFiles⟩
  · intro h
    rw [h.hostname, h.image, h.dockerfile, h.privileged, h.command, h.env, h.filepathToContent]
    simp

/-- In every join the pair has one key. -/
theorem texts_of_paired (hSha : Function.Injective sha1) {ords ords' : Nat → MapOrder}
    {dbcs : List DB.Container} {pods : List Pod} (hPod : podKey pod = some (dbcKey sha1 ords' d))
    (h : ⟨c, pod⟩ ∈ (joinContainersToPods sha1 ords dbcs pods).1) : SameTexts c d := by
  have hKey := (hashJoin_reconciles (ords 0) dbcs pods
    (fun dbc => some (dbcKey sha1 (laterOrders ords 1) dbc)) podKey).sameKey _ h
  rw [hPod] at hKey
  exact (dbcKey_eq_iff hSha).mp (Option.some.inj hKey)

/-- A container and a pod with the key of the container, and no others with it,
are paired. -/
theorem paired_of_texts (hSha : Function.Injective sha1) {ords ords' : Nat → MapOrder}
    {dbcs : List DB.Container} {pods : List Pod} (hPod : podKey pod = some (dbcKey sha1 ords' d))
    (hc : c ∈ dbcs) (hMem : pod ∈ pods) (hOwn : ∀ c' ∈ dbcs, SameTexts c' c → c' = c)
    (hOwn' : ∀ pod' ∈ pods, podKey pod' = podKey pod → pod' = pod) (h : SameTexts c d) :
    ⟨c, pod⟩ ∈ (joinContainersToPods sha1 ords dbcs pods).1 := by
  apply (hashJoin_reconciles (ords 0) dbcs pods _ podKey).mem_pairs_of_own_key hc hMem
  · rw [hPod]
    exact congrArg some ((dbcKey_eq_iff hSha).mpr h)
  · intro c' hc' hKey
    exact hOwn c' hc' ((dbcKey_eq_iff hSha).mp (Option.some.inj hKey))
  · exact hOwn'

/-- The pods of one container are paired with another exactly if the two ask for
the same pod, provided that this can be seen from the texts of their lists and
maps. -/
theorem paired_iff_sameSpec_iff (sha1 : String → String) (hSha : Function.Injective sha1)
    (c d : DB.Container) (ords : Nat → MapOrder) (images : List Image)
    (idToAffinity : StringMap Affinity) (secretClient : String → Option String)
    (volumeMap : StringMap Volume) (spec : PodSpec)
    (hSpec : makePod sha1 ords images idToAffinity secretClient volumeMap d = some spec) :
    (∀ ordsD ordsJ pod, CreatedFrom (makeDeployment sha1 ordsD d spec) pod → ∀ dbcs pods,
      (⟨c, pod⟩ ∈ (joinContainersToPods sha1 ordsJ dbcs pods).1 → SameSpec c d) ∧
      (c ∈ dbcs → pod ∈ pods → (∀ c' ∈ dbcs, SameTexts c' c → c' = c) →
        (∀ pod' ∈ pods, podKey pod' = podKey pod → pod' = pod) → SameSpec c d →
        ⟨c, pod⟩ ∈ (joinContainersToPods sha1 ordsJ dbcs pods).1)) ↔
    (SameTexts c d → SameSpec c d) := by
  constructor
  · intro h hTexts
    let pod : Pod :=
      { name := "", annotations := (makeDeployment sha1 ords d spec).annotations, spec := spec,
        hostIP := "", containerStatuses := [], conditions := [] }
    have hCreated : CreatedFrom (makeDeployment sha1 ords d spec) pod := ⟨rfl, rfl⟩
    have hPod : podKey pod = some (dbcKey sha1 ords d) := podKey_of_created hSpec hCreated
    have hPaired : ⟨c, pod⟩ ∈ (joinContainersToPods sha1 ords [c] [pod]).1 := by
      apply paired_of_texts hSha hPod (List.mem_singleton_self c) (List.mem_singleton_self pod)
      · exact fun c' hc' _ => List.mem_singleton.mp hc'
      · exact fun pod' hPod' _ => List.mem_singleton.mp hPod'
      · exact hTexts
    exact (h ords ords pod hCreated [c] [pod]).1 hPaired
  · intro h ordsD ordsJ pod hCreated dbcs pods
    have hPod : podKey pod = some (dbcKey sha1 ords d) := podKey_of_created hSpec hCreated
    constructor
    · intro hPaired
      exact h (texts_of_paired hSha hPod hPaired)
    · intro hc hMem hOwn hOwn' hSame
      exact paired_of_texts hSha hPod hc hMem hOwn hOwn' hSame.texts

/-- Two containers whose commands are one argument and two. -/
def oneArgument : DB.Container := { id := 1, hostname := "web", image := "nginx", command := ["a b"] }

def twoArguments : DB.Container :=
  { id := 1, hostname := "web", image := "nginx", command := ["a", "b"] }

theorem makePod_twoArguments :
    makePod (fun s => s) (fun _ => .stored) [] ∅ (fun _ => none) ∅ twoArguments =
      some (podSpec (fun s => s) (fun _ => .stored) ∅ [] twoArguments "nginx" []) := by
  have hSecrets : getReferencedSecrets (fun _ => .stored) twoArguments = [] := by
    simp [getReferencedSecrets, twoArguments]
  rw [makePod_eq_some_iff, hSecrets]
  exact ⟨"nginx", [], rfl, rfl, rfl, rfl⟩

/-- A pod that runs with two arguments. -/
def twoArgumentsPod : Pod where
  name := "web-1"
  annotations := makeAnnotations (fun s => s) (fun _ => .stored) twoArguments
  spec := podSpec (fun s => s) (fun _ => .stored) ∅ [] twoArguments "nginx" []
  hostIP := "172.31.0.2"
  containerStatuses := []
  conditions := []

/-- It is taken for the container with one argument. -/
theorem outdated_pod_paired :
    CreatedFrom (makeDeployment (fun s => s) (fun _ => .stored) twoArguments
        (podSpec (fun s => s) (fun _ => .stored) ∅ [] twoArguments "nginx" [])) twoArgumentsPod ∧
      makePod (fun s => s) (fun _ => .stored) [] ∅ (fun _ => none) ∅ twoArguments =
        some (podSpec (fun s => s) (fun _ => .stored) ∅ [] twoArguments "nginx" []) ∧
      ⟨oneArgument, twoArgumentsPod⟩ ∈ (joinContainersToPods (fun s => s) (fun _ => .stored)
        [oneArgument] [twoArgumentsPod]).1 ∧
      ¬SameSpec oneArgument twoArguments := by
  have hCreated : CreatedFrom (makeDeployment (fun s => s) (fun _ => .stored) twoArguments
      (podSpec (fun s => s) (fun _ => .stored) ∅ [] twoArguments "nginx" [])) twoArgumentsPod :=
    ⟨rfl, rfl⟩
  have hPod : podKey twoArgumentsPod = some (dbcKey (fun s => s) (fun _ => .stored) twoArguments) :=
    podKey_of_created makePod_twoArguments hCreated
  refine ⟨hCreated, makePod_twoArguments, ?_, fun h => absurd h.command (by decide)⟩
  apply paired_of_texts (fun _ _ h => h) hPod (List.mem_singleton_self _)
    (List.mem_singleton_self _)
  · exact fun c' hc' _ => List.mem_singleton.mp hc'
  · exact fun pod' hPod' _ => List.mem_singleton.mp hPod'
  · exact ⟨rfl, rfl, rfl, rfl, by decide +kernel, rfl, rfl⟩

theorem twoArguments_paired_iff :
    (∀ ordsD ordsJ pod, CreatedFrom (makeDeployment (fun s => s) ordsD twoArguments
        (podSpec (fun s => s) (fun _ => .stored) ∅ [] twoArguments "nginx" [])) pod →
      ∀ dbcs pods,
      (⟨oneArgument, pod⟩ ∈ (joinContainersToPods (fun s => s) ordsJ dbcs pods).1 →
        SameSpec oneArgument twoArguments) ∧
      (oneArgument ∈ dbcs → pod ∈ pods → (∀ c' ∈ dbcs, SameTexts c' oneArgument →
          c' = oneArgument) →
        (∀ pod' ∈ pods, podKey pod' = podKey pod → pod' = pod) →
        SameSpec oneArgument twoArguments →
        ⟨oneArgument, pod⟩ ∈ (joinContainersToPods (fun s => s) ordsJ dbcs pods).1)) ↔
    (SameTexts oneArgument twoArguments → SameSpec oneArgument twoArguments) :=
  paired_iff_sameSpec_iff (fun s => s) (fun _ _ h => h) oneArgument twoArguments
    (fun _ => .stored) [] ∅ (fun _ => none) ∅ _ makePod_twoArguments

end Matching

end Kelda.Kubernetes
