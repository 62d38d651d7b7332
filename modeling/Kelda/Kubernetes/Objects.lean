import Kelda.DB.Rows

/-! The Kubernetes objects that the minion writes and reads, with the fields that
it sets or looks at. A field that is a pointer in the source is optional. -/
namespace Kelda.Kubernetes

/-- What a volume is made of. The zero value is no source at all. -/
inductive VolumeSource where
  | unset
  | secret (secretName : String)
  | configMap (name : String) (defaultMode : Nat)
  | hostPath (path : String)
deriving DecidableEq

structure Volume where
  name : String
  source : VolumeSource := .unset
deriving DecidableEq

structure VolumeMount where
  name : String
  mountPath : String
  subPath : String := ""
deriving DecidableEq

structure SecretKeySelector where
  name : String
  key : String
deriving DecidableEq

structure EnvVar where
  name : String
  value : String := ""
  valueFrom : Option SecretKeySelector := none
deriving DecidableEq

structure PodAffinityTerm where
  matchLabels : StringMap String
  topologyKey : String
deriving DecidableEq

inductive NodeSelectorOperator where
  | opIn
  | opNotIn
deriving DecidableEq

structure NodeSelectorRequirement where
  key : String
  operator : NodeSelectorOperator
  values : List String
deriving DecidableEq

/-- The terms of the pod anti-affinity, and the match expressions of the only
node selector term. -/
structure Affinity where
  podAntiAffinity : Option (List PodAffinityTerm) := none
  nodeAffinity : Option (List NodeSelectorRequirement) := none
deriving DecidableEq

/-- A security context says whether the container is privileged. -/
structure Container where
  name : String
  image : String
  env : List EnvVar
  args : List String
  volumeMounts : List VolumeMount
  privileged : Option Bool
deriving DecidableEq

structure PodSpec where
  hostname : String
  containers : List Container
  affinity : Option Affinity
  dnsPolicy : String
  volumes : List Volume
deriving DecidableEq

structure Deployment where
  name : String
  labels : StringMap String
  annotations : StringMap String
  spec : PodSpec
  matchLabels : StringMap String
  strategy : String
deriving DecidableEq

/-- The state of a container, of which at most one part is set. -/
structure ContainerState where
  running : Option Int := none
  waiting : Option String := none
  terminated : Option String := none
deriving DecidableEq

structure PodCondition where
  type : String
  status : String
deriving DecidableEq

structure Pod where
  name : String
  annotations : StringMap String
  spec : PodSpec
  hostIP : String
  containerStatuses : List ContainerState
  conditions : List PodCondition
deriving DecidableEq

structure ConfigMap where
  name : String
  data : StringMap String
deriving DecidableEq

end Kelda.Kubernetes
