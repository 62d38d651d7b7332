import Kelda.DB.Slices
import Kelda.Kubernetes.Objects

/-! Placement rules as affinities of pods. -/
namespace Kelda.Kubernetes

open DB

def hostnameKey : String := "hostname"

def providerKey : String := "kelda.io/host.provider"

def regionKey : String := "kelda.io/host.region"

def sizeKey : String := "kelda.io/host.size"

def floatingIPKey : String := "kelda.io/host.floatingIP"

/-- The pods of a container, by the label of its hostname. -/
def podAffinityTerm (otherContainer : String) : PodAffinityTerm where
  matchLabels := (∅ : StringMap String).insert hostnameKey otherContainer
  topologyKey := "kubernetes.io/hostname"

/-- Inclusive container placement constraints are not supported. -/
def handlePodAffinity (affinity : Affinity) (otherContainer : String) (exclusive : Bool) :
    Affinity :=
  if exclusive then
    { affinity with
      podAntiAffinity :=
        some (affinity.podAntiAffinity.getD [] ++ [podAffinityTerm otherContainer]) }
  else affinity

def nodeRequirement (key value : String) (exclusive : Bool) : NodeSelectorRequirement where
  key := key
  operator := if exclusive then .opNotIn else .opIn
  values := [value]

def handleNodeAffinity (affinity : Affinity) (key value : String) (exclusive : Bool) : Affinity :=
  { affinity with
    nodeAffinity :=
      some (affinity.nodeAffinity.getD [] ++ [nodeRequirement key value exclusive]) }

/-- The constraints on the machine, in a fixed order. -/
def nodeConstraints (plcm : Placement) : List (String × String) :=
  [(providerKey, plcm.provider), (regionKey, plcm.region), (sizeKey, plcm.size),
    (floatingIPKey, plcm.floatingIP)]

/-- The affinity of the target of a placement, with the placement added. -/
def addConstraint (affinity : Affinity) (plcm : Placement) : Affinity :=
  let affinity :=
    if plcm.otherContainer ≠ "" then
      handlePodAffinity affinity plcm.otherContainer plcm.exclusive
    else affinity
  (nodeConstraints plcm).foldl (fun affinity c =>
    if c.2 = "" then affinity else handleNodeAffinity affinity c.1 c.2 plcm.exclusive) affinity

def addPlacement (targetToAffinity : StringMap Affinity) (plcm : Placement) : StringMap Affinity :=
  targetToAffinity.insert plcm.targetContainer
    (addConstraint ((targetToAffinity.lookup plcm.targetContainer).getD {}) plcm)

def placementLess (p r : Placement) : Bool := p.id < r.id

/-- The placements are sorted, so that the affinities will be consistent. -/
def toAffinities (placements : List Placement) : StringMap Affinity :=
  (sortSlice placementLess placements).foldl addPlacement ∅

end Kelda.Kubernetes
