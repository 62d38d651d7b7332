import Kelda.Blueprint.Values
import Kelda.DB.Database
import Kelda.Kubernetes.Objects
import Kelda.Minion.Engine

/-! The files of the containers are kept in config maps, one for each set of
files. The name of a config map is a hash of its files, so that pods can refer
to it. The hash function is a parameter; it stands for the hexadecimal digits of
the SHA-1 sum. -/
namespace Kelda.Kubernetes

open DB Minion

variable (sha1 : String → String)

/-- A consistent hash of the files. -/
def configMapName (ord : MapOrder) (fm : AList (fun _ : String => String)) : String :=
  sha1 (Str.mapAsString ord fm)

def configMapKey (path : String) : String := sha1 path

/-- The config map of a set of files. -/
def makeConfigMap (ords : Nat → MapOrder) (rawStrings : AList (fun _ : String => String)) :
    ConfigMap where
  name := configMapName sha1 (ords 0) rawStrings
  data := ((ords 1).walk rawStrings.entries).foldl
    (fun data e => data.insert (configMapKey sha1 e.1) e.2) ∅

/-- The config maps found so far, with the set of their names, and one more
container. Containers without plain files are skipped. -/
def addConfigMap (ords : Nat → MapOrder) :
    List ConfigMap × Finset String → DB.Container → List ConfigMap × Finset String
  | (configMaps, hashes), dbc =>
    let rawStrings := (Blueprint.divideContainerValues (ords 0) dbc.filepathToContent).1
    if rawStrings.entries = [] then (configMaps, hashes)
    else
      let config := makeConfigMap sha1 (laterOrders ords 1) rawStrings
      if config.name ∈ hashes then (configMaps, hashes)
      else (configMaps ++ [config], insert config.name hashes)

/-- Duplicate config maps are left out, to avoid creating two with one name. -/
def getDesiredConfigMaps (ords : Nat → MapOrder) (view : Database) : List ConfigMap :=
  ((view.selectAll (ords 0) .container).foldl (addConfigMap sha1 (laterOrders ords 1)) ([], ∅)).1

end Kelda.Kubernetes
