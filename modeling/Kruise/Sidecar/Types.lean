import Kruise.Lib.Keyed
import Kruise.Util.Selector

/-!
# SidecarSets and the pods they are injected into

The parts of a SidecarSet (`sidecarset_types.go`) and of a pod that the model reads, and the pair of
names of a hot-upgrade sidecar (`util_hotupgrade.go` 46-101). A key missing from an annotation reads
as the empty string. Container names within a pod are distinct, which the API server checks.
-/

namespace Kruise.Sidecar

open Lib.Keyed Util.Selector

inductive PodInjectPolicy where
  | beforeAppContainer
  | afterAppContainer
  deriving DecidableEq,Repr

structure SidecarContainer where
  name : String
  image : String
  hotUpgrade : Bool
  hotUpgradeEmptyImage : String
  podInjectPolicy : PodInjectPolicy
  deriving DecidableEq,Repr

structure Volume where
  name : String
  source : String
  deriving DecidableEq,Repr

inductive PatchPolicy where
  | retain
  | overwrite
  | mergePatchJson
  deriving DecidableEq,Repr

structure PatchPodMetadata where
  annotations : List String
  patchPolicy : PatchPolicy
  deriving DecidableEq,Repr

structure SidecarSet where
  name : String
  selector : LabelSelector
  namespaceName : String
  namespaceSelector : Option LabelSelector
  injectionPaused : Bool
  updatePaused : Bool
  initContainers : List SidecarContainer
  containers : List SidecarContainer
  volumes : List Volume
  patchPodMetadata : List PatchPodMetadata
  resourceVersion : String

/- What the code takes from other packages: the digest test and the digest comparison of an image
with a reported image ID (`pkg/util`), and the hash of the containers of a SidecarSet. -/
structure Externals where
  isImageDigest : String → Bool
  isContainerImageEqual : String → String → Bool
  sidecarSetHash : List SidecarContainer → String

def Externals.getSidecarSetRevision (env : Externals) (set : SidecarSet) : String :=
  env.sidecarSetHash set.containers

structure Container where
  name : String
  image : String
  deriving DecidableEq,Repr

structure ContainerStatus where
  name : String
  ready : Bool
  image : String
  imageID : String
  deriving DecidableEq,Repr

/- `working` is the map of the working hot-upgrade containers by sidecar name, `version` and
`versionAlt` are the two version annotations of each container; `hash` holds the recorded revision
and `lastImageIDs` the image IDs recorded before an in-place update, both by SidecarSet name. -/
structure Pod where
  namespaceName : String
  labels : Labels
  initContainers : List Container
  containers : List Container
  statuses : List ContainerStatus
  runningAndReady : Bool
  working : String → String
  version : String → String
  versionAlt : String → String
  lastImageIDs : String → String → Option String
  hash : String → String

def getHotUpgradeContainerName (name : String) : String × String := (name ++ "-1",name ++ "-2")

def SidecarContainer.podNames (s : SidecarContainer) : List String :=
  if s.hotUpgrade then
    [(getHotUpgradeContainerName s.name).1,(getHotUpgradeContainerName s.name).2]
  else [s.name]

def getSidecarContainersInPod (set : SidecarSet) : List String :=
  set.containers.flatMap SidecarContainer.podNames

/- The working container and the other one of the pair. -/
def getPodHotUpgradeContainers (sidecarName : String) (pod : Pod) : String × String :=
  let names:=getHotUpgradeContainerName sidecarName
  if pod.working sidecarName=names.1 then (names.1,names.2) else (names.2,names.1)

def Pod.container (pod : Pod) (name : String) : Container :=
  (findKey Container.name name pod.containers).getD ⟨"", ""⟩

def Pod.image (pod : Pod) (name : String) : String := (pod.container name).image

def Pod.containerNames (pod : Pod) : List String := pod.containers.map Container.name

def Pod.status (pod : Pod) (name : String) : ContainerStatus :=
  (findKey ContainerStatus.name name pod.statuses).getD ⟨"",false, "", ""⟩

end Kruise.Sidecar
