import Kruise.Sidecar.Types

/-!
# Hot upgrade of sidecar containers

The consistency of a pod with its reported state and the choice of the container to upgrade
(`sidecarset_control.go` 44-61, 98-264, `util_hotupgrade.go` 103-135), the upgrade of a pod
(`sidecarset_processor.go` 553-610) and the flip (`sidecarset_hotupgrade.go` 66-152). Only images
change.
-/

namespace Kruise.Sidecar

open Lib.Keyed

variable (set : SidecarSet) (pod : Pod)

def isSidecarContainerUpdateCompleted (containers : List String) : Bool :=
  pod.statuses.all fun cs =>
    if cs.name∈containers then
      match pod.lastImageIDs set.name cs.name with
      | some old => !(old=cs.imageID&&pod.image cs.name≠cs.image)
      | none => true
    else true

/- The loop over the pod's containers. An image that is no digest ends it, and the recorded image
IDs decide; the loop that comes to its end has seen digests only. -/
def isStateConsistentLoop (env : Externals) (set : SidecarSet) (pod : Pod) (names : List String) :
    List Container → Bool
  | [] => true
  | c::cs =>
    if c.name∉names then isStateConsistentLoop env set pod names cs
    else if !env.isImageDigest c.image then isSidecarContainerUpdateCompleted set pod names
    else match findKey ContainerStatus.name c.name pod.statuses with
      | none => false
      | some st =>
        if !env.isContainerImageEqual c.image st.imageID then false
        else isStateConsistentLoop env set pod names cs

variable (env : Externals)

def isPodStateConsistent (set : SidecarSet) (pod : Pod) (names : List String) : Bool :=
  if pod.containers.length≠pod.statuses.length then false
  else isStateConsistentLoop env set pod
    (if names.length=0 then getSidecarContainersInPod set else names) pod.containers

def isReadyAndConsistent (set : SidecarSet) (pod : Pod) (name : String) : Bool :=
  (pod.status name).ready&&isPodStateConsistent env set pod [name]

/- The name of the container to upgrade, and the other one of the pair. -/
def findContainerToHotUpgrade (set : SidecarSet) (s : SidecarContainer) (pod : Pod) : String × String :=
  let c1:=pod.container (getHotUpgradeContainerName s.name).1
  let c2:=pod.container (getHotUpgradeContainerName s.name).2
  if c1.image=s.hotUpgradeEmptyImage then (c1.name,c2.name)
  else if c2.image=s.hotUpgradeEmptyImage then (c2.name,c1.name)
  else
    let c1Ready:=isReadyAndConsistent env set pod c1.name
    let c2Ready:=isReadyAndConsistent env set pod c2.name
    if c1Ready&&!c2Ready then (c2.name,c1.name)
    else if !c1Ready&&c2Ready then (c1.name,c2.name)
    else
      let workOlder:=getPodHotUpgradeContainers s.name pod
      (workOlder.2,workOlder.1)

/- The image compared with the one of the spec is that of the other container of a pair. -/
def upgradeSidecarContainer (set : SidecarSet) (s : SidecarContainer) (pod : Pod) : Option Container :=
  let toUpgradeOther :=
    if s.hotUpgrade then findContainerToHotUpgrade env set s pod else (s.name,s.name)
  if s.image=pod.image toUpgradeOther.2 then none
  else some {pod.container toUpgradeOther.1 with image := s.image}

def updateContainerInPod (c : Container) (pod : Pod) : Pod :=
  {pod with containers := replaceKey Container.name c pod.containers}

def olderSidecar (s : SidecarContainer) (newName : String) : String :=
  let names:=getHotUpgradeContainerName s.name
  if names.1=newName then names.2 else names.1

def hotUpgradeAnnotations (s : SidecarContainer) (newName : String) (pod : Pod) : Pod :=
  let older:=olderSidecar s newName
  {pod with
    working := Function.update pod.working s.name newName
    version := Function.update pod.version newName set.resourceVersion
    versionAlt := Function.update
      (Function.update pod.versionAlt newName
        (Function.update pod.version newName set.resourceVersion older))
      older set.resourceVersion}

/- One turn of the loop of `updatePodSidecarContainer`; the second component collects the names of
the changed containers. -/
def upgradeOne (set : SidecarSet) (acc : Pod × List String) (s : SidecarContainer) : Pod × List String :=
  match upgradeSidecarContainer env set s acc.1 with
  | none => acc
  | some c =>
    let pod:=updateContainerInPod c acc.1
    (if s.hotUpgrade then hotUpgradeAnnotations set s c.name pod else pod,acc.2++[c.name])

/- Records the image IDs of the changed containers as they are reported now. -/
def updatePodAnnotationsInUpgrade (changed : List String) (pod : Pod) : Pod :=
  {pod with
    lastImageIDs := Function.update pod.lastImageIDs set.name fun name =>
      if name∈changed then some (pod.status name).imageID else pod.lastImageIDs set.name name}

def updatePodSidecarSetHash (set : SidecarSet) (pod : Pod) : Pod :=
  {pod with hash := Function.update pod.hash set.name (env.getSidecarSetRevision set)}

def updatePodSidecarContainer (set : SidecarSet) (pod : Pod) : Pod :=
  let upgraded:=set.containers.foldl (upgradeOne env set) (pod,[])
  updatePodAnnotationsInUpgrade set upgraded.2 (updatePodSidecarSetHash env set upgraded.1)

def isSidecarSetUpgradable (set : SidecarSet) (pod : Pod) : Bool :=
  (getSidecarContainersInPod set).all fun name =>
    !((pod.status name).ready&&!isPodStateConsistent env set pod [name])

/- The test of `GetNextUpgradePods` for one pod; image changes leave the hash without images alone.
-/
def canUpgrade (set : SidecarSet) (pod : Pod) : Bool :=
  env.getSidecarSetRevision set≠pod.hash set.name&&isSidecarSetUpgradable env set pod

def flipOne (acc : Pod × List String) (s : SidecarContainer) : Pod × List String :=
  let workContainer:=(getPodHotUpgradeContainers s.name acc.1).1
  let emptyContainer:=(getPodHotUpgradeContainers s.name acc.1).2
  if !s.hotUpgrade then acc
  else if acc.1.image emptyContainer=s.hotUpgradeEmptyImage then acc
  else
    let containerNeedFlip:=acc.1.container emptyContainer
    let pod:=updateContainerInPod
      {containerNeedFlip with image := s.hotUpgradeEmptyImage} acc.1
    ({pod with
        version := Function.update pod.version containerNeedFlip.name "0"
        versionAlt := Function.update pod.versionAlt workContainer "0" },
      acc.2++[containerNeedFlip.name])

def flipPodSidecarContainerDo : Pod :=
  let flipped:=set.containers.foldl flipOne (pod,[])
  updatePodAnnotationsInUpgrade set flipped.2 flipped.1

/- The containers of the hot-upgrade sidecars that do not work. -/
def emptyContainers : List String :=
  (set.containers.filter SidecarContainer.hotUpgrade).map fun s =>
    (getPodHotUpgradeContainers s.name pod).2

def isPodSidecarInHotUpgrading : Bool :=
  set.containers.any fun s =>
    s.hotUpgrade&&pod.image (getPodHotUpgradeContainers s.name pod).2≠s.hotUpgradeEmptyImage

def isHotUpgradingReady : Bool :=
  pod.runningAndReady ||
    pod.statuses.all fun cs => cs.name∈emptyContainers set pod||cs.ready

/- The test by which `UpdateSidecarSet` chooses the pods to flip. -/
def canFlip (set : SidecarSet) (pod : Pod) : Bool :=
  isPodSidecarInHotUpgrading set pod &&
    isPodStateConsistent env set pod
      ((getSidecarContainersInPod set).filter fun n => n∉emptyContainers set pod) &&
    isHotUpgradingReady set pod

end Kruise.Sidecar
