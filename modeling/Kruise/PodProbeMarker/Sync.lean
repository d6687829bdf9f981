import Kruise.Util.Selector
import Mathlib.Data.List.Infix

/-!
# Probes of a PodProbeMarker on the nodes

`syncPodProbeMarker` with `updateNodePodProbes`, `setPodContainerProbes`, `getMatchingPods`,
`handlerPodProbeMarkerFinalizer` and `removePodProbeFromNodePodProbe`
(`pod_probe_marker_controller.go` 135-417). Names are lists of characters; the lookup of a named
port is a parameter. In an attempt to delete a marker the API server may refuse an update, and the
list of pods may fail.
-/

namespace Kruise.PodProbeMarker

open Util.Selector

def podProbeMarkerFinalizer : String := "kruise.io/node-pod-probe-cleanup"

structure ContainerProbe where
  name : List Char
  containerName : String
  probe : String
  deriving DecidableEq

structure PodProbe where
  name : String
  ns : String
  uid : String
  ip : String
  probes : List ContainerProbe
  deriving DecidableEq

structure NodePodProbe where
  name : String
  podProbes : List PodProbe
  deriving DecidableEq

inductive PodPhase
  | pending
  | running
  | succeeded
  | failed
  | unknown
  deriving DecidableEq

structure Pod where
  name : String
  ns : String
  uid : String
  labels : Labels
  nodeName : String
  podIP : String
  phase : PodPhase
  deleting : Bool
  initialized : Bool

structure PodContainerProbe where
  name : List Char
  containerName : String
  probe : String

structure Marker where
  ns : String
  name : List Char
  deriving DecidableEq

def isPodActive (pod : Pod) : Bool :=
  decide (pod.phase≠.succeeded)&&decide (pod.phase≠.failed)&&!pod.deleting

variable (m : Marker)

def getMatchingPods (selector : LabelSelector) (pods : List Pod) : List Pod :=
  pods.filter fun pod => decide (pod.ns=m.ns)&&selector.matches pod.labels &&
    (isPodActive pod&&decide (pod.nodeName ≠ "")&&pod.initialized)

def probeName (marker probe : List Char) : List Char := marker ++ '#'::probe

variable (convert : Pod → PodContainerProbe → Option String)

/- The probe with its ports looked up; `none` is an error, and the probe is left out. -/
def containerProbe (m : Marker) (pod : Pod) (probe : PodContainerProbe) : Option ContainerProbe :=
  (convert pod probe).map fun text => ⟨probeName m.name probe.name,probe.containerName,text⟩

def setPodContainerProbes (probes : List ContainerProbe) (new : ContainerProbe) : List ContainerProbe :=
  match probes with
  | [] => [new]
  | probe::probes =>
    if probe.name=new.name then new::probes else probe::setPodContainerProbes probes new

def isEntryOf (pod : Pod) (entry : PodProbe) : Bool :=
  decide (entry.name=pod.name ∧ entry.ns=pod.ns ∧ entry.uid=pod.uid)

/- The first entry of the pod takes the probes; without one a new entry is added. -/
def setPodProbe (convert : Pod → PodContainerProbe → Option String) (m : Marker)
    (probes : List PodContainerProbe) (entries : List PodProbe) (pod : Pod) : List PodProbe :=
  match entries with
  | [] => [⟨pod.name,pod.ns,pod.uid,pod.podIP,probes.filterMap (containerProbe convert m pod)⟩]
  | entry::entries =>
    if isEntryOf pod entry then
      {entry with
        ip := if probes≠[] ∧ entry.ip = "" then pod.podIP else entry.ip
        probes := (probes.filterMap (containerProbe convert m pod)).foldl setPodContainerProbes
          entry.probes}::entries
    else entry::setPodProbe convert m probes entries pod

def updateNodePodProbes (m : Marker)
    (probes : List PodContainerProbe) (pods : List Pod) (npp : NodePodProbe) : NodePodProbe :=
  let onNode:=pods.filter fun pod => pod.nodeName=npp.name
  {npp with podProbes := onNode.foldl (setPodProbe convert m probes) npp.podProbes}

def contains (text sub : List Char) : Bool := decide (sub <:+: text)

def removePodProbe (entry : PodProbe) : Option PodProbe :=
  let probes:=entry.probes.filter fun probe => !contains probe.name (m.name++['#'])
  if probes≠[] then some ⟨entry.name,entry.ns,entry.uid, "",probes⟩ else none

def removePodProbeFromNodePodProbe (npps : List NodePodProbe) (nodeName : String) : List NodePodProbe :=
  npps.map fun npp =>
    if npp.name=nodeName then
      {npp with podProbes := npp.podProbes.filterMap (removePodProbe m)}
    else npp

/- `failsAt` is the number of pods after which an update is refused; when the list of pods fails,
its error is dropped and there are no pods. -/
structure Attempt where
  selector : LabelSelector
  pods : List Pod
  listFails : Bool
  failsAt : Option Nat

structure State where
  npps : List NodePodProbe
  finalizers : List String
  deriving DecidableEq

def Attempt.nodes (a : Attempt) : List String :=
  let nodes:=(if a.listFails then [] else getMatchingPods m a.selector a.pods).map (·.nodeName)
  match a.failsAt with
  | none => nodes
  | some k => nodes.take k

def handlerPodProbeMarkerFinalizer (s : State) (a : Attempt) : State :=
  if podProbeMarkerFinalizer∉s.finalizers then s
  else
    let npps:=(a.nodes m).foldl (removePodProbeFromNodePodProbe m) s.npps
    match a.failsAt with
    | some _ => {s with npps := npps}
    | none => ⟨npps,s.finalizers.filter fun f => f≠podProbeMarkerFinalizer⟩

def syncPodProbeMarker (m : Marker)
    (probes : List PodContainerProbe) (deleting : Bool) (s : State) (a : Attempt) : State :=
  if deleting then handlerPodProbeMarkerFinalizer m s a
  else
    ⟨s.npps.map (updateNodePodProbes convert m probes (getMatchingPods m a.selector a.pods)),
      if podProbeMarkerFinalizer∈s.finalizers then s.finalizers
      else s.finalizers++[podProbeMarkerFinalizer]⟩

end Kruise.PodProbeMarker
