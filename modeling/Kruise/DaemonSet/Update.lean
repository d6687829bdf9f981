import Kruise.DaemonSet.Types
import Kruise.Lib.Quota
import Mathlib.Data.List.Dedup
import Mathlib.Data.List.Sort

/-!
# The rolling update of a DaemonSet

`rollingUpdate` (`daemonset_update.go` 43-366) with the request phase `syncNodes`
(`daemonset_controller.go` 677-836). The order of the Go map of nodes and whether a pod can be
updated in place are parameters; requests to the API server succeed.
-/

namespace Kruise.DaemonSet

open Lib.Keyed
open CloneSet (isPodHooked)

variable (ds : DaemonSetSpec) (nodes : List Node) (now : Int) (hash : String) (pods : List Pod) (m : NodePods)

def addDesiredNode (node : Node) : NodePods :=
  if shouldRun ds node&&!decide (node.name∈m.keys) then {m with keys := m.keys++[node.name]}
  else m

def updatedDesiredNodeCounts : Option (Int × Int) :=
  let desiredNumberScheduled:=nodes.countP (shouldRun ds)
  (unavailableCount ds desiredNumberScheduled).bind fun maxUnavailable =>
    (surgeCount ds desiredNumberScheduled).map fun maxSurge =>
      if desiredNumberScheduled > 0 ∧ maxUnavailable=0 ∧ maxSurge=0 then (maxSurge,1)
      else (maxSurge,maxUnavailable)

inductive NodeClass
  | updated
  | updating
  | selected
  | rest
  deriving DecidableEq

def nodeClass (nodeName : String) : NodeClass :=
  match findUpdatedPodsOnNode ds hash (m.pods nodeName) with
  | none => .updated
  | some (some _,_) => .updated
  | some (none,oldPod) =>
    if isPodNilOrPreDeleting oldPod then .updating
    else match ds.rolling.bind (·.selector) with
      | none => .rest
      | some selector =>
        -- the names left at this point are those of existing nodes, so the lookup succeeds
        if (findKey Node.name nodeName nodes).any fun node => selector.matches node.labels then
          .selected
        else .rest

def nodesOfClass (c : NodeClass) : List String :=
  (m.keys.insertionSort (· ≤ ·)).reverse.filter fun n => nodeClass ds nodes hash m n=c

def filterDaemonPodsNodeToUpdate : List String :=
  let partition:=(ds.rolling.bind (·.partition)).getD 0
  let last:=if (ds.rolling.bind (·.selector)).isSome then NodeClass.selected else .rest
  let sorted:=nodesOfClass ds nodes hash m .updated ++
    (nodesOfClass ds nodes hash m .updating++nodesOfClass ds nodes hash m last)
  let maxUpdate:=(m.keys.length : Int)-partition
  if maxUpdate≤0 then [] else sorted.take maxUpdate.toNat

def filterDaemonPodsToUpdate : List String :=
  filterDaemonPodsNodeToUpdate ds nodes hash
    {m with keys := m.keys.filter fun n => n∈nodes.map Node.name}

def desiredNodePods : NodePods :=
  nodes.foldl (addDesiredNode ds) (getNodesToDaemonPods pods)

def nodesToUpdate (hash : String) : List String :=
  filterDaemonPodsToUpdate ds nodes hash (desiredNodePods ds nodes pods)

/- A charge on `maxUnavailable`, an old pod that is not available and may go, or an old pod that may
go within the limit. -/
inductive NodeUpdate
  | charge (n : Nat)
  | replace (oldPod : Pod)
  | candidate (oldPod : Pod)

def nodeUpdate : NodeUpdate :=
  match findUpdatedPodsOnNode ds hash pods with
  | none => .charge 1
  | some (newPod,oldPod) =>
    if isPodNilOrPreDeleting oldPod&&isPodNilOrPreDeleting newPod ||
        !isPodNilOrPreDeleting oldPod&&!isPodNilOrPreDeleting newPod then .charge 1
    else match newPod,oldPod with
      | some newPod,_ =>
        .charge ((if !isPodAvailable ds now newPod then 1 else 0) +
          if isPodPreDeleting newPod then 1 else 0)
      | none,some oldPod =>
        if !isPodAvailable ds now oldPod then .replace oldPod else .candidate oldPod
      | none,none => .charge 0

structure ReplaceTally where
  numUnavailable : Int
  allowedReplacementPods : List String
  candidatePodsToDelete : List String

def replaceTurn (maxUnavailable : Int) (t : ReplaceTally) (nodeName : String) : ReplaceTally :=
  match nodeUpdate ds now hash (podsOnNode pods nodeName) with
  | .charge n => {t with numUnavailable := t.numUnavailable+n}
  | .replace oldPod =>
    {t with allowedReplacementPods := t.allowedReplacementPods++[oldPod.name]}
  | .candidate oldPod =>
    if t.numUnavailable ≥ maxUnavailable then t
    else {t with candidatePodsToDelete := t.candidatePodsToDelete++[oldPod.name]}

def podsToReplace (maxUnavailable : Int) (nodeNames : List String) : List String :=
  let t:=nodeNames.foldl (replaceTurn ds now hash pods maxUnavailable) ⟨0,[],[]⟩
  t.allowedReplacementPods++t.candidatePodsToDelete.take (maxUnavailable-t.numUnavailable).toNat

inductive NodeSurge
  | idle
  | charge
  | replace
  | candidate
  | finished (oldPod : Pod)

def nodeSurge : NodeSurge :=
  match findUpdatedPodsOnNode ds hash pods with
  | none => .charge
  | some (_,none) => .idle
  | some (newPod,some oldPod) =>
    if isPodPreDeleting oldPod then .idle
    else match newPod with
      | none => if !isPodAvailable ds now oldPod then .replace else .candidate
      | some newPod =>
        if !isPodAvailable ds now newPod then .charge
        else if isPodPreDeleting newPod then .charge
        else .finished oldPod

structure SurgeTally where
  oldPodsToDelete : List String
  candidateNewNodes : List String
  allowedNewNodes : List String
  numSurge : Int

def surgeTurn (maxSurge : Int) (t : SurgeTally) (nodeName : String) : SurgeTally :=
  match nodeSurge ds now hash (podsOnNode pods nodeName) with
  | .idle => t
  | .charge => {t with numSurge := t.numSurge+1}
  | .replace => {t with allowedNewNodes := t.allowedNewNodes++[nodeName]}
  | .candidate =>
    if t.numSurge ≥ maxSurge then t
    else {t with candidateNewNodes := t.candidateNewNodes++[nodeName]}
  | .finished oldPod => {t with oldPodsToDelete := t.oldPodsToDelete++[oldPod.name]}

def podsToSurge (maxSurge : Int) (nodeNames : List String) : List String × List String :=
  let t:=nodeNames.foldl (surgeTurn ds now hash pods maxSurge) ⟨[],[],[],0⟩
  (t.oldPodsToDelete,
    t.allowedNewNodes++t.candidateNewNodes.take (maxSurge-t.numSurge).toNat)

inductive InPlaceResult
  | notInPlace
  | updated
  | failed
  deriving DecidableEq

structure InPlaceApi where
  canUpdateInPlace : Pod → Bool
  update : Pod → InPlaceResult

/- Pods updated in place, pods that still have to be deleted, and whether an update failed. -/
def inPlaceUpdatePods (api : InPlaceApi) (ds : DaemonSetSpec) (pods : List Pod)
    (podNames : List String) : List String × List String × Bool :=
  let canUpdate (pod : Pod) : Bool := pod.readinessGate&&api.canUpdateInPlace pod
  let podsToUpdate:=(podNames.filterMap fun n =>
    (findKey (fun p : Pod => p.name) n pods).filter canUpdate).take (getBurstReplicas ds).toNat
  let needDelete:=podNames.filter fun n =>
    !(findKey (fun p : Pod => p.name) n pods).any canUpdate
  ((podsToUpdate.filter fun p => decide (api.update p=.updated)).map (·.name),
    needDelete++(podsToUpdate.filter fun p => decide (api.update p=.notInPlace)).map (·.name),
    podsToUpdate.any fun p => decide (api.update p=.failed))

/- Pods marked as preparing delete, pods deleted and nodes for which a pod is created. -/
structure Requests where
  inPlaceUpdated : List String
  preparingDelete : List String
  deleted : List String
  created : List String

def syncNodes (podsToDelete : List String) (nodesNeedingDaemonPods : List String) : Requests :=
  let hooked (n : String) : Bool :=
    ds.preDelete.isSome &&
      (findKey (fun p : Pod => p.name) n pods).any fun p => isPodHooked ds.preDelete p.toPod
  let gone (n : String) : Bool :=
    ds.preDelete.isSome&&(findKey (fun p : Pod => p.name) n pods).isNone
  let burstReplicas:=(getBurstReplicas ds).toNat
  { inPlaceUpdated := []
    preparingDelete := podsToDelete.filter hooked
    deleted := (podsToDelete.filter fun n => !hooked n&&!gone n).take burstReplicas
    created := nodesNeedingDaemonPods.take burstReplicas}

/- `none` is a limit that does not resolve. An update in place that fails ends the call before
anything is deleted. -/
def rollingUpdate (api : InPlaceApi) (order : MapOrder) (ds : DaemonSetSpec) (now : Int)
    (nodes : List Node) (pods : List Pod) (hash : String) : Option Requests :=
  (updatedDesiredNodeCounts ds nodes).bind fun counts =>
    let nodeNames:=order.order (nodesToUpdate ds nodes pods hash)
    if counts.1=0 then
      let oldPodsToDelete:=podsToReplace ds now hash pods counts.2 nodeNames
      if (ds.rolling.map (·.type))=some .inPlace then
        let inPlace:=inPlaceUpdatePods api ds pods oldPodsToDelete
        if inPlace.2.2 then some ⟨inPlace.1,[],[],[]⟩
        else some {syncNodes ds pods inPlace.2.1 [] with inPlaceUpdated := inPlace.1}
      else some (syncNodes ds pods oldPodsToDelete [])
    else
      let surge:=podsToSurge ds now hash pods counts.1 nodeNames
      some (syncNodes ds pods surge.1 surge.2)

end Kruise.DaemonSet
