import Kruise.CloneSet.Types
import Kruise.Lib.Keyed
import Kruise.Util.Selector

/-!
# DaemonSets, nodes and the daemon pods on them

The fields that the advanced DaemonSet controller reads and the functions of
`pkg/controller/daemonset/daemonset_util.go`. `targetNode` is what `GetTargetNodeName` finds,
`scheduled` says that `spec.nodeName` is set, `terminating` that a deletion timestamp is.
-/

namespace Kruise.DaemonSet

open Util.IntStr Util.Selector Option
open CloneSet (LifecycleHook isConditionAvailable)

structure Pod extends CloneSet.Pod where
  targetNode : Option String
  scheduled : Bool
  creationTimestamp : Int
  terminating : Bool
  templateGeneration : String
  readinessGate : Bool

/- The scheduler's predicates; `toleratesNoExecute` says that no `NoExecute` taint keeps the pod
out. -/
structure Node where
  name : String
  labels : Labels
  fitsNodeAffinity : Bool
  fitsTaints : Bool
  toleratesNoExecute : Bool

inductive RollingUpdateType
  | standard
  | inPlace
  deriving DecidableEq,Repr

structure RollingUpdate where
  type : RollingUpdateType
  maxUnavailable : Option IntOrString
  maxSurge : Option IntOrString
  selector : Option LabelSelector
  partition : Option Int

inductive UpdateStrategy
  | onDelete
  | rollingUpdate (r : Option RollingUpdate)

/- `templateGeneration` is the deprecated annotation, `progressive` that for progressive creation.
-/
structure DaemonSetSpec where
  templateNodeName : String
  minReadySeconds : Int
  updateStrategy : UpdateStrategy
  burstReplicas : Option IntOrString
  desiredNumberScheduled : Int
  preDelete : Option LifecycleHook
  templateGeneration : Option String
  progressive : Bool

def DaemonSetSpec.rolling (ds : DaemonSetSpec) : Option RollingUpdate :=
  match ds.updateStrategy with
  | .onDelete => none
  | .rollingUpdate r => r

def nodeShouldRunDaemonPod (node : Node) (ds : DaemonSetSpec) : Bool × Bool :=
  if !(ds.templateNodeName = "" || ds.templateNodeName=node.name) then (false,false)
  else if !node.fitsNodeAffinity then (false,false)
  else if !node.fitsTaints then (false,node.toleratesNoExecute)
  else (true,true)

def shouldRun (ds : DaemonSetSpec) (node : Node) : Bool := (nodeShouldRunDaemonPod node ds).1

variable {ds : DaemonSetSpec}

theorem shouldContinue_of_shouldRun {node : Node} (h : shouldRun ds node) :
    (nodeShouldRunDaemonPod node ds).2 := by
  unfold shouldRun nodeShouldRunDaemonPod at h
  unfold nodeShouldRunDaemonPod
  split_ifs at h ⊢
  rfl

def isPodAvailable (ds : DaemonSetSpec) (now : Int) (pod : Pod) : Bool :=
  isConditionAvailable now pod.toPod ds.minReadySeconds

def isPodReady (pod : Pod) : Bool := pod.ready.any fun c => c.status=.true

theorem isPodReady_of_isPodAvailable {now : Int} {pod : Pod}
    (h : isPodAvailable ds now pod) : isPodReady pod := by
  unfold isPodAvailable isConditionAvailable at h
  unfold isPodReady
  cases hr : pod.ready with
  | none => simp [hr] at h
  | some c =>
    simp only [hr,Bool.and_eq_true] at h
    simpa using h.1

def isPodPreDeleting (pod : Pod) : Bool := pod.lifecycleState=.preparingDelete

def isPodNilOrPreDeleting (pod : Option Pod) : Bool := pod.all isPodPreDeleting

def getTemplateGeneration (ds : DaemonSetSpec) : Option Int := ds.templateGeneration.bind atoi

def isPodUpdated (ds : DaemonSetSpec) (hash : String) (pod : Pod) : Bool :=
  (hash ≠ "" && pod.revisionHash=hash) ||
    (getTemplateGeneration ds).any fun g => pod.templateGeneration=toString g

/- The new and the old pod among those that are not terminating; `none` when there are several of a
kind. -/
def findUpdatedLoop (ds : DaemonSetSpec) (hash : String) :
    List Pod → Option Pod → Option Pod → Option (Option Pod × Option Pod)
  | [],newPod,oldPod => some (newPod,oldPod)
  | pod::pods,newPod,oldPod =>
    if pod.terminating then findUpdatedLoop ds hash pods newPod oldPod
    else if isPodUpdated ds hash pod then
      if newPod.isSome then none else findUpdatedLoop ds hash pods (some pod) oldPod
    else if oldPod.isSome then none
    else findUpdatedLoop ds hash pods newPod (some pod)

def findUpdatedPodsOnNode (ds : DaemonSetSpec) (hash : String) (podsOnNode : List Pod) :
    Option (Option Pod × Option Pod) :=
  findUpdatedLoop ds hash podsOnNode none none

def surgeCount (ds : DaemonSetSpec) (numberToSchedule : Int) : Option Int :=
  match ds.rolling.bind (·.maxSurge) with
  | none => some 0
  | some v => getScaledIntOrPercent v numberToSchedule true

def unavailableCount (ds : DaemonSetSpec) (numberToSchedule : Int) : Option Int :=
  match ds.rolling.bind (·.maxUnavailable) with
  | none => some 0
  | some v => getScaledIntOrPercent v numberToSchedule true

def allowSurge (ds : DaemonSetSpec) : Bool := (surgeCount ds 1).any fun maxSurge => maxSurge > 0

def getBurstReplicas (ds : DaemonSetSpec) : Int :=
  (getScaledIntOrPercent (ds.burstReplicas.getD (.int 250)) ds.desiredNumberScheduled false).getD 0

/- A share of the nodes that is not zero is not zero of one node. -/
theorem allowSurge_of_surgeCount {n s : Int} (hn : 0≤n) (hs : 1 ≤ s)
    (h : surgeCount ds n=some s) : allowSurge ds := by
  unfold surgeCount at h
  unfold allowSurge surgeCount
  cases hv : ds.rolling.bind (·.maxSurge) with
  | none =>
    simp only [hv,some.injEq] at h
    omega
  | some v =>
    simp only [hv] at h ⊢
    cases v with
    | int i =>
      simp only [getScaledIntOrPercent,some.injEq] at h ⊢
      simp only [any_some,decide_eq_true_eq]
      omega
    | str t =>
      obtain ⟨p,hp,hval⟩ := map_eq_some_iff.mp h
      simp only [getScaledIntOrPercent,hp,map_some,any_some,decide_eq_true_eq]
      simp only [percentOf,if_true] at hval ⊢
      have hpos : 0<p := by
        by_contra hneg
        have hprod : p*n≤0 := Int.mul_nonpos_of_nonpos_of_nonneg (by omega) hn
        omega
      omega

/- A map from node names to pods: its keys and what it holds at each of them. -/
structure NodePods where
  keys : List String
  pods : String → List Pod

def podsOnNode (pods : List Pod) (node : String) : List Pod :=
  pods.filter fun p => p.targetNode=some node

def getNodesToDaemonPods (pods : List Pod) : NodePods where
  keys := (pods.filterMap (·.targetNode)).dedup
  pods := podsOnNode pods

structure MapOrder where
  order : List String → List String
  perm : ∀ keys,(order keys).Perm keys

def sortedOrder : MapOrder where
  order keys := keys
  perm _ := .refl _

def plainNode (name : String) : Node :=
  { name := name
    labels := fun _ => none
    fitsNodeAffinity := true
    fitsTaints := true
    toleratesNoExecute := true}

def daemonPod (name node hash : String) (ready : Bool) : Pod :=
  {CloneSet.readyPod name hash with
    ready := if ready then some ⟨.true,some 0⟩ else none
    targetNode := some node
    scheduled := true
    creationTimestamp := 0
    terminating := false
    templateGeneration := ""
    readinessGate := false}

def plainDaemonSet (r : RollingUpdate) : DaemonSetSpec :=
  { templateNodeName := ""
    minReadySeconds := 0
    updateStrategy := .rollingUpdate (some r)
    burstReplicas := none
    desiredNumberScheduled := 2
    preDelete := none
    templateGeneration := none
    progressive := false}

end Kruise.DaemonSet
