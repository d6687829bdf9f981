import Kruise.Apis.StatefulSetConversion
import Kruise.CloneSet.Types
import Kruise.Lib.Slots
import Kruise.UpdateSort.Priority

/-!
# Advanced StatefulSets and their pods

The stored version of a StatefulSet, its pods, and the functions of `stateful_set_utils.go`.
`created` says that `status.phase` is set, `terminating` that a deletion timestamp is, and
`podNameLabel` is the `statefulset.kubernetes.io/pod-name` label.
-/

namespace Kruise.StatefulSet

open Apis Util.IntStr Util.Selector Lib.Slots
open CloneSet (LifecycleState second isConditionAvailable)
open UpdateSort (UpdatePriorityStrategy trailingDigits)

structure Volume where
  name : String
  claimName : Option String
  deriving DecidableEq,Repr

/- `deleting` says that a deletion timestamp is set. -/
structure ObjectMeta where
  name : String
  namespaceName : String
  generation : Int
  deleting : Bool

structure PodTemplateSpec extends CloneSet.PodTemplate where
  volumes : List Volume

structure ClaimTemplate where
  name : String

structure InPlaceUpdateStrategy where
  gracePeriodSeconds : Int

inductive ConditionType
  | failedCreatePod | failedUpdatePod
  deriving DecidableEq,Repr

structure Condition where
  type : ConditionType
  status : CloneSet.ConditionStatus
  reason : String
  message : String

abbrev setParts : Parts where
  ObjectMeta := ObjectMeta
  LabelSelector := LabelSelector
  PodTemplateSpec := PodTemplateSpec
  PersistentVolumeClaim := ClaimTemplate
  InPlaceUpdateStrategy := InPlaceUpdateStrategy
  UpdatePriorityStrategy := UpdatePriorityStrategy
  Lifecycle := CloneSet.Lifecycle
  StatefulSetCondition := Condition

abbrev Sts := V1beta1.StatefulSet setParts

abbrev Status := V1beta1.StatefulSetStatus setParts

structure Env extends CloneSet.Env where
  statefulSetAutoDeletePVC : Bool

variable (set : Sts)

/- `*set.Spec.Replicas`, which defaulting fills in. -/
def replicasOf : Int := set.spec.replicas.getD 1

def allowsBurst : Bool := set.spec.podManagementPolicy=.parallel

def getMinReadySeconds : Int :=
  (set.spec.updateStrategy.rollingUpdate.bind (·.minReadySeconds)).getD 0

structure Pod extends CloneSet.Pod where
  created : Bool
  terminating : Bool
  namespaceName : String
  podNameLabel : String
  volumes : List Volume

variable (pod : Pod)

def isCreated : Bool := pod.created

def isFailed : Bool := pod.created&&pod.phase=.failed

def isTerminating : Bool := pod.terminating

def isRunningAndReady : Bool :=
  pod.created&&pod.phase=.running&&pod.ready.any (·.status=.true)

/- The time to wait, which is returned as well, only delays the next reconcile. -/
def isRunningAndAvailable (now : Int) (pod : Pod) (minReadySeconds : Int) : Bool :=
  isRunningAndReady pod&&(minReadySeconds=0 ||
    (pod.ready.bind (·.lastTransitionTime)).any fun t => t+minReadySeconds*second≤now)

def isHealthy : Bool :=
  (pod.lifecycleState=.unset||pod.lifecycleState=.normal) &&
    isRunningAndReady pod&&!isTerminating pod

theorem isRunningAndReady_of_available {now : Int} {pod : Pod} {minReadySeconds : Int}
    (h : isRunningAndAvailable now pod minReadySeconds) : isRunningAndReady pod := by
  rw [isRunningAndAvailable,Bool.and_eq_true] at h
  exact h.1

theorem not_isFailed_of_available {now : Int} {pod : Pod} {minReadySeconds : Int}
    (h : isRunningAndAvailable now pod minReadySeconds) : isFailed pod=false := by
  have hr:=isRunningAndReady_of_available h
  simp only [isRunningAndReady,Bool.and_eq_true,decide_eq_true_eq] at hr
  simp [isFailed,hr.1.2]

/- The submatches of `(.*)-([0-9]+)$`. -/
def splitOrdinal (name : String) : Option (String × List Char) :=
  let digits:=trailingDigits name
  match name.toList.reverse.drop digits.length with
  | '-'::rest => if digits.isEmpty then none else some (String.ofList rest.reverse,digits)
  | _ => none

/- A number that does not fit into an `int32` leaves the ordinal at -1. -/
def getParentNameAndOrdinal : String × Int :=
  match splitOrdinal pod.name with
  | none => ("",-1)
  | some (parent,digits) =>
    (parent,match parseNat digits with
      | none => -1
      | some n => if n<2^31 then n else -1)

def getOrdinal : Int := (getParentNameAndOrdinal pod).2

def getPodName (ordinal : Int) : String :=
  set.objectMeta.name ++ "-" ++ toString ordinal

def getPersistentVolumeClaimName (claim : ClaimTemplate) (ordinal : Int) : String :=
  claim.name ++ "-" ++ set.objectMeta.name ++ "-" ++ toString ordinal

def identityMatches : Bool :=
  let parentAndOrdinal:=getParentNameAndOrdinal pod
  parentAndOrdinal.2 ≥ 0&&set.objectMeta.name=parentAndOrdinal.1 &&
    pod.name=getPodName set parentAndOrdinal.2 &&
    pod.namespaceName=set.objectMeta.namespaceName&&pod.podNameLabel=pod.name

/- Of two volumes of one name the map keeps the second. -/
def storageMatches : Bool :=
  let ordinal:=getOrdinal pod
  ordinal ≥ 0&&set.spec.volumeClaimTemplates.all fun claim =>
    (pod.volumes.reverse.find? (·.name=claim.name)).any fun volume =>
      volume.claimName=some (getPersistentVolumeClaimName set claim ordinal)

/-! ## The range of ordinals (`stateful_set_utils.go:716-726`) -/

def isReserved (ordinal : Int) : Bool := ordinal∈set.spec.reserveOrdinals

def replicaCountLoop (set : Sts) : Nat → Nat → Nat → Nat
  | 0,replicaCount,_ => replicaCount
  | fuel+1,replicaCount,realReplicaCount =>
    if (realReplicaCount : Int)<replicasOf set then
      if isReserved set replicaCount then
        replicaCountLoop set fuel (replicaCount+1) realReplicaCount
      else replicaCountLoop set fuel (replicaCount+1) (realReplicaCount+1)
    else replicaCount

/- The number of `getStatefulSetReplicasRange`; a turn of the loop counts a replica or passes a
reserved ordinal. -/
def replicaCountOf : Nat :=
  replicaCountLoop set ((replicasOf set).toNat+set.spec.reserveOrdinals.length) 0 0

def isValidOrdinal (ordinal : Nat) : Bool :=
  ordinal<replicaCountOf set&&!isReserved set ordinal

/-! ## New pods (`stateful_set_utils.go:440-500`) -/

def lifecycleStateOf (labels : Labels) : LifecycleState :=
  match labels "lifecycle.apps.kruise.io/state" with
  | none => .unset
  | some state =>
    if state = "" then .unset
    else if state = "PreparingNormal" then .preparingNormal
    else if state = "Normal" then .normal
    else if state = "PreparingUpdate" then .preparingUpdate
    else if state = "Updating" then .updating
    else if state = "Updated" then .updated
    else if state = "PreparingDelete" then .preparingDelete
    else .other state

structure Revision where
  name : String
  /-- The template that applying the patch gives, if it applies. -/
  template : Option PodTemplateSpec

def applyRevision (template : PodTemplateSpec) : Sts :=
  {set with spec := {set.spec with template := template}}

def getPodRevision : String := pod.revisionHash

def setLabel (labels : Labels) (key value : String) : Labels :=
  fun k => if k=key then some value else labels k

def setPodRevision (revision : String) : Pod :=
  {pod with
    revisionHash := revision
    labels := setLabel pod.labels "controller-revision-hash" revision}

def updateIdentity : Pod :=
  let name:=getPodName set (getOrdinal pod)
  {pod with
    name := name
    namespaceName := set.objectMeta.namespaceName
    podNameLabel := name
    labels := setLabel pod.labels "statefulset.kubernetes.io/pod-name" name}

def updateStorage : Pod :=
  let claims:=set.spec.volumeClaimTemplates
  {pod with
    volumes := claims.map (fun claim =>
        ⟨claim.name,some (getPersistentVolumeClaimName set claim (getOrdinal pod))⟩) ++
      pod.volumes.filter fun volume => volume.name∉claims.map (·.name)}

def podFromTemplate (ordinal : Nat) : Pod :=
  { name := getPodName set ordinal
    revisionHash := ""
    lifecycleState := lifecycleStateOf set.spec.template.labels
    specifiedDelete := false
    phase := .pending
    ready := none
    inPlaceReady := none
    inPlaceGrace := ""
    templateHash := false
    finalizers := set.spec.template.finalizers
    labels := set.spec.template.labels
    created := false
    terminating := false
    namespaceName := ""
    podNameLabel := ""
    volumes := set.spec.template.volumes}

def newStatefulSetPod (ordinal : Nat) : Pod :=
  updateStorage set (updateIdentity set (podFromTemplate set ordinal))

section

variable (env : Env) (updateRevision : String)

def notUpdated (replica : Option Pod) : Bool :=
  replica.any fun pod => !CloneSet.isPodUpdate env.toEnv pod.toPod updateRevision

def noUpdatedReplicas (ordinal : Nat) (replicas : List (Option Pod)) : Nat :=
  countOthers (notUpdated env updateRevision) ordinal replicas

def isCurrentRevisionNeeded (set : Sts) (ordinal : Nat) (replicas : List (Option Pod)) : Bool :=
  if set.spec.updateStrategy.type≠.rollingUpdate then false
  else match set.spec.updateStrategy.rollingUpdate with
    | none => (ordinal : Int)<set.status.currentReplicas
    | some rolling =>
      if rolling.unorderedUpdate.isNone then (ordinal : Int)<rolling.partition.getD 0
      else (noUpdatedReplicas env updateRevision ordinal replicas : Int)<rolling.partition.getD 0

def newVersionedStatefulSetPod (currentSet updateSet : Sts) (currentRevision : String)
    (ordinal : Nat) (replicas : List (Option Pod)) : Pod :=
  if isCurrentRevisionNeeded env updateRevision currentSet ordinal replicas then
    setPodRevision (newStatefulSetPod currentSet ordinal) currentRevision
  else setPodRevision (newStatefulSetPod updateSet ordinal) updateRevision

end

end Kruise.StatefulSet
