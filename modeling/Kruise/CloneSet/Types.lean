import Kruise.Util.IntStr
import Mathlib.Data.List.TakeWhile

/-!
# CloneSets, their pods, and when a pod counts as available

The fields that scaling and updating read. `revisionHash` is the `controller-revision-hash` label
and `inPlaceGrace` the grace annotation, both empty when missing; `specifiedDelete` and
`templateHash` say that the labels are there; `inPlaceReady` is the status of the
`InPlaceUpdateReady` condition; `deletionCost` is the annotation. Times are nanoseconds, and the
zero time is `none`.
-/

namespace Kruise.CloneSet

open Util.IntStr

/-- The `lifecycle.apps.kruise.io/state` label (`apis/apps/pub/lifecycle.go`). -/
inductive LifecycleState
  | unset
  | preparingNormal
  | normal
  | preparingUpdate
  | updating
  | updated
  | preparingDelete
  | other (label : String)
  deriving DecidableEq,Repr

inductive PodPhase
  | pending | running | succeeded | failed | unknown
  deriving DecidableEq,Repr

inductive ConditionStatus
  | true | false | unknown
  deriving DecidableEq,Repr

/- The `Ready` condition; a zero `LastTransitionTime` is `none`. -/
structure ReadyCondition where
  status : ConditionStatus
  lastTransitionTime : Option Int
  deriving DecidableEq,Repr

structure Pod where
  name : String
  revisionHash : String
  lifecycleState : LifecycleState
  specifiedDelete : Bool
  phase : PodPhase
  ready : Option ReadyCondition
  inPlaceReady : Option ConditionStatus
  inPlaceGrace : String
  templateHash : Bool
  finalizers : List String
  labels : String → Option String
  uid : String := ""
  nodeName : String := ""
  deletionCost : Option String := none
  restartCounts : List Int := []
  creationTime : Option Int := none

structure LifecycleHook where
  labelsHandler : List (String × String)
  finalizersHandler : List String
  markPodNotReady : Bool

structure Lifecycle where
  preDelete : Option LifecycleHook
  inPlaceUpdate : Option LifecycleHook
  preNormal : Option LifecycleHook

inductive UpdateStrategyType
  | reCreate | inPlaceIfPossible | inPlaceOnly
  deriving DecidableEq,Repr

structure PodTemplate where
  finalizers : List String
  labels : String → Option String

/- `spec.replicas` is filled in by defaulting, so the nil check at the top of
`Scale` has no counterpart here. `scalingExcludeLabel` is the label
`apps.kruise.io/cloneset-scaling-exclude-preparing-delete`. -/
structure CloneSetSpec where
  name : String
  replicas : Int
  minReadySeconds : Int
  template : PodTemplate
  podsToDelete : List String
  scaleMaxUnavailable : Option IntOrString
  updateType : UpdateStrategyType
  partition : Option IntOrString
  maxUnavailable : Option IntOrString
  maxSurge : Option IntOrString
  paused : Bool
  lifecycle : Option Lifecycle
  scalingExcludeLabel : Option String

structure Env where
  cloneSetPartitionRollback : Bool
  preparingUpdateAsUpdate : Bool
  podUnavailableBudgetUpdateGate : Bool
  cloneSetShortHash : Bool
  scalingExcludePreparingDelete : Bool
  float : FloatOps

def readyPod (name revisionHash : String) : Pod :=
  { name := name
    revisionHash := revisionHash
    lifecycleState := .normal
    specifiedDelete := false
    phase := .running
    ready := some ⟨.true,some 0⟩
    inPlaceReady := none
    inPlaceGrace := ""
    templateHash := true
    finalizers := []
    labels := fun _ => none}

def plainSpec (replicas : Int) : CloneSetSpec :=
  { name := "web"
    replicas := replicas
    minReadySeconds := 0
    template := ⟨[],fun _ => none⟩
    podsToDelete := []
    scaleMaxUnavailable := none
    updateType := .inPlaceIfPossible
    partition := none
    maxUnavailable := some (.int 1)
    maxSurge := none
    paused := false
    lifecycle := none
    scalingExcludeLabel := none}

def quietEnv : Env :=
  { cloneSetPartitionRollback := false
    preparingUpdateAsUpdate := false
    podUnavailableBudgetUpdateGate := false
    cloneSetShortHash := false
    scalingExcludePreparingDelete := false
    float := ⟨fun _ _ _ => none⟩}

/-! ## Revisions (`cloneset_utils.go:59-88`, `pkg/util/revision/revision.go`) -/

-- the part of a revision name after its last dash
def getShortHash (hash : String) : String :=
  String.ofList ((hash.toList.reverse.takeWhile (· ≠ '-')).reverse)

def equalToRevisionHash (pod : Pod) (hash : String) : Bool :=
  pod.revisionHash=hash||getShortHash hash=getShortHash pod.revisionHash

def isPodUpdate (env : Env) (pod : Pod) (updateRevision : String) : Bool :=
  (env.preparingUpdateAsUpdate&&pod.lifecycleState=.preparingUpdate) ||
    equalToRevisionHash pod updateRevision

def writeRevisionHash (env : Env) (pod : Pod) (hash : String) : Pod :=
  {pod with
    revisionHash := if env.cloneSetShortHash then getShortHash hash else hash
    templateHash := true}

theorem getShortHash_getShortHash (hash : String) : getShortHash (getShortHash hash)=getShortHash hash := by
  simp only [getShortHash,String.toList_ofList,List.reverse_reverse,List.takeWhile_idem]

theorem equalToRevisionHash_writeRevisionHash (env : Env) (pod : Pod) (hash other : String) :
    equalToRevisionHash (writeRevisionHash env pod hash) other ↔ getShortHash other=getShortHash hash := by
  unfold equalToRevisionHash writeRevisionHash
  cases he : env.cloneSetShortHash with
  | false =>
    simp only [Bool.false_eq_true,if_false,Bool.or_eq_true,decide_eq_true_eq]
    constructor
    · intro h
      rcases h with rfl | h
      · rfl
      · exact h
    · exact .inr
  | true =>
    simp only [if_true,Bool.or_eq_true,decide_eq_true_eq,getShortHash_getShortHash]
    constructor
    · intro h
      rcases h with rfl | h
      · exact getShortHash_getShortHash hash
      · exact h
    · exact .inr

def second : Int := 1000000000

variable (now : Int) (hook : Option LifecycleHook)

-- `podutil.IsPodAvailable` at time `now`
def isConditionAvailable (pod : Pod) (minReadySeconds : Int) : Bool :=
  match pod.ready with
  | none => false
  | some c =>
    c.status=.true&&(minReadySeconds=0 ||
      match c.lastTransitionTime with
      | none => false
      | some t => t+minReadySeconds*second<now)

-- `commonControl.IsPodUpdateReady`
def isPodUpdateReady (pod : Pod) (minReadySeconds : Int) : Bool :=
  pod.phase=.running&&isConditionAvailable now pod minReadySeconds &&
    (pod.inPlaceReady=none||pod.inPlaceReady=some .true)

/-- `IsPodAvailable` (`cloneset_sync_utils.go:288-294`). -/
def isPodAvailable (pod : Pod) (minReadySeconds : Int) : Bool :=
  (pod.lifecycleState=.unset||pod.lifecycleState=.normal) &&
    isPodUpdateReady now pod minReadySeconds

def isPodReady (pod : Pod) : Bool :=
  isPodAvailable now pod 0

theorem isPodReady_of_isPodAvailable (pod : Pod) (minReadySeconds : Int)
    (h : isPodAvailable now pod minReadySeconds) : isPodReady now pod := by
  simp only [isPodReady,isPodAvailable,isPodUpdateReady,isConditionAvailable, Bool.and_eq_true] at h ⊢
  obtain ⟨hst,⟨hph,hr⟩,hi⟩ := h
  refine ⟨hst,⟨hph,?_⟩,hi⟩
  cases hc : pod.ready with
  | none => simp [hc] at hr
  | some c =>
    simp only [hc,Bool.and_eq_true] at hr
    simpa using hr.1

theorem lifecycleState_of_isPodAvailable (pod : Pod) (minReadySeconds : Int)
    (h : isPodAvailable now pod minReadySeconds) : pod.lifecycleState=.unset ∨ pod.lifecycleState=.normal := by
  simp only [isPodAvailable,Bool.and_eq_true,Bool.or_eq_true,decide_eq_true_eq] at h
  exact h.1

/-! ## Hooks and deletion marks (`pkg/util/lifecycle`, `pkg/util/specifieddelete`) -/

def isPodHooked (pod : Pod) : Bool :=
  match hook with
  | none => false
  | some h =>
    h.finalizersHandler.any (· ∈ pod.finalizers) ||
      h.labelsHandler.any fun kv => (pod.labels kv.1).getD "" = kv.2

def isPodAllHooked (pod : Pod) : Bool :=
  match hook with
  | none => false
  | some h =>
    h.finalizersHandler.all (· ∈ pod.finalizers) &&
      h.labelsHandler.all fun kv => (pod.labels kv.1).getD "" = kv.2

def isHookMarkPodNotReady : Bool :=
  (hook.map (·.markPodNotReady)).getD false

def isLifecycleMarkPodNotReady (l : Option Lifecycle) : Bool :=
  match l with
  | none => false
  | some l => isHookMarkPodNotReady l.preDelete||isHookMarkPodNotReady l.inPlaceUpdate

def isSpecifiedDelete (cs : CloneSetSpec) (pod : Pod) : Bool :=
  pod.specifiedDelete||pod.name∈cs.podsToDelete

def shouldScalingExcludePreparingDelete (env : Env) (cs : CloneSetSpec) : Bool :=
  env.scalingExcludePreparingDelete||cs.scalingExcludeLabel=some "true"

/- The API server's answers to the readiness condition of `executePodNotReadyPolicy` and to the
patch of the state label. -/
structure LifecycleApi where
  notReadyOk : Pod → LifecycleState → Bool
  patchOk : Pod → LifecycleState → Bool

/-- `UpdatePodLifecycle` (`lifecycle_utils.go:125-152`): `none` is an error, otherwise
whether the pod was patched. -/
def updatePodLifecycle (api : LifecycleApi) (pod : Pod) (state : LifecycleState)
    (markPodNotReady : Bool) : Option Bool :=
  if markPodNotReady&&!api.notReadyOk pod state then none
  else if pod.lifecycleState=state then some false
  else if api.patchOk pod state then some true
  else none

end Kruise.CloneSet
