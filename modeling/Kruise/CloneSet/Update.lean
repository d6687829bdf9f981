import Kruise.CloneSet.Counting

/-!
# Updating a CloneSet

`realControl.Update` (`cloneset_update.go:46-388`). The sorters, the in-place update and the API
server are parameters; a sorter only permutes the indexes it is given.
-/

namespace Kruise.CloneSet

open Util.IntStr

structure Sorter where
  sort : List Pod → List Nat → List Nat
  perm : ∀ pods indexes,(sort pods indexes).Perm indexes

structure UpdateSorters where
  default : Sorter
  priority : Option Sorter
  scatter : Option Sorter

inductive InPlaceResult
  | notInPlace
  | updated
  | failed

structure UpdateApi where
  lifecycle : LifecycleApi
  refreshOk : Pod → Bool
  updateCompleted : Pod → Bool
  patchTemplateHashOk : Pod → Bool
  patchSpecifiedDeleteOk : Pod → Bool
  canUpdateInPlace : Pod → Bool
  inPlaceUpdate : Pod → InPlaceResult
  /-- `PodUnavailableBudgetValidatePod`; `none` is an error. -/
  pubAllows : Pod → Option Bool

/-! ## Refreshing the states (`cloneset_update.go:158-236`) -/

def refreshedState (api : UpdateApi) (cs : CloneSetSpec) (pod : Pod) (updateRevision : String) :
    Option LifecycleState :=
  let inPlaceHook:=cs.lifecycle.bind (·.inPlaceUpdate)
  let preNormalHook:=cs.lifecycle.bind (·.preNormal)
  let afterUpdate : LifecycleState :=
    if cs.lifecycle.isSome&&!isPodAllHooked inPlaceHook pod then .updated else .normal
  match pod.lifecycleState with
  | .preparingNormal =>
    if preNormalHook.isNone||isPodAllHooked preNormalHook pod then some .normal else none
  | .preparingUpdate => if equalToRevisionHash pod updateRevision then some afterUpdate else none
  | .updating => if api.updateCompleted pod then some afterUpdate else none
  | .updated =>
    if inPlaceHook.isNone||isPodAllHooked inPlaceHook pod then some .normal else none
  | _ => none

-- `none` is an error, otherwise whether the pod was modified
def refreshPodState (api : UpdateApi) (cs : CloneSetSpec) (pod : Pod) (updateRevision : String) : Option Bool :=
  if !api.refreshOk pod then none
  else match refreshedState api cs pod updateRevision with
    | none => some false
    | some state =>
      updatePodLifecycle api.lifecycle pod state
        (isHookMarkPodNotReady (cs.lifecycle.bind (·.inPlaceUpdate)))

def fixPodTemplateHashLabel (api : UpdateApi) (pod : Pod) : Option Bool :=
  if pod.templateHash then some false
  else if api.patchTemplateHashOk pod then some true
  else none

def refreshPods (api : UpdateApi) (cs : CloneSetSpec) (updateRevision : String) :
    List Pod → Option Bool
  | [] => some false
  | pod::pods => do
    let state ← refreshPodState api cs pod updateRevision
    let hash ← fixPodTemplateHashLabel api pod
    let rest ← refreshPods api cs updateRevision pods
    return state||hash||rest

def podAt (pods : List Pod) (f : Pod → Bool) (i : Nat) : Bool := (pods[i]?).any f

/- Lines 100-131: pods on the wrong side that are neither about to be deleted nor
in the grace period of an earlier update. -/
def canUpdate (updateNum : Int) (updateRevision : String) (pod : Pod) : Bool :=
  let waitUpdate :=
    if updateNum > 0 then !equalToRevisionHash pod updateRevision
    else equalToRevisionHash pod updateRevision
  waitUpdate&&match pod.lifecycleState with
    | .preparingDelete => false
    | .updated => true
    | _ => pod.inPlaceGrace = ""

def waitUpdateIndexes (updateNum : Int) (updateRevision : String) (pods : List Pod) : List Nat :=
  (List.range pods.length).filter (podAt pods (canUpdate updateNum updateRevision))

def preparingUpdateFirst (pods : List Pod) (indexes : List Nat) : List Nat :=
  let preparing:=podAt pods fun p => p.lifecycleState=.preparingUpdate
  indexes.filter preparing++indexes.filter fun i => !preparing i

def sortUpdateIndexes (sorters : UpdateSorters) (pods : List Pod) (indexes : List Nat) : List Nat :=
  let indexes:=sorters.default.sort pods indexes
  let indexes:=match sorters.priority with
    | none => indexes
    | some s => s.sort pods indexes
  let indexes:=match sorters.scatter with
    | none => indexes
    | some s => s.sort pods indexes
  preparingUpdateFirst pods indexes

theorem preparingUpdateFirst_perm (pods : List Pod) (indexes : List Nat) :
    (preparingUpdateFirst pods indexes).Perm indexes :=
  List.filter_append_perm _ _

theorem sortUpdateIndexes_perm (sorters : UpdateSorters) (pods : List Pod) (indexes : List Nat) :
    (sortUpdateIndexes sorters pods indexes).Perm indexes := by
  refine (preparingUpdateFirst_perm _ _).trans ?_
  have hd:=sorters.default.perm pods indexes
  cases sorters.priority with
  | none =>
    cases sorters.scatter with
    | none => exact hd
    | some scatter => exact (scatter.perm pods _).trans hd
  | some priority =>
    have hprio:=(priority.perm pods _).trans hd
    cases sorters.scatter with
    | none => exact hprio
    | some scatter => exact (scatter.perm pods _).trans hprio

/- Lines 367-382: the number of indexes let through, from `canUpdateCount` on. -/
def limitLoop (available : Nat → Bool) (maxUnavailable targetRevisionUnavailable : Int) :
    Int → Int → List Nat → Int
  | _,canUpdateCount,[] => canUpdateCount
  | unavailable,canUpdateCount,i::indexes =>
    if targetRevisionUnavailable+canUpdateCount ≥ maxUnavailable then canUpdateCount
    else if available i then
      if unavailable ≥ maxUnavailable then canUpdateCount
      else limitLoop available maxUnavailable targetRevisionUnavailable (unavailable+1)
        (canUpdateCount+1) indexes
    else limitLoop available maxUnavailable targetRevisionUnavailable unavailable
      (canUpdateCount+1) indexes

def limitUpdateIndexes (now minReadySeconds : Int) (diffs : ExpectationDiffs)
    (indexes : List Nat) (pods : List Pod) (targetRevision : String) : List Nat :=
  let indexes:=indexes.take (intAbs diffs.updateNum).toNat
  let unavailable:=pods.countP fun p => !isPodAvailable now p minReadySeconds
  let targetUnavailable:=pods.countP fun p =>
    !isPodAvailable now p minReadySeconds&&equalToRevisionHash p targetRevision
  indexes.take (limitLoop (podAt pods fun p => isPodAvailable now p minReadySeconds)
    diffs.updateMaxUnavailable targetUnavailable unavailable 0 indexes).toNat

/-! ## Updating one pod (`cloneset_update.go:238-326`) -/

inductive PodUpdate
  | lifecycle (state : LifecycleState)
  | inPlace (revision : String)
  | specifiedDelete

/- `UpdatePodLifecycleWithHandler` does nothing without a handler. -/
def updatePodLifecycleWithHandler (api : LifecycleApi) (pod : Pod) (state : LifecycleState)
    (handler : Option LifecycleHook) : Option Bool :=
  match handler with
  | none => some false
  | some h => updatePodLifecycle api pod state h.markPodNotReady

def recreatePod (api : UpdateApi) (pod : Pod) : Option (Option PodUpdate) :=
  if pod.specifiedDelete then some none
  else if api.patchSpecifiedDeleteOk pod then some (some .specifiedDelete)
  else none

def patchedTo (state : LifecycleState) (patched : Option Bool) : Option (Option PodUpdate) :=
  patched.map fun b => if b then some (.lifecycle state) else none

/- The pod leaves the in-place path with `InPlaceOnly` as an error and with
`InPlaceIfPossible` to be recreated. -/
def backOff (api : UpdateApi) (cs : CloneSetSpec) (pod : Pod) : Option (Option PodUpdate) :=
  if cs.updateType=.inPlaceOnly then none else recreatePod api pod

def updateInPlace (api : UpdateApi) (cs : CloneSetSpec) (targetRevision : String) (pod : Pod) :
    Option (Option PodUpdate) :=
  match api.inPlaceUpdate pod with
  | .updated => some (some (.inPlace targetRevision))
  | .failed => none
  | .notInPlace => backOff api cs pod

-- `none` is an error, `some none` leaves the pod as it is
def updatePod (api : UpdateApi) (cs : CloneSetSpec) (targetRevision : String) (pod : Pod) :
    Option (Option PodUpdate) :=
  let hook:=cs.lifecycle.bind (·.inPlaceUpdate)
  if cs.updateType=.reCreate then recreatePod api pod
  else if !api.canUpdateInPlace pod then backOff api cs pod
  else match pod.lifecycleState with
    | .unset | .preparingNormal | .normal =>
      if isPodHooked hook pod then
        patchedTo .preparingUpdate (updatePodLifecycle api.lifecycle pod .preparingUpdate
          (isHookMarkPodNotReady hook))
      else updateInPlace api cs targetRevision pod
    | .updated =>
      patchedTo .preparingUpdate
        (updatePodLifecycleWithHandler api.lifecycle pod .preparingUpdate hook)
    | .preparingUpdate =>
      if isPodHooked hook pod then some none else updateInPlace api cs targetRevision pod
    | .updating => updateInPlace api cs targetRevision pod
    | _ => none

structure UpdateResult where
  err : Bool
  refreshed : Bool
  updates : List (Pod × PodUpdate)

/- Step 6: a budget that refuses a pod ends the call without an error. -/
def updatePods (env : Env) (api : UpdateApi) (cs : CloneSetSpec) (targetRevision : String) :
    List Pod → UpdateResult
  | [] => ⟨false,false,[]⟩
  | pod::pods =>
    match (if env.podUnavailableBudgetUpdateGate then api.pubAllows pod else some true) with
    | none => ⟨true,false,[]⟩
    | some false => ⟨false,false,[]⟩
    | some true =>
      match updatePod api cs targetRevision pod with
      | none => ⟨true,false,[]⟩
      | some none => updatePods env api cs targetRevision pods
      | some (some u) =>
        let rest:=updatePods env api cs targetRevision pods
        {rest with updates := (pod,u)::rest.updates}

section

variable (env : Env) (api : UpdateApi) (sorters : UpdateSorters) (now : Int) (cs : CloneSetSpec)
variable (currentRevision updateRevision : String) (pods : List Pod)

def updateDiffs : ExpectationDiffs :=
  calculateDiffsWithExpectation env now cs pods currentRevision updateRevision none

def targetRevision : String :=
  if (updateDiffs env now cs currentRevision updateRevision pods).updateNum<0 then currentRevision
  else updateRevision

def selectedIndexes : List Nat :=
  let diffs:=updateDiffs env now cs currentRevision updateRevision pods
  if diffs.updateNum=0 then []
  else
    limitUpdateIndexes now cs.minReadySeconds diffs
      (sortUpdateIndexes sorters pods (waitUpdateIndexes diffs.updateNum updateRevision pods)) pods
      (targetRevision env now cs currentRevision updateRevision pods)

def selectedPods : List Pod :=
  (selectedIndexes env sorters now cs currentRevision updateRevision pods).filterMap (pods[·]?)

def update : UpdateResult :=
  match refreshPods api cs updateRevision pods with
  | none => ⟨true,false,[]⟩
  | some true => ⟨false,true,[]⟩
  | some false =>
    if cs.paused then ⟨false,false,[]⟩
    else
      updatePods env api cs (targetRevision env now cs currentRevision updateRevision pods)
        (selectedPods env sorters now cs currentRevision updateRevision pods)

end

end Kruise.CloneSet
