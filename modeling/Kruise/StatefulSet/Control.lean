import Kruise.CloneSet.Update
import Kruise.Lib.Loop
import Kruise.StatefulSet.Types

/-!
# Updating a StatefulSet

`updateStatefulSet` and `rollingUpdateStatefulsetPods` (`stateful_set_control.go:317-845`). The
answers of the API server, of the in-place update and of the claims, and the order of the condemned
pods are parameters. Requests about pods and claims are recorded in order, patches of the lifecycle
state when they succeed; events, logs, delays and image pull jobs are left out. Pods are compared by
name where the code compares pointers.
-/

namespace Kruise.StatefulSet

open Util.IntStr Util.Selector Lib.Loop Lib.Slots Lib.Sorting
open CloneSet (LifecycleState isPodHooked isPodAllHooked updatePodLifecycle
  updatePodLifecycleWithHandler isHookMarkPodNotReady)
open UpdateSort (prioritySort)

inductive Action
  | create (ordinal : Nat) (pod : Pod)
  | delete (pod : Pod)
  | lifecycle (pod : Pod) (state : LifecycleState)
  | update (pod : Pod)
  | updateClaims (pod : Pod)
  | inPlaceUpdate (pod : Pod)

inductive InPlaceResult
  | notInPlace
  | updated
  | failed

/- Errors of which the text is not used are `false` or `none`. -/
structure Api where
  lifecycle : CloneSet.LifecycleApi
  selectorString : Option LabelSelector → Option String
  podClaimIsStale : Pod → Option Bool
  createErr : Pod → Option String
  updateErr : Pod → Option String
  deleteOk : Pod → Bool
  claimsMatchRetentionPolicy : Pod → Option Bool
  updatePodClaimOk : Pod → Bool
  refreshOk : Int → Pod → Bool
  updateSatisfied : Bool
  updateCompleted : Pod → Bool
  canUpdateInPlace : Option Revision → Bool
  inPlaceUpdate : Pod → InPlaceResult
  /-- `sort.Sort(ascendingOrdinal(condemned))`. -/
  sortCondemned : List Pod → List Pod
  sorted : ∀ pods,SortedBy (fun a b => getOrdinal a<getOrdinal b) pods (sortCondemned pods)

structure Call where
  env : Env
  api : Api
  now : Int
  set : Sts
  currentRevision : String
  updateRevision : String
  currentTemplate : PodTemplateSpec
  updateTemplate : PodTemplateSpec
  revisions : List Revision

def Call.currentSet (c : Call) : Sts := applyRevision c.set c.currentTemplate

def Call.updateSet (c : Call) : Sts := applyRevision c.set c.updateTemplate

def Call.minReadySeconds (c : Call) : Int := getMinReadySeconds c.set

def Call.monotonic (c : Call) : Bool := !allowsBurst c.set

structure Result where
  status : Status
  err : Bool
  actions : List Action

section

variable (api : Api) (set : Sts) (rolling : Apis.V1beta1.RollingUpdateStatefulSetStrategy setParts)

/- `none` is an error, otherwise whether the pod was modified. -/
def deletePod (pod : Pod) : List Action × Option Bool :=
  let hook:=set.spec.lifecycle.bind (·.preDelete)
  if isPodHooked hook pod.toPod then
    match updatePodLifecycle api.lifecycle pod.toPod .preparingDelete
        (isHookMarkPodNotReady hook) with
    | none => ([],none)
    | some true => ([.lifecycle pod .preparingDelete],some true)
    | some false => ([],some false)
  else if api.deleteOk pod then ([.delete pod],some true)
  else ([.delete pod],none)

/-! ## The rolling update (`stateful_set_control.go:714-845`) -/

def gracePeriodSeconds : Int :=
  ((set.spec.updateStrategy.rollingUpdate.bind (·.inPlaceUpdateStrategy)).map
    (·.gracePeriodSeconds)).getD 0

def refreshedState (updateRevision : String) (pod : Pod) : Option LifecycleState :=
  let hook:=set.spec.lifecycle.bind (·.inPlaceUpdate)
  let afterUpdate : LifecycleState :=
    if set.spec.lifecycle.isSome&&!isPodAllHooked hook pod.toPod then .updated else .normal
  match pod.lifecycleState with
  | .preparingUpdate => if getPodRevision pod=updateRevision then some afterUpdate else none
  | .updating => if api.updateCompleted pod then some afterUpdate else none
  | .updated => if hook.isNone||isPodAllHooked hook pod.toPod then some .normal else none
  | _ => none

def refreshPodState (updateRevision : String) (pod : Pod) : List Action × Option Bool :=
  if set.spec.updateStrategy.rollingUpdate.isNone then ([],some false)
  else if !api.refreshOk (gracePeriodSeconds set) pod then ([],none)
  else match refreshedState api set updateRevision pod with
    | none => ([],some false)
    | some state =>
      match updatePodLifecycle api.lifecycle pod.toPod state
          (isHookMarkPodNotReady (set.spec.lifecycle.bind (·.inPlaceUpdate))) with
      | none => ([],none)
      | some true => ([.lifecycle pod state],some true)
      | some false => ([],some false)

def refreshPods (updateRevision : String) : List Pod → List Action × Option Bool
  | [] => ([],some false)
  | pod::pods =>
    match refreshPodState api set updateRevision pod with
    | (actions,none) => (actions,none)
    | (actions,some refreshed) =>
      let rest:=refreshPods updateRevision pods
      (actions++rest.1,rest.2.map (refreshed || ·))

def patchedTo (pod : Pod) (state : LifecycleState) (patched : Option Bool) : List Action × Option Bool :=
  match patched with
  | none => ([],none)
  | some b => (if b then [.lifecycle pod state] else [],some true)

/- The pod leaves the in-place path: an error with `InPlaceOnly`, otherwise it is recreated. -/
def backOff : List Action × Option Bool :=
  if rolling.podUpdatePolicy=.inPlaceOnly then ([],none) else ([],some false)

def updateInPlace (pod : Pod) : List Action × Option Bool :=
  match api.inPlaceUpdate pod with
  | .updated => ([.inPlaceUpdate pod],some true)
  | .failed => ([.inPlaceUpdate pod],none)
  | .notInPlace => backOff rolling

def updateInPlaceByState (pod : Pod) : List Action × Option Bool :=
  let hook:=set.spec.lifecycle.bind (·.inPlaceUpdate)
  match pod.lifecycleState with
  | .unset | .normal =>
    if isPodHooked hook pod.toPod then
      patchedTo pod .preparingUpdate (updatePodLifecycle api.lifecycle pod.toPod
        .preparingUpdate (isHookMarkPodNotReady hook))
    else updateInPlace api rolling pod
  | .updated =>
    patchedTo pod .preparingUpdate
      (updatePodLifecycleWithHandler api.lifecycle pod.toPod .preparingUpdate hook)
  | .preparingUpdate =>
    if isPodHooked hook pod.toPod then ([],some true) else updateInPlace api rolling pod
  | .updating => updateInPlace api rolling pod
  | _ => ([],none)

/- `none` is an error, otherwise whether the pod is being updated in place. -/
def inPlaceUpdatePod (revisions : List Revision) (pod : Pod) : List Action × Option Bool :=
  match set.spec.updateStrategy.rollingUpdate with
  | none => ([],some false)
  | some rolling =>
    if rolling.podUpdatePolicy≠.inPlaceIfPossible ∧ rolling.podUpdatePolicy≠.inPlaceOnly then
      ([],some false)
    else if !api.canUpdateInPlace (revisions.find? (·.name=getPodRevision pod)) then
      backOff rolling
    else updateInPlaceByState api set rolling pod

end

def labelsAt (replicas : List (Option Pod)) (i : Nat) : Labels :=
  (slot replicas i).elim (fun _ => none) (·.labels)

section

variable (env : Env) (updateRevision : String) (replicas : List (Option Pod))

def countsAsUpdated (pod : Pod) : Bool :=
  isTerminating pod||CloneSet.isPodUpdate env.toEnv pod.toPod updateRevision

/- The indexes of replicas that are there, from the last to the first. -/
def presentIndexes : List Nat :=
  (List.range replicas.length).reverse.filter fun i => (slot replicas i).isSome

def updatedIdxs : List Nat :=
  (presentIndexes replicas).filter fun i =>
    (slot replicas i).any (countsAsUpdated env updateRevision)

def waitUpdateIdxs : List Nat :=
  (presentIndexes replicas).filter fun i =>
    (slot replicas i).any fun pod => !countsAsUpdated env updateRevision pod

/-- `sortPodsToUpdate` (`stateful_update_utils.go:27-75`). -/
def sortPodsToUpdate (rolling : Option (Apis.V1beta1.RollingUpdateStatefulSetStrategy setParts))
    (totalReplicas : Int) : List Nat :=
  let updateMin:=(rolling.bind (·.partition)).getD 0
  match rolling.bind (·.unorderedUpdate) with
  | none => (presentIndexes replicas).filter fun (i : Nat) => (i : Int) ≥ updateMin
  | some unordered =>
    let maxUpdate:=totalReplicas-updateMin
    if maxUpdate≤0 then []
    else
      let wait:=waitUpdateIdxs env updateRevision replicas
      (updatedIdxs env updateRevision replicas ++
        prioritySort unordered.priorityStrategy (labelsAt replicas) wait).take maxUpdate.toNat

end

def ofRevision (revision : String) (pod : Pod) : Int :=
  if getPodRevision pod=revision then 1 else 0

/- What the loop over the targets did: targets, requests, how many were of the current revision, and
whether there was an error. -/
structure Rolled where
  touched : List Nat
  actions : List Action
  current : Int
  err : Bool

def Rolled.idle : Rolled := ⟨[],[],0,false⟩

section

variable (c : Call)

/- A pod for which there is no in-place update is deleted. -/
def updateTarget (pod : Pod) : List Action × Bool :=
  match inPlaceUpdatePod c.api c.set c.revisions pod with
  | (actions,none) => (actions,false)
  | (actions,some true) => (actions,true)
  | (actions,some false) =>
    let deleted:=deletePod c.api c.set pod
    (actions++deleted.1,deleted.2.isSome)

/- The loop over the sorted targets; `unavailable` holds names. -/
def rollTargets (replicas : List (Option Pod)) (maxUnavailable : Int) :
    List Nat → List String → Rolled
  | [],_ => .idle
  | target::targets,unavailable =>
    match slot replicas target with
    | none => .idle
    | some pod =>
      if getPodRevision pod=c.updateRevision then
        rollTargets replicas maxUnavailable targets unavailable
      else if (unavailable.length : Int) ≥ maxUnavailable ∧ pod.name∉unavailable then .idle
      else if isTerminating pod then rollTargets replicas maxUnavailable targets unavailable
      else
        let updated:=updateTarget c pod
        if !updated.2 then ⟨[target],updated.1,0,true⟩
        else
          let rest:=rollTargets replicas maxUnavailable targets (unavailable.insert pod.name)
          ⟨target::rest.touched,updated.1++rest.actions,
            rest.current+ofRevision c.currentRevision pod,rest.err⟩

def isUnavailable (pod : Pod) : Bool :=
  !isHealthy pod||!c.api.updateCompleted pod||!isRunningAndAvailable c.now pod c.minReadySeconds

/- `none` when the percentage is malformed. -/
def updateMaxUnavailable (rolling : Apis.V1beta1.RollingUpdateStatefulSetStrategy setParts) : Option Int :=
  (getValueFromIntOrPercent (rolling.maxUnavailable.getD (.int 1)) (replicasOf c.set) false).map
    (max 1)

/- The part after the states of all pods have been refreshed. -/
def rollReplicas (replicas : List (Option Pod)) : Rolled :=
  let rolling:=c.set.spec.updateStrategy.rollingUpdate
  if rolling.any (·.paused) then .idle
  else match rolling.elim (some 1) (updateMaxUnavailable c) with
    | none => {Rolled.idle with err := true}
    | some maxUnavailable =>
      let unavailable:=((replicas.filterMap id).filter (isUnavailable c)).map (·.name)
      rollTargets c replicas maxUnavailable
        (sortPodsToUpdate c.env c.updateRevision replicas rolling (replicasOf c.set))
        unavailable.dedup

def rollingUpdateStatefulsetPods (pods : List Pod) (replicas : List (Option Pod)) : Rolled :=
  if !c.api.updateSatisfied then .idle
  else match refreshPods c.api c.set c.updateRevision pods with
    | (actions,none) => {Rolled.idle with actions := actions,err := true}
    | (actions,some true) => {Rolled.idle with actions := actions}
    | (actions,some false) =>
      let rolled:=rollReplicas c replicas
      {rolled with actions := actions++rolled.actions}

end

/-! ## The replicas (`stateful_set_control.go:376-452`) -/

def isCondemned (set : Sts) (pod : Pod) : Bool :=
  getOrdinal pod ≥ replicaCountOf set||isReserved set (getOrdinal pod)

def isReplica (set : Sts) (pod : Pod) : Bool :=
  0≤getOrdinal pod&&getOrdinal pod<replicaCountOf set&&!isReserved set (getOrdinal pod)

def placeReplicas (set : Sts) (pods : List Pod) : List (Option Pod) :=
  pods.foldl (fun replicas pod =>
      if isReplica set pod then replicas.set (getOrdinal pod).toNat (some pod) else replicas)
    (List.replicate (replicaCountOf set) none)

def condemnedPods (set : Sts) (pods : List Pod) : List Pod :=
  pods.filter fun pod => !isReplica set pod&&isCondemned set pod

section

variable (c : Call) (pods : List Pod)

def newReplica (ordinal : Nat) (replicas : List (Option Pod)) : Pod :=
  newVersionedStatefulSetPod c.env c.updateRevision c.currentSet c.updateSet c.currentRevision
    ordinal replicas

def fillReplica (replicas : List (Option Pod)) (ordinal : Nat) : List (Option Pod) :=
  if isReserved c.set ordinal then replicas
  else match slot replicas ordinal with
    | some _ => replicas
    | none => replicas.set ordinal (some (newReplica c ordinal replicas))

def fillReplicas (ordinals : List Nat) (replicas : List (Option Pod)) : List (Option Pod) :=
  ordinals.foldl (fillReplica c) replicas

def initialReplicas : List (Option Pod) :=
  fillReplicas c (List.range (replicaCountOf c.set)) (placeReplicas c.set pods)

def countPod (status : Status) (pod : Pod) : Status :=
  let ready:=isRunningAndReady pod
  let available:=ready&&isRunningAndAvailable c.now pod c.minReadySeconds
  let updated:=getPodRevision pod=c.updateRevision
  let live:=isCreated pod&&!isTerminating pod
  {status with
    replicas := status.replicas+1
    readyReplicas := status.readyReplicas+if ready then 1 else 0
    availableReplicas := status.availableReplicas+if available then 1 else 0
    updatedReadyReplicas := status.updatedReadyReplicas+if ready ∧ updated then 1 else 0
    updatedAvailableReplicas := status.updatedAvailableReplicas +
      if available ∧ updated then 1 else 0
    currentReplicas := status.currentReplicas +
      if live then ofRevision c.currentRevision pod else 0
    updatedReplicas := status.updatedReplicas +
      if live then ofRevision c.updateRevision pod else 0}

def initialStatus (collisionCount : Int) (labelSelector : String) : Status :=
  { observedGeneration := c.set.objectMeta.generation
    replicas := 0
    readyReplicas := 0
    availableReplicas := 0
    currentReplicas := 0
    updatedReplicas := 0
    updatedReadyReplicas := 0
    updatedAvailableReplicas := 0
    currentRevision := c.currentRevision
    updateRevision := c.updateRevision
    collisionCount := some collisionCount
    conditions := []
    labelSelector := labelSelector}

/- The first unhealthy pod of the smallest ordinal. -/
def firstUnhealthyPod : Option Pod :=
  (pods.filter fun pod => !isHealthy pod).foldl (fun first pod =>
    if getOrdinal pod<first.elim (2^31-1) getOrdinal then some pod else first) none

/-! ## One replica (`stateful_set_control.go:490-650`) -/

structure Work where
  replicas : List (Option Pod)
  status : Status
  scaleMaxUnavailable : Option Int
  actions : List Action

variable (w : Work)

def Work.request (actions : List Action) : Work :=
  {w with actions := w.actions++actions}

def Work.setReplica (ordinal : Nat) (pod : Pod) : Work :=
  {w with replicas := w.replicas.set ordinal (some pod)}

def Work.count (sign : Int) (pod : Pod) : Work :=
  {w with
    status := {w.status with
      currentReplicas := w.status.currentReplicas+sign*ofRevision c.currentRevision pod
      updatedReplicas := w.status.updatedReplicas+sign*ofRevision c.updateRevision pod}}

def Work.countReplica (n : Int) : Work :=
  {w with status := {w.status with replicas := w.status.replicas+n}}

def filterOutCondition (conditions : List Condition) (type : ConditionType) : List Condition :=
  conditions.filter (·.type≠type)

/- A condition of the same type keeps its place unless the status or the reason differs. -/
def Work.setCondition (condition : Condition) : Work :=
  match w.status.conditions.find? (·.type=condition.type) with
  | some old =>
    if old.status=condition.status ∧ old.reason=condition.reason then w
    else {w with status := {w.status with
      conditions := filterOutCondition w.status.conditions condition.type++[condition]}}
  | none => {w with status := {w.status with
      conditions := filterOutCondition w.status.conditions condition.type++[condition]}}

/- `decreaseAndCheckMaxUnavailable`, when the condition before it holds. -/
def Work.decreaseAndCheck (condition : Bool) : Work × Bool :=
  match condition,w.scaleMaxUnavailable with
  | true,some n => ({w with scaleMaxUnavailable := some (n-1)},n-1≤0)
  | _,_ => (w,false)

/- A failed pod is deleted and replaced by a new one; `none` when the deletion fails. -/
def recreateFailed (i : Nat) (pod : Pod) (w : Work) : Work × Option Pod :=
  if isFailed pod then
    let deleted:=deletePod c.api c.set pod
    match deleted.2 with
    | none => (w.request deleted.1,none)
    | some _ =>
      let fresh:=newReplica c i w.replicas
      ((((w.request deleted.1).count c (-1) pod).countReplica (-1)).setReplica i fresh,some fresh)
  else (w,some pod)

/- `lifecycle.SetPodLifecycle` with the state `Normal`. -/
def setNormal (pod : Pod) : Pod :=
  {pod with
    lifecycleState := .normal
    labels := setLabel pod.labels "lifecycle.apps.kruise.io/state" "Normal" }

def requestCreation (i : Nat) (pod : Pod) (w : Work) : Work × Flow Bool :=
  let pod:=setNormal pod
  let w:=(w.setReplica i pod).request [.create i pod]
  match c.api.createErr pod with
  | some err => (w.setCondition ⟨.failedCreatePod,.true, "",
      "StatefulPodControl failed to create Pod error: " ++ err⟩,.done true)
  | none =>
    let w:=(w.countReplica 1).count c 1 pod
    if c.monotonic then (w,.done false)
    else
      let checked:=w.decreaseAndCheck true
      (checked.1,if checked.2 then .leave else .go)

/- A stale claim ends the round. -/
def createReplica (i : Nat) (pod : Pod) (w : Work) : Work × Flow Bool :=
  if c.env.statefulSetAutoDeletePVC then
    match c.api.podClaimIsStale pod with
    | none => (w,.done true)
    | some true => (w,.done false)
    | some false => requestCreation c i pod w
  else requestCreation c i pod w

/- `UpdateStatefulPod` for a pod whose identity, storage or claims do not match; an error of the
claims counts as a match. -/
def enforceInvariants (pod : Pod) (w : Work) : Work × Flow Bool :=
  let retentionMatch:=!c.env.statefulSetAutoDeletePVC ||
    (c.api.claimsMatchRetentionPolicy pod).getD true
  if identityMatches c.set pod&&storageMatches c.set pod&&retentionMatch then (w,.go)
  else
    let w:=w.request [.update pod]
    match c.api.updateErr pod with
    | some err => (w.setCondition ⟨.failedUpdatePod,.true, "",
        "StatefulPodControl failed to update Pod error: " ++ err⟩,.done true)
    | none => (w,.go)

def keepReplica (pod : Pod) (w : Work) : Work × Flow Bool :=
  if isTerminating pod&&c.monotonic then (w,.done false)
  else
    let terminating:=w.decreaseAndCheck (isTerminating pod)
    if terminating.2 then (terminating.1,.leave)
    else if !c.api.refreshOk 0 pod then (terminating.1,.done true)
    else
      let available:=isRunningAndAvailable c.now pod c.minReadySeconds
      if !available&&c.monotonic then (terminating.1,.done false)
      else
        let unavailable:=terminating.1.decreaseAndCheck (!available)
        if unavailable.2 then (unavailable.1,.leave)
        else enforceInvariants c pod unavailable.1

def processReplica (i : Nat) (w : Work) : Work × Flow Bool :=
  match slot w.replicas i with
  | none => (w,.go)
  | some pod =>
    match recreateFailed c i pod w with
    | (w,none) => (w,.done true)
    | (w,some pod) =>
      if !isCreated pod then createReplica c i pod w else keepReplica c pod w

/-! ## Condemned pods (`stateful_set_control.go:652-702`) -/

def matchClaims (pod : Pod) (w : Work) : Work × Flow Bool :=
  match c.api.claimsMatchRetentionPolicy pod with
  | none => (w,.done true)
  | some true => (w,.go)
  | some false =>
    (w.request [.updateClaims pod],if c.api.updatePodClaimOk pod then .go else .done true)

/- In monotonic mode a call deals with one pod. -/
def Call.nextPod : Flow Bool := if c.monotonic then .done false else .go

def processCondemned (first : Option Pod) (pod : Pod) (w : Work) : Work × Flow Bool :=
  if isTerminating pod then (w,c.nextPod)
  else if !isRunningAndAvailable c.now pod c.minReadySeconds&&c.monotonic &&
      !first.any (·.name=pod.name) then (w,.done false)
  else
    let deleted:=deletePod c.api c.set pod
    match deleted.2 with
    | none => (w.request deleted.1,.done true)
    | some true => (w.request deleted.1,.done false)
    | some false => ((w.request deleted.1).count c (-1) pod,c.nextPod)

/- `none` when the percentage is malformed. -/
def scaleMaxUnavailableOf : Option (Option Int) :=
  match c.set.spec.scaleStrategy.bind (·.maxUnavailable) with
  | none => some none
  | some v => (getValueFromIntOrPercent v (replicasOf c.set) false).map fun n => some (max 1 n)

/- The condemned pods whose claims are looked at. -/
def claimedPods (condemned : List Pod) : List Pod :=
  if c.env.statefulSetAutoDeletePVC then condemned else []

def replicaLoop : Work × Flow Bool :=
  runLoop (processReplica c) (List.range w.replicas.length) w

def scalePods (condemned : List Pod) (w : Work) : Work × Flow Bool :=
  let first:=firstUnhealthyPod (w.replicas.filterMap id++condemned)
  if c.set.objectMeta.deleting then (w,.done false)
  else
    andThen (replicaLoop c w) fun w =>
      andThen (runLoop (matchClaims c) (claimedPods c condemned) w) fun w =>
        runLoop (processCondemned c first) condemned.reverse w

def initialWork (status : Status) (scaleMaxUnavailable : Option Int) : Work :=
  { replicas := initialReplicas c pods
    status := pods.foldl (countPod c) status
    scaleMaxUnavailable := scaleMaxUnavailable
    actions := []}

def scaleWork (status : Status) (scaleMaxUnavailable : Option Int) : Work × Flow Bool :=
  scalePods c (c.api.sortCondemned (condemnedPods c.set pods))
    (initialWork c pods status scaleMaxUnavailable)

def finishUpdate : Result :=
  if c.set.spec.updateStrategy.type=.onDelete then ⟨w.status,false,w.actions⟩
  else
    let rolled:=rollingUpdateStatefulsetPods c pods w.replicas
    ⟨{w.status with currentReplicas := w.status.currentReplicas-rolled.current},rolled.err,
      w.actions++rolled.actions⟩

def Call.run (collisionCount : Int) (labelSelector : String) (pods : List Pod) : Result :=
  let status:=initialStatus c collisionCount labelSelector
  match scaleMaxUnavailableOf c with
  | none => ⟨status,true,[]⟩
  | some scaleMaxUnavailable =>
    match scaleWork c pods status scaleMaxUnavailable with
    | (w,.done err) => ⟨w.status,err,w.actions⟩
    | (w,_) => finishUpdate c pods w

end

def updateStatefulSet (env : Env) (api : Api) (now : Int) (set : Sts)
    (currentRevision updateRevision : Revision) (collisionCount : Int) (pods : List Pod)
    (revisions : List Revision) : Result :=
  match api.selectorString set.spec.selector,currentRevision.template,updateRevision.template with
  | some labelSelector,some currentTemplate,some updateTemplate =>
    Call.run ⟨env,api,now,set,currentRevision.name,updateRevision.name,currentTemplate,
      updateTemplate,revisions⟩ collisionCount labelSelector pods
  | _,_,_ => ⟨set.status,true,[]⟩

def plainTemplate : PodTemplateSpec := {finalizers := [],labels := fun _ => none,volumes := []}

def plainSet (replicas : Int) (reserveOrdinals : List Int) (policy : Apis.PodManagementPolicyType)
    (rollingUpdate : Option (Apis.V1beta1.RollingUpdateStatefulSetStrategy setParts))
    (scaleStrategy : Option Apis.V1beta1.StatefulSetScaleStrategy) : Sts :=
  { objectMeta := ⟨"web", "default",1,false⟩
    spec :=
      { replicas := some replicas
        selector := none
        template := plainTemplate
        volumeClaimTemplates := []
        serviceName := ""
        podManagementPolicy := policy
        updateStrategy := ⟨.rollingUpdate,rollingUpdate⟩
        revisionHistoryLimit := none
        reserveOrdinals := reserveOrdinals
        lifecycle := none
        scaleStrategy := scaleStrategy
        persistentVolumeClaimRetentionPolicy := none}
    status := ⟨1,0,0,0,0,0,0,0, "", "",none,[], ""⟩}

def plainPod (name revisionHash : String) : Pod :=
  {CloneSet.readyPod name revisionHash with
    created := true
    terminating := false
    namespaceName := "default"
    podNameLabel := name
    volumes := []}

theorem strictWeak_ordinal : StrictWeak fun a b : Pod => decide (getOrdinal a<getOrdinal b) where
  asymm := by
    intro a b hab
    simp only [decide_eq_true_eq,decide_eq_false_iff_not] at hab ⊢
    omega
  cotrans := by
    intro a b c hac
    simp only [decide_eq_true_eq] at hac ⊢
    omega

def plainApi : Api where
  lifecycle := ⟨fun _ _ => true,fun _ _ => true⟩
  selectorString := fun _ => some ""
  podClaimIsStale := fun _ => some false
  createErr := fun _ => none
  updateErr := fun _ => none
  deleteOk := fun _ => true
  claimsMatchRetentionPolicy := fun _ => some true
  updatePodClaimOk := fun _ => true
  refreshOk := fun _ _ => true
  updateSatisfied := true
  updateCompleted := fun _ => true
  canUpdateInPlace := fun _ => false
  inPlaceUpdate := fun _ => .notInPlace
  sortCondemned := stableSort fun a b => getOrdinal a<getOrdinal b
  sorted := sortedBy_stableSort strictWeak_ordinal

def plainEnv : Env := {CloneSet.quietEnv with statefulSetAutoDeletePVC := false}

end Kruise.StatefulSet
