import Kruise.CloneSet.Counting
import Kruise.Lib.Budget

/-!
# Scaling a CloneSet

`realControl.Scale` (`cloneset_scale.go:49-156`) with the helpers it calls. The answers of the API
server, the sort order and the instance ids are parameters.
-/

namespace Kruise.CloneSet

open Util.IntStr
open Lib.Budget

structure ScaleApi where
  lifecycle : LifecycleApi
  deleteOk : Pod → Bool
  deletePvcsOk : Pod → Bool
  createOk : Pod → Bool
  newIDs : Nat → List Pod → List String
  sort : List Pod → List Pod
  sort_perm : ∀ pods,(sort pods).Perm pods

structure ScaleResult where
  modified : Bool
  err : Bool
  created : List Pod
  deleted : List Pod
  patched : List (Pod × LifecycleState)

def ScaleResult.idle (modified err : Bool) : ScaleResult := ⟨modified,err,[],[],[]⟩

def ScaleResult.addDeleted (r : ScaleResult) (pod : Pod) : ScaleResult :=
  {r with deleted := pod::r.deleted}

def ScaleResult.addPatched (r : ScaleResult) (pod : Pod) (state : LifecycleState) : ScaleResult :=
  {r with patched := (pod,state)::r.patched}

-- `if modified, err := ...; err != nil || modified`
def ScaleResult.done (r : ScaleResult) : Bool := r.err||r.modified

/-! ## Deletions planned earlier (`cloneset_scale.go:158-188`, `311-330`) -/

def podsSpecifiedToDelete (cs : CloneSetSpec) (pods : List Pod) : List Pod :=
  pods.filter (isSpecifiedDelete cs)

def podsInPreDelete (pods : List Pod) : List Pod :=
  pods.filter fun p => !isActive p

def numToDelete (cs : CloneSetSpec) (pods : List Pod) : Int :=
  ((pods.filter fun p => isSpecifiedDelete cs p||!isActive p).map (·.name)).dedup.length

def cancelPreparingDelete (api : ScaleApi) (cs : CloneSetSpec) :
    Int → Bool → List Pod → ScaleResult
  | _,modified,[] => .idle modified false
  | diff,modified,pod::pods =>
    if diff≤0 then .idle modified false
    else if isSpecifiedDelete cs pod then cancelPreparingDelete api cs diff modified pods
    else match updatePodLifecycle api.lifecycle pod .preparingNormal false with
      | none => .idle modified true
      | some true =>
        (cancelPreparingDelete api cs (diff-1) true pods).addPatched pod .preparingNormal
      | some false => cancelPreparingDelete api cs (diff-1) modified pods

def managePreparingDelete (api : ScaleApi) (cs : CloneSetSpec) (pods : List Pod) : ScaleResult :=
  if isLifecycleMarkPodNotReady cs.lifecycle then .idle false false
  else
    cancelPreparingDelete api cs (cs.replicas-pods.length+numToDelete cs pods) false
      (podsInPreDelete pods)

/-! ## Creating pods (`cloneset_scale.go:190-266`, `cloneset_core.go:68-113`) -/

def cloneSetInstanceID : String := "apps.kruise.io/cloneset-instance-id"

def newPod (env : Env) (cs : CloneSetSpec) (revision id : String) : Pod :=
  writeRevisionHash env
    { name := cs.name ++ "-" ++ id
      revisionHash := ""
      lifecycleState := .preparingNormal
      specifiedDelete := false
      phase := .pending
      ready := none
      inPlaceReady := none
      inPlaceGrace := ""
      templateHash := false
      finalizers := cs.template.finalizers
      labels := fun key =>
        if key=cloneSetInstanceID then some id else cs.template.labels key} revision

def newVersionedPods (env : Env) (currentCS updateCS : CloneSetSpec)
    (currentRevision updateRevision : String) (creations currentCreations : Int) (ids : List String) : List Pod :=
  if creations≤currentCreations then
    (ids.take creations.toNat).map (newPod env currentCS currentRevision)
  else
    (ids.take currentCreations.toNat).map (newPod env currentCS currentRevision) ++
      ((ids.drop currentCreations.toNat).take (creations-currentCreations).toNat).map
        (newPod env updateCS updateRevision)

/- `DoItSlowly`: batches of doubling size, none after a batch with a failure. -/
def doItSlowly (ok : Pod → Bool) : Nat → Nat → List Pod → List Pod × Bool
  | 0,_,_ => ([],false)
  | fuel+1,size,pods =>
    let size:=min size pods.length
    if size=0 then ([],false)
    else
      let batch:=pods.take size
      if batch.all ok then
        let rest:=doItSlowly ok fuel (2*size) (pods.drop size)
        (batch++rest.1,rest.2)
      else (batch.filter ok,true)

def initialBatchSize : Nat := 1

def createPods (env : Env) (api : ScaleApi) (currentCS updateCS : CloneSetSpec)
    (currentRevision updateRevision : String) (creations currentCreations : Int)
    (ids : List String) : ScaleResult :=
  let newPods:=newVersionedPods env currentCS updateCS currentRevision updateRevision
    creations currentCreations ids
  let outcome:=doItSlowly api.createOk newPods.length initialBatchSize newPods
  ⟨!outcome.1.isEmpty,outcome.2,outcome.1,[],[]⟩

/-! ## Deleting pods (`cloneset_scale.go:268-309`, `371-407`) -/

/- A hooked pod only moves to `PreparingDelete`. An error there reports `modified`
as false whatever was done before. -/
def deletePods (api : ScaleApi) (cs : CloneSetSpec) : Bool → List Pod → ScaleResult
  | modified,[] => .idle modified false
  | modified,pod::pods =>
    let hook:=cs.lifecycle.bind (·.preDelete)
    if isPodHooked hook pod then
      match updatePodLifecycle api.lifecycle pod .preparingDelete (isHookMarkPodNotReady hook) with
      | none => .idle false true
      | some true => (deletePods api cs true pods).addPatched pod .preparingDelete
      | some false => deletePods api cs modified pods
    else if !api.deleteOk pod then .idle modified true
    else if !api.deletePvcsOk pod then (ScaleResult.idle true true).addDeleted pod
    else (deletePods api cs true pods).addDeleted pod

-- `util.DiffPods`, by name
def diffPods (pods1 pods2 : List Pod) : List Pod :=
  pods1.filter fun p => p.name∉pods2.map (·.name)

def choose (api : ScaleApi) (pods : List Pod) (diff : Int) : List Pod :=
  if diff<pods.length then (api.sort pods).take diff.toNat else pods

def choosePodsToDelete (api : ScaleApi) (totalDiff currentRevDiff : Int)
    (notUpdatedPods updatedPods : List Pod) : List Pod :=
  if currentRevDiff ≥ totalDiff then choose api notUpdatedPods totalDiff
  else if currentRevDiff > 0 then
    choose api notUpdatedPods currentRevDiff ++
      choose api updatedPods (totalDiff-currentRevDiff)
  else choose api updatedPods totalDiff

section

variable (env : Env) (api : ScaleApi) (now : Int) (currentCS updateCS : CloneSetSpec)
variable (currentRevision updateRevision : String) (pods : List Pod)

def scaleDiffs : ExpectationDiffs :=
  calculateDiffsWithExpectation env now updateCS pods currentRevision updateRevision
    (some (isPodUpdate env))

def updatedPods : List Pod := pods.filter (isPodUpdate env · updateRevision)

def notUpdatedPods : List Pod := pods.filter fun p => !isPodUpdate env p updateRevision

def specifiedCanDelete : List Pod :=
  spend (isPodReady now)
    (scaleDiffs env now updateCS currentRevision updateRevision pods).deleteReadyLimit
    (diffPods (podsSpecifiedToDelete updateCS pods) (podsInPreDelete pods))

def scaleIn : ScaleResult :=
  let diffs:=scaleDiffs env now updateCS currentRevision updateRevision pods
  let spent:=(specifiedCanDelete env now updateCS currentRevision updateRevision pods).countP
    (isPodReady now)
  if diffs.scaleDownNum > 0 then
    if numToDelete updateCS pods > 0 then .idle false false
    else
      deletePods api updateCS false
        (spend (isPodReady now) (diffs.deleteReadyLimit-spent)
          (choosePodsToDelete api diffs.scaleDownNum diffs.scaleDownNumOldRevision
            (notUpdatedPods env updateRevision pods) (updatedPods env updateRevision pods)))
  else .idle false false

def scale : ScaleResult :=
  let managed:=managePreparingDelete api updateCS pods
  if managed.done then managed
  else
    let diffs:=scaleDiffs env now updateCS currentRevision updateRevision pods
    if diffs.scaleUpNum > 0 then
      createPods env api currentCS updateCS currentRevision updateRevision diffs.scaleUpLimit
        diffs.scaleUpNumOldRevision (api.newIDs diffs.scaleUpLimit.toNat pods)
    else
      let preDeleted:=deletePods api updateCS false (podsInPreDelete pods)
      if preDeleted.done then preDeleted
      else
        let specified:=deletePods api updateCS false
          (specifiedCanDelete env now updateCS currentRevision updateRevision pods)
        if specified.done then specified
        else scaleIn env api now updateCS currentRevision updateRevision pods

end

end Kruise.CloneSet
