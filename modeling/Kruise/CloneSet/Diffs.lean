import Kruise.CloneSet.Types
import Mathlib.Data.List.Induction

/-!
# Scale and update numbers of a CloneSet

`calculateDiffsWithExpectation` (`cloneset_sync_utils.go:93-270`): limits, counts of the pods, and
the numbers that `Scale` and `Update` act on.
-/

namespace Kruise.CloneSet

open Util.IntStr

structure Limits where
  replicas : Int
  partition : Int
  maxSurge : Int
  maxUnavailable : Int
  scaleMaxUnavailable : Int

def defaultMaxUnavailable : IntOrString := .str "20%"

/-- `math.MaxInt32`, the default of `scaleStrategy.maxUnavailable`. -/
def maxInt32 : Int := 2147483647

/-- Lines 95-117. A partition that does not resolve counts as zero. -/
def limits (env : Env) (cs : CloneSetSpec) : Limits :=
  let partition:=match cs.partition with
    | none => 0
    | some p => (calculatePartitionReplicas env.float p cs.replicas).getD 0
  let maxSurge:=match cs.maxSurge with
    | none => 0
    | some s => if cs.paused then 0 else valueOrZero s cs.replicas true
  { replicas := cs.replicas
    partition := partition
    maxSurge := maxSurge
    maxUnavailable :=
      valueOrZero (cs.maxUnavailable.getD defaultMaxUnavailable) cs.replicas (maxSurge=0)
    scaleMaxUnavailable :=
      valueOrZero (cs.scaleMaxUnavailable.getD (.int maxInt32)) cs.replicas true}

/-- The counters of lines 119-121, those that only the log line reads left out. -/
structure Counts where
  oldRevision : Int
  newRevisionActive : Int
  oldRevisionActive : Int
  unavailableNewRevision : Int
  unavailableOldRevision : Int
  toDeleteNewRevision : Int
  toDeleteOldRevision : Int
  preDeletingNewRevision : Int
  preDeletingOldRevision : Int
  deriving DecidableEq

def Counts.zero : Counts := ⟨0,0,0,0,0,0,0,0,0⟩

/-- One iteration of the counting loop, lines 149-183. -/
def countPod (now : Int) (cs : CloneSetSpec) (isNew : Pod → Bool) (c : Counts) (p : Pod) : Counts :=
  if isNew p then
    if p.lifecycleState=.preparingDelete then
      {c with preDeletingNewRevision := c.preDeletingNewRevision+1}
    else
      let c:={c with newRevisionActive := c.newRevisionActive+1}
      if isSpecifiedDelete cs p then
        {c with toDeleteNewRevision := c.toDeleteNewRevision+1}
      else if !isPodAvailable now p cs.minReadySeconds then
        {c with unavailableNewRevision := c.unavailableNewRevision+1}
      else c
  else
    let c:={c with oldRevision := c.oldRevision+1}
    if p.lifecycleState=.preparingDelete then
      {c with preDeletingOldRevision := c.preDeletingOldRevision+1}
    else
      let c:={c with oldRevisionActive := c.oldRevisionActive+1}
      if isSpecifiedDelete cs p then
        {c with toDeleteOldRevision := c.toDeleteOldRevision+1}
      else if !isPodAvailable now p cs.minReadySeconds then
        {c with unavailableOldRevision := c.unavailableOldRevision+1}
      else c

def countPods (now : Int) (cs : CloneSetSpec) (isNew : Pod → Bool) (pods : List Pod) : Counts :=
  pods.foldl (countPod now cs isNew) Counts.zero

/-- `expectationDiffs` (`cloneset_sync_utils.go:49-83`). -/
structure ExpectationDiffs where
  scaleUpNum : Int
  scaleUpNumOldRevision : Int
  scaleDownNum : Int
  scaleDownNumOldRevision : Int
  scaleUpLimit : Int
  deleteReadyLimit : Int
  useSurge : Int
  useSurgeOldRevision : Int
  updateNum : Int
  updateMaxUnavailable : Int
  deriving DecidableEq,Repr

/-- The signed distances of the active pods from the partition target. -/
def updateOldDiff (rollback : Bool) (l : Limits) (c : Counts) : Int :=
  let d:=c.oldRevisionActive-l.partition
  if rollback then d else max d 0

def updateNewDiff (rollback : Bool) (l : Limits) (c : Counts) : Int :=
  let d:=c.newRevisionActive-(l.replicas-l.partition)
  if rollback then d else min d 0

def Counts.totalUnavailable (c : Counts) : Int :=
  c.preDeletingNewRevision+c.preDeletingOldRevision+c.unavailableNewRevision +
    c.unavailableOldRevision

def Counts.toDelete (c : Counts) : Int :=
  c.toDeleteNewRevision+c.toDeleteOldRevision

/-- Surge for pods that are to be deleted: total, and its old-revision part. -/
def scaleSurge (l : Limits) (c : Counts) : Int × Int :=
  if c.toDelete > 0 then
    let surge:=min (max (c.totalUnavailable+c.toDelete-l.maxUnavailable) 0) c.toDelete
    (surge,if surge > c.toDeleteNewRevision then surge-c.toDeleteNewRevision else 0)
  else (0,0)

/-- Surge for pods that are to be updated: total, and its old-revision part. -/
def updateSurge (oldDiff newDiff : Int) : Int × Int :=
  if isIntPlusAndMinus oldDiff newDiff then
    if intAbs oldDiff ≤ intAbs newDiff then
      (intAbs oldDiff,if oldDiff<0 then intAbs oldDiff else 0)
    else
      (intAbs newDiff,if newDiff > 0 then intAbs newDiff else 0)
  else (0,0)

def useSurge (rollback : Bool) (l : Limits) (c : Counts) : Int × Int :=
  if l.maxSurge > 0 then
    let scale:=scaleSurge l c
    let update:=updateSurge (updateOldDiff rollback l c) (updateNewDiff rollback l c)
    let chosen:=if scale.1 ≥ update.1 then scale else update
    let use:=min l.maxSurge chosen.1
    (use,min use chosen.2)
  else (0,0)

/-- Lines 262-266: the side that is closer to its target decides. -/
def updateNum (oldDiff newDiff : Int) : Int :=
  if intAbs oldDiff ≤ intAbs newDiff then oldDiff else 0-newDiff

def diffsOfCounts (rollback exclude : Bool) (l : Limits) (c : Counts) (total : Int) : ExpectationDiffs :=
  let surge:=useSurge rollback l c
  let currentTotal :=
    if exclude then total-c.preDeletingOldRevision-c.preDeletingNewRevision else total
  let currentOld:=if exclude then c.oldRevision-c.preDeletingOldRevision else c.oldRevision
  let expectedTotal:=l.replicas+surge.1
  let expectedOld:=l.partition+surge.2
  let up:=expectedTotal-currentTotal
  let down:=currentTotal-c.toDeleteOldRevision-c.toDeleteNewRevision-expectedTotal
  let scaleDownNum:=if down > 0 then down else 0
  let num:=updateNum (updateOldDiff rollback l c) (updateNewDiff rollback l c)
  { scaleUpNum := if up > 0 then up else 0
    scaleUpNumOldRevision := if up > 0 then max (expectedOld-currentOld) 0 else 0
    scaleDownNum := scaleDownNum
    scaleDownNumOldRevision :=
      if down > 0 then max (currentOld-c.toDeleteOldRevision-expectedOld) 0 else 0
    scaleUpLimit :=
      if up > 0 then min up (max (l.scaleMaxUnavailable-c.totalUnavailable) 0) else 0
    deleteReadyLimit :=
      if c.toDeleteNewRevision > 0 ∨ c.toDeleteOldRevision > 0 ∨ scaleDownNum > 0 then
        max (l.maxUnavailable+(total-l.replicas)-c.totalUnavailable) 0
      else 0
    useSurge := surge.1
    useSurgeOldRevision := surge.2
    updateNum := num
    updateMaxUnavailable := if num≠0 then l.maxUnavailable+total-l.replicas else 0}

/- Pods may go back to the current revision only with `CloneSetPartitionRollback`
and two different revisions, lines 191-196. -/
def rollbackAllowed (env : Env) (currentRevision updateRevision : String) : Bool :=
  !(updateRevision=currentRevision||!env.cloneSetPartitionRollback)

/-- Without a test of its own, `EqualToRevisionHash` tells the new pods. -/
def isNewPod (isPodUpdate : Option (Pod → String → Bool)) (updateRevision : String) (p : Pod) : Bool :=
  match isPodUpdate with
  | none => equalToRevisionHash p updateRevision
  | some f => f p updateRevision

def calculateDiffsWithExpectation (env : Env) (now : Int) (cs : CloneSetSpec) (pods : List Pod)
    (currentRevision updateRevision : String) (isPodUpdate : Option (Pod → String → Bool)) : ExpectationDiffs :=
  diffsOfCounts (rollbackAllowed env currentRevision updateRevision)
    (shouldScalingExcludePreparingDelete env cs) (limits env cs)
    (countPods now cs (isNewPod isPodUpdate updateRevision) pods) pods.length

end Kruise.CloneSet
