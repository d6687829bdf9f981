import Kruise.CloneSet.RolloutNumbers
import Kruise.CloneSet.ScaleBudget
import Kruise.CloneSet.UpdateBudget

/-!
# A rollout in pods

One iteration of `syncCloneSet` (`cloneset_controller.go:377-409`): `Scale`, and `Update` when
`Scale` did nothing. Between two iterations the pods become available.
-/

namespace Kruise.CloneSet

open Util.IntStr
open Lib.Budget

/- Limits that can make progress, no pause, no hooks, no limit for scaling, updates in place.
Different revision names have different hashes. -/
structure Rollout where
  env : Env
  currentCS : CloneSetSpec
  cs : CloneSetSpec
  currentRevision : String
  updateRevision : String
  sameName : currentCS.name=cs.name
  replicas_nonneg : 0≤cs.replicas
  maxSurge_nonneg : 0≤(limits env cs).maxSurge
  maxUnavailable_nonneg : 0≤(limits env cs).maxUnavailable
  budget_pos : 1≤(limits env cs).maxSurge+(limits env cs).maxUnavailable
  notPaused : cs.paused=false
  noHooks : cs.lifecycle=none
  noScaleLimit : cs.scaleMaxUnavailable=none
  inPlace : cs.updateType≠.reCreate
  wellNamed : getShortHash currentRevision=getShortHash updateRevision →
    currentRevision=updateRevision

variable (r : Rollout)

def Rollout.limits : RolloutLimits :=
  { toLimits := CloneSet.limits r.env r.cs
    partition_nonneg := (limits_partition_bounds r.env r.cs r.replicas_nonneg).1
    partition_le := (limits_partition_bounds r.env r.cs r.replicas_nonneg).2
    maxSurge_nonneg := r.maxSurge_nonneg
    maxUnavailable_nonneg := r.maxUnavailable_nonneg
    budget_pos := r.budget_pos}

def Rollout.rollback : Bool :=
  rollbackAllowed r.env r.currentRevision r.updateRevision

def Rollout.isNew (p : Pod) : Bool := equalToRevisionHash p r.updateRevision

structure World where
  now : Int
  pods : List Pod

structure Rollout.Settled (r : Rollout) (w : World) : Prop where
  available : ∀ p∈w.pods,isPodAvailable w.now p r.cs.minReadySeconds
  unmarked : ∀ p∈w.pods,isSpecifiedDelete r.cs p=false
  noGrace : ∀ p∈w.pods,p.inPlaceGrace = ""
  names : (w.pods.map (·.name)).Nodup

def Rollout.numbers (pods : List Pod) : Numbers :=
  ⟨pods.countP fun p => !r.isNew p,pods.countP r.isNew⟩

structure Apis where
  scale : ScaleApi
  update : UpdateApi
  sorters : UpdateSorters

/- The API server accepts every request and no budget refuses. The instance ids are new, but random
draws may collide, so there can be fewer than asked for. -/
structure Rollout.Accepting (r : Rollout) (w : World) (apis : Apis) : Prop where
  scale : apis.scale.Accepts
  ids_ne_nil : ∀ n,0<n → apis.scale.newIDs n w.pods≠[]
  ids_length : ∀ n,(apis.scale.newIDs n w.pods).length≤n
  ids_nodup : ∀ n,(apis.scale.newIDs n w.pods).Nodup
  ids_fresh : ∀ n,∀ id∈apis.scale.newIDs n w.pods,
    r.cs.name ++ "-" ++ id∉w.pods.map (·.name) ∧ r.cs.name ++ "-" ++ id∉r.cs.podsToDelete
  refresh : ∀ p,apis.update.refreshOk p
  templateHash : ∀ p,apis.update.patchTemplateHashOk p
  canUpdateInPlace : ∀ p,apis.update.canUpdateInPlace p
  inPlaceUpdate : ∀ p,apis.update.inPlaceUpdate p=.updated
  pubAllows : ∀ p,apis.update.pubAllows p=some true

def Rollout.scaleResult (apis : Apis) (w : World) : ScaleResult :=
  scale r.env apis.scale w.now r.currentCS r.cs r.currentRevision r.updateRevision w.pods

def Rollout.updateResult (apis : Apis) (w : World) : UpdateResult :=
  update r.env apis.update apis.sorters w.now r.cs r.currentRevision r.updateRevision w.pods

def applyScale (result : ScaleResult) (pods : List Pod) : List Pod :=
  let left:=pods.filter fun p => p.name∉result.deleted.map (·.name)
  left.map (fun p => match result.patched.find? (·.1.name=p.name) with
    | none => p
    | some (_,state) => {p with lifecycleState := state})++result.created

def applyPodUpdate (env : Env) (p : Pod) : PodUpdate → Pod
  | .lifecycle state => {p with lifecycleState := state}
  | .inPlace revision => writeRevisionHash env {p with lifecycleState := .updating} revision
  | .specifiedDelete => {p with specifiedDelete := true}

def Rollout.applyUpdate (apis : Apis) (result : UpdateResult) (pods : List Pod) : List Pod :=
  if result.refreshed then
    pods.map fun p => {p with
      lifecycleState := (refreshedState apis.update r.cs p r.updateRevision).getD p.lifecycleState
      templateHash := true}
  else
    pods.map fun p => match result.updates.find? (·.1.name=p.name) with
      | none => p
      | some (_,u) => applyPodUpdate r.env p u

def Rollout.reconcile (apis : Apis) (w : World) : List Pod :=
  let scaled:=r.scaleResult apis w
  if scaled.modified then applyScale scaled w.pods
  else r.applyUpdate apis (r.updateResult apis w) w.pods

/- What happens to a pod between two iterations. -/
structure Rollout.Becomes (r : Rollout) (now : Int) (p p' : Pod) : Prop where
  name : p'.name=p.name
  revisionHash : p'.revisionHash=p.revisionHash
  specifiedDelete : p'.specifiedDelete=p.specifiedDelete
  templateHash : p'.templateHash=p.templateHash
  available : isPodAvailable now p' r.cs.minReadySeconds
  noGrace : p'.inPlaceGrace = ""

def Rollout.Round (w w' : World) : Prop :=
  ∃ apis,r.Accepting w apis ∧ List.Forall₂ (r.Becomes w'.now) (r.reconcile apis w) w'.pods

def Rollout.Idle (w : World) : Prop :=
  ∀ apis,r.Accepting w apis →
    r.scaleResult apis w=.idle false false ∧ r.updateResult apis w=⟨false,false,[]⟩

end Kruise.CloneSet
