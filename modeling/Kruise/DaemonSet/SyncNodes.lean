import Kruise.DaemonSet.Update
import Kruise.Lib.SlowStart
import Mathlib.Data.List.Count

/-!
# Expectations around the calls of a DaemonSet

`syncNodes` (`daemonset_controller.go` 679-809) without a PreDelete hook and without events from the
informer. The calls of a batch come back in any order; each worker lowers the expectations of its
own call, the loop those of the calls it skips.
-/

namespace Kruise.DaemonSet

open List Lib

inductive CreateAnswer where
  | created
  | namespaceTerminating
  | failed (err : String)

inductive DeleteAnswer where
  | deleted
  | notFound
  | failed (err : String)

def CreateAnswer.error : CreateAnswer → Option String
  | .failed err => some err
  | _ => none

def DeleteAnswer.error : DeleteAnswer → Option String
  | .failed err => some err
  | _ => none

def DeleteAnswer.isDeleted : DeleteAnswer → Bool
  | .deleted => true
  | _ => false

/-- The answers to the calls, by position in the lists. -/
structure SyncApi where
  schedule : Schedule
  create : Nat → CreateAnswer
  delete : Nat → DeleteAnswer

/-- The outstanding expectations, the positions tried and the errors sent so far. -/
structure SyncState where
  adds : Int
  dels : Int
  tried : List Nat
  errors : List String

namespace SyncApi

variable (api : SyncApi)

def createPod (s : SyncState) (ix : Nat) : SyncState :=
  let s:={s with tried := s.tried++[ix]}
  match api.create ix with
  | .created => s
  | .namespaceTerminating => s
  | .failed err => {s with adds := s.adds-1,errors := s.errors++[err]}

def deletePod (s : SyncState) (ix : Nat) : SyncState :=
  match api.delete ix with
  | .deleted => s
  | .notFound => {s with dels := s.dels-1}
  | .failed err => {s with dels := s.dels-1,errors := s.errors++[err]}

def createPods (createDiff : Nat) (s : SyncState) : SyncState :=
  let failed (s s' : SyncState) : Bool := s.errors.length<s'.errors.length
  let (s,pos) := slowStart api.schedule api.createPod failed createDiff
    createDiff (min createDiff 1)
    0 s
  {s with adds := s.adds-(createDiff-pos : Nat)}

def syncNodes (podsToDelete nodesNeedingDaemonPods : List String) (burstReplicas : Nat) : SyncState :=
  let createDiff:=min nodesNeedingDaemonPods.length burstReplicas
  let deleteDiff:=min podsToDelete.length burstReplicas
  (api.schedule.order (range deleteDiff)).foldl api.deletePod
    (api.createPods createDiff ⟨createDiff,deleteDiff,[],[]⟩)

/- Without a hook the calls are those for the requests of `DaemonSet.syncNodes`, which are the first
of either list. -/
theorem syncNodes_requests {ds : DaemonSetSpec} (hhook : ds.preDelete=none) (pods : List Pod)
    (podsToDelete nodesNeedingDaemonPods : List String) :
    let requests:=DaemonSet.syncNodes ds pods podsToDelete nodesNeedingDaemonPods
    requests.created<+:nodesNeedingDaemonPods ∧ requests.deleted<+:podsToDelete ∧
      api.syncNodes podsToDelete nodesNeedingDaemonPods (getBurstReplicas ds).toNat =
        (api.schedule.order (range requests.deleted.length)).foldl api.deletePod (api.createPods
          requests.created.length ⟨requests.created.length,requests.deleted.length,[],[]⟩) := by
  intro requests
  have hcreated : requests.created=nodesNeedingDaemonPods.take (getBurstReplicas ds).toNat := rfl
  have hdeleted : requests.deleted=podsToDelete.take (getBurstReplicas ds).toNat := by
    simp [requests,DaemonSet.syncNodes,hhook]
  rw [hcreated,hdeleted]
  refine ⟨ take_prefix _ _, take_prefix _ _,?_⟩
  rw [length_take,length_take,min_comm _ podsToDelete.length,min_comm _ nodesNeedingDaemonPods.length]
  rfl

variable {api}

theorem foldl_createPod (calls : List Nat) (s : SyncState) : calls.foldl api.createPod s={s with
        adds := s.adds-calls.countP fun ix => !(api.create ix).error.isNone
        tried := s.tried++calls
        errors := s.errors++calls.filterMap fun ix => (api.create ix).error} := by
  induction calls generalizing s with
  | nil => simp
  | cons ix calls ih =>
    rw [foldl_cons,ih]
    cases h : api.create ix <;> simp [createPod,h,CreateAnswer.error]
    omega

theorem foldl_deletePod (calls : List Nat) (s : SyncState) : calls.foldl api.deletePod s={s with
        dels := s.dels-calls.countP fun ix => !(api.delete ix).isDeleted
        errors := s.errors++calls.filterMap fun ix => (api.delete ix).error} := by
  induction calls generalizing s with
  | nil => simp
  | cons ix calls ih =>
    rw [foldl_cons,ih]
    cases h : api.delete ix <;> simp [deletePod,h,DeleteAnswer.error,DeleteAnswer.isDeleted] <;>
      omega

/-- The positions tried are an initial segment of the list, each once; the expectations left are the
creations without an error that is reported and the deletions that succeeded; every other error is
reported. Positions are left out only after an error. -/
theorem syncNodes_balanced (api : SyncApi) (podsToDelete nodesNeedingDaemonPods : List String)
    (burstReplicas : Nat) :
    let createDiff:=min nodesNeedingDaemonPods.length burstReplicas
    let deleteDiff:=min podsToDelete.length burstReplicas
    let s:=api.syncNodes podsToDelete nodesNeedingDaemonPods burstReplicas
    ∃ k≤createDiff,s.tried.Perm (range k) ∧ s.adds=((range k).countP fun ix => (api.create ix).error.isNone) ∧
      s.dels=((range deleteDiff).countP fun ix => (api.delete ix).isDeleted) ∧
      s.errors.Perm (((range k).filterMap fun ix => (api.create ix).error) ++
        (range deleteDiff).filterMap fun ix => (api.delete ix).error) ∧
      (k=createDiff ∨ ∃ ix<k,(api.create ix).error≠none) := by
  intro createDiff deleteDiff s
  obtain ⟨calls,k,hr,hc,hk,hend⟩ := slowStart_spec api.schedule api.createPod
    (fun s s' => decide (s.errors.length<s'.errors.length)) createDiff
    (min createDiff 1) ⟨createDiff,deleteDiff,[],[]⟩ (by omega) (by omega)
  have hd:=api.schedule.perm (range deleteDiff)
  have hs : s=(api.schedule.order (range deleteDiff)).foldl api.deletePod
      (api.createPods createDiff ⟨createDiff,deleteDiff,[],[]⟩) := rfl
  rw [createPods,hr,foldl_createPod,foldl_deletePod] at hs
  rw [foldl_createPod] at hend
  have hdone:=length_eq_countP_add_countP (fun ix => (api.create ix).error.isNone) (l := range k)
  have hdels:=length_eq_countP_add_countP (fun ix => (api.delete ix).isDeleted) (l := range deleteDiff)
  simp only [decide_not,Bool.decide_eq_true,length_range] at hdone hdels
  refine ⟨k,hk,?_,?_,?_,?_,?_⟩
  · rw [hs]
    exact hc
  · rw [hs]
    simp only [hc.countP_eq]
    omega
  · rw [hs]
    simp only [hd.countP_eq]
    omega
  · rw [hs]
    exact (hc.filterMap _).append (hd.filterMap _)
  · refine hend.imp_right ?_
    rintro ⟨t,ht⟩
    have hpos:=Nat.zero_lt_of_lt (of_decide_eq_true ht)
    obtain ⟨err,he⟩ := exists_mem_of_length_pos hpos
    obtain ⟨ix,hi,herr⟩ := mem_filterMap.mp he
    exact ⟨ix,mem_range.mp (hc.mem_iff.mp hi),by simp [herr]⟩

end SyncApi

end Kruise.DaemonSet
