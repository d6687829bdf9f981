import Kruise.CloneSet.Scale
import Mathlib.Data.List.Dedup

/-!
# Available pods that one call of `Scale` deletes

Specified pods that are not available are left out of `totalUnavailable`, so the limit that step 5
spends can be larger than the number of available pods that may go.
-/

namespace Kruise.CloneSet

open Util.IntStr List
open Lib.Budget

variable (api : ScaleApi) (cs : CloneSetSpec) (modified : Bool)

@[simp] theorem idle_done (err : Bool) :
    (ScaleResult.idle modified err).done=(err||modified) := rfl

@[simp] theorem deletePods_nil : deletePods api cs modified []=.idle modified false := rfl

variable (pods : List Pod)

theorem deletePods_deleted_sublist : (deletePods api cs modified pods).deleted.Sublist pods := by
  induction pods generalizing modified with
  | nil => exact List.Sublist.slnil
  | cons pod pods ih =>
    unfold deletePods
    dsimp only
    split
    · split
      · exact nil_sublist _
      · exact (ih true).cons pod
      · exact (ih modified).cons pod
    · split_ifs
      · exact nil_sublist _
      · exact (nil_sublist pods).cons_cons pod
      · exact (ih true).cons_cons pod

/- Without a hook the call returns as soon as there was a pod to delete. -/
theorem deletePods_done (ho : cs.lifecycle.bind (·.preDelete)=none) (h : modified ∨ pods≠[]) :
    (deletePods api cs modified pods).done := by
  induction pods generalizing modified with
  | nil =>
    obtain h | h := h
    · exact h
    · exact absurd rfl h
  | cons pod pods ih =>
    unfold deletePods
    simp only [ho,isPodHooked,Bool.false_eq_true,if_false]
    split_ifs
    · rfl
    · rfl
    · exact ih true (.inl rfl)

structure ScaleApi.Accepts (api : ScaleApi) : Prop where
  delete : ∀ p,api.deleteOk p
  deletePvcs : ∀ p,api.deletePvcsOk p
  create : ∀ p,api.createOk p

theorem deletePods_of_accepts (ho : cs.lifecycle.bind (·.preDelete)=none) (ha : api.Accepts) :
    deletePods api cs modified pods=⟨modified||!pods.isEmpty,false,[],pods,[]⟩ := by
  induction pods generalizing modified with
  | nil => simp [ScaleResult.idle]
  | cons pod pods ih =>
    unfold deletePods
    simp only [ho,isPodHooked,Bool.false_eq_true,if_false,ha.delete,ha.deletePvcs, Bool.not_true,ih true]
    simp [ScaleResult.addDeleted]

theorem managePreparingDelete_deleted : (managePreparingDelete api cs pods).deleted=[] := by
  have hcancel (diff : Int) (modified : Bool) (l : List Pod) :
      (cancelPreparingDelete api cs diff modified l).deleted=[] := by
    induction l generalizing diff modified with
    | nil => rfl
    | cons pod l ih =>
      unfold cancelPreparingDelete
      split_ifs
      · rfl
      · exact ih diff modified
      · split
        · rfl
        · exact ih (diff-1) true
        · exact ih (diff-1) modified
  unfold managePreparingDelete
  split_ifs
  · rfl
  · exact hcancel _ _ _

theorem managePreparingDelete_idle (h : podsInPreDelete pods=[]) :
    managePreparingDelete api cs pods=.idle false false := by
  unfold managePreparingDelete
  split_ifs
  · rfl
  · rw [h]
    rfl

theorem podsInPreDelete_eq_nil_iff : podsInPreDelete pods=[] ↔ ∀ p∈pods,isActive p := by
  simp [podsInPreDelete,filter_eq_nil_iff]

theorem numToDelete_nonpos_iff :
    ¬numToDelete cs pods > 0 ↔ ∀ p∈pods,isSpecifiedDelete cs p=false ∧ isActive p := by
  have hl (l : List String) : ¬((l.dedup.length : Int) > 0) ↔ l=[] := by
    rw [← dedup_eq_nil l,← length_eq_zero_iff]
    omega
  rw [numToDelete,hl]
  simp [filter_eq_nil_iff]

theorem diffPods_nil : diffPods pods []=pods := by
  simp [diffPods]

section

variable (env : Env) (api : ScaleApi) (now : Int) (currentCS updateCS : CloneSetSpec)
variable (currentRevision updateRevision : String) (pods : List Pod)

def scaleCounts : Counts := countsOf now updateCS (isPodUpdate env · updateRevision) pods

def scaleUpDue : Prop :=
  (pods.length : Int)<updateCS.replicas +
    (useSurge (rollbackAllowed env currentRevision updateRevision) (limits env updateCS)
      (scaleCounts env now updateCS updateRevision pods)).1

def isAvailable (p : Pod) : Bool := isPodAvailable now p updateCS.minReadySeconds

def mayDelete : Int :=
  max 0 ((pods.countP (isAvailable now updateCS) : Int) -
    (updateCS.replicas-(limits env updateCS).maxUnavailable))

def readyBudget : Int :=
  (limits env updateCS).maxUnavailable+(pods.length-updateCS.replicas) -
    pods.countP fun p => !isSpecifiedDelete updateCS p&&!isAvailable now updateCS p

/- Step 5 reaches an available specified pod after taking all available ones that
may go, and still has a unit of the limit for it. -/
def OverspendsOnSpecified : Prop :=
  (∀ p∈pods,isActive p) ∧
  ¬scaleUpDue env now updateCS currentRevision updateRevision pods ∧
  ∃ before p after,podsSpecifiedToDelete updateCS pods=before++p::after ∧
    (isAvailable now updateCS p ∧
      before.countP (isAvailable now updateCS)=(mayDelete env now updateCS pods).toNat ∧
      (before.countP (isPodReady now) : Int) < max 0 (readyBudget env now updateCS pods))

theorem isPodReady_of_isAvailable (p : Pod) (h : isAvailable now updateCS p) : isPodReady now p :=
  isPodReady_of_isPodAvailable now p updateCS.minReadySeconds h

theorem countP_podsInPreDelete : (podsInPreDelete pods).countP (isAvailable now updateCS)=0 := by
  rw [countP_eq_zero]
  intro p hp hav
  have hin:=(mem_filter.mp hp).2
  obtain hst | hst := lifecycleState_of_isPodAvailable now p _ hav <;> simp [isActive,hst] at hin

theorem specifiedCanDelete_of_active (ha : ∀ p∈pods,isActive p) :
    specifiedCanDelete env now updateCS currentRevision updateRevision pods=spend (isPodReady now)
        (scaleDiffs env now updateCS currentRevision updateRevision pods).deleteReadyLimit
        (podsSpecifiedToDelete updateCS pods) := by
  rw [specifiedCanDelete,(podsInPreDelete_eq_nil_iff pods).mpr ha,diffPods_nil]

variable {env now updateCS currentRevision updateRevision pods}

@[simp] theorem limits_replicas : (limits env updateCS).replicas=updateCS.replicas := rfl

theorem scaleDiffs_eq :
    scaleDiffs env now updateCS currentRevision updateRevision pods =
      diffsOfCounts (rollbackAllowed env currentRevision updateRevision)
        (shouldScalingExcludePreparingDelete env updateCS) (limits env updateCS)
        (scaleCounts env now updateCS updateRevision pods) pods.length := by
  rw [scaleCounts,← countPods_eq]
  rfl

section

variable (h : ∀ p∈pods,isActive p)
include h

theorem preDeleting_eq_zero :
    (scaleCounts env now updateCS updateRevision pods).preDeletingNewRevision=0 ∧
      (scaleCounts env now updateCS updateRevision pods).preDeletingOldRevision=0 := by
  constructor <;>
  · simp only [scaleCounts,countsOf,Int.natCast_eq_zero,countP_eq_zero]
    intro p hp
    simp [h p hp]

theorem scaleUpNum_pos_iff :
    (scaleDiffs env now updateCS currentRevision updateRevision pods).scaleUpNum > 0 ↔
      scaleUpDue env now updateCS currentRevision updateRevision pods := by
  rw [scaleDiffs_eq]
  simp only [diffsOfCounts,scaleUpDue,preDeleting_eq_zero h,limits_replicas]
  split_ifs <;> omega

theorem totalUnavailable_of_active :
    (scaleCounts env now updateCS updateRevision pods).totalUnavailable =
      pods.countP fun p => !isSpecifiedDelete updateCS p&&!isAvailable now updateCS p := by
  rw [scaleCounts,totalUnavailable_countsOf]
  have h0 : pods.countP (fun p => !isActive p)=0 := by
    rw [countP_eq_zero]
    intro p hp
    simp [h p hp]
  have h1 : pods.countP (fun p => isActive p&&!isSpecifiedDelete updateCS p &&
      !isPodAvailable now p updateCS.minReadySeconds) =
      pods.countP fun p => !isSpecifiedDelete updateCS p&&!isAvailable now updateCS p := by
    apply countP_congr
    intro p hp
    simp [h p hp,isAvailable]
  rw [h0,h1]
  simp

theorem deleteReadyLimit_le :
    (scaleDiffs env now updateCS currentRevision updateRevision pods).deleteReadyLimit ≤
      max 0 (readyBudget env now updateCS pods) := by
  rw [scaleDiffs_eq]
  simp only [diffsOfCounts,readyBudget,totalUnavailable_of_active h,limits_replicas]
  split_ifs <;> omega

theorem deleteReadyLimit_of_specified (hne : podsSpecifiedToDelete updateCS pods≠[]) :
    (scaleDiffs env now updateCS currentRevision updateRevision pods).deleteReadyLimit =
      max 0 (readyBudget env now updateCS pods) := by
  have hpos : 0<(scaleCounts env now updateCS updateRevision pods).toDelete := by
    rw [scaleCounts,toDelete_countsOf]
    obtain ⟨p,hp⟩ := exists_mem_of_ne_nil _ hne
    obtain ⟨hm,hspec⟩ := mem_filter.mp hp
    have : 0<pods.countP (fun p => isActive p&&isSpecifiedDelete updateCS p) := by
      rw [countP_pos_iff]
      exact ⟨p,hm,by simp [h p hm,hspec]⟩
    omega
  have hcond : (scaleCounts env now updateCS updateRevision pods).toDeleteNewRevision > 0 ∨
      (scaleCounts env now updateCS updateRevision pods).toDeleteOldRevision > 0 := by
    unfold Counts.toDelete at hpos
    omega
  rw [scaleDiffs_eq]
  simp only [diffsOfCounts,readyBudget,totalUnavailable_of_active h,limits_replicas]
  rw [if_pos (by tauto),max_comm]

theorem scale_of_active :
    scale env api now currentCS updateCS currentRevision updateRevision pods =
      let diffs:=scaleDiffs env now updateCS currentRevision updateRevision pods
      if diffs.scaleUpNum > 0 then
        createPods env api currentCS updateCS currentRevision updateRevision diffs.scaleUpLimit
          diffs.scaleUpNumOldRevision (api.newIDs diffs.scaleUpLimit.toNat pods)
      else
        let specified:=deletePods api updateCS false
          (specifiedCanDelete env now updateCS currentRevision updateRevision pods)
        if specified.done then specified
        else scaleIn env api now updateCS currentRevision updateRevision pods := by
  have hn:=(podsInPreDelete_eq_nil_iff pods).mpr h
  unfold scale
  simp only [managePreparingDelete_idle api updateCS pods hn,hn,deletePods_nil,idle_done,
    Bool.or_self,Bool.false_eq_true,if_false]

end

theorem readyBudget_eq_of_unspecified (h : ∀ p∈pods,isSpecifiedDelete updateCS p=false) :
    max 0 (readyBudget env now updateCS pods)=mayDelete env now updateCS pods := by
  have hl:=length_eq_countP_add_countP (isAvailable now updateCS) (l := pods)
  have hun : pods.countP (fun p => !isSpecifiedDelete updateCS p&&!isAvailable now updateCS p) =
      pods.countP (fun a => decide ¬isAvailable now updateCS a=true) := by
    apply countP_congr
    intro p hp
    simp [h p hp]
  unfold readyBudget mayDelete
  omega

theorem scale_deleted_of_specified (ho : updateCS.lifecycle.bind (·.preDelete)=none)
    (hapi : api.Accepts) (ha : ∀ p∈pods,isActive p)
    (hup : ¬scaleUpDue env now updateCS currentRevision updateRevision pods)
    (hne : specifiedCanDelete env now updateCS currentRevision updateRevision pods≠[]) :
    (scale env api now currentCS updateCS currentRevision updateRevision pods).deleted =
      specifiedCanDelete env now updateCS currentRevision updateRevision pods := by
  rw [← scaleUpNum_pos_iff ha] at hup
  have hd:=deletePods_done api updateCS false _ ho (.inr hne)
  rw [scale_of_active api currentCS ha]
  simp only [if_neg hup,if_pos hd]
  rw [deletePods_of_accepts api updateCS false _ ho hapi]

variable (env now updateCS currentRevision updateRevision pods)

/-- A call without a pre-delete hook deletes nothing, or pods in `PreparingDelete`, or specified
pods within the limit, or, when nothing was planned, pods chosen to scale in. -/
theorem deletedCases (ho : updateCS.lifecycle.bind (·.preDelete)=none) : let deleted :=
      (scale env api now currentCS updateCS currentRevision updateRevision pods).deleted
    let limit:=(scaleDiffs env now updateCS currentRevision updateRevision pods).deleteReadyLimit
    deleted=[] ∨
    deleted.Sublist (podsInPreDelete pods) ∨
    ((∀ p∈pods,isActive p) ∧ ¬scaleUpDue env now updateCS currentRevision updateRevision pods ∧
      deleted.Sublist (spend (isPodReady now) limit (podsSpecifiedToDelete updateCS pods))) ∨
    ((∀ p∈pods,isSpecifiedDelete updateCS p=false ∧ isActive p) ∧
      ∃ chosen,deleted.Sublist (spend (isPodReady now) limit chosen)) := by
  intro deleted limit
  simp only [deleted,scale]
  split
  · exact .inl (managePreparingDelete_deleted api updateCS pods)
  split
  · exact .inl rfl
  rename_i hup
  split
  · exact .inr (.inl (deletePods_deleted_sublist _ _ _ _))
  rename_i hpre
  have hnil : podsInPreDelete pods=[] := by
    by_contra hne
    exact hpre (deletePods_done api updateCS false _ ho (.inr hne))
  have ha:=(podsInPreDelete_eq_nil_iff pods).mp hnil
  rw [scaleUpNum_pos_iff ha] at hup
  have hcan:=specifiedCanDelete_of_active env now updateCS currentRevision updateRevision pods ha
  split
  · refine .inr (.inr (.inl ⟨ha,hup,?_⟩))
    rw [← hcan]
    exact deletePods_deleted_sublist _ _ _ _
  · unfold scaleIn
    dsimp only
    split
    · split
      · exact .inl rfl
      · rename_i hnum
        have hn:=(numToDelete_nonpos_iff updateCS pods).mp hnum
        have hspec : podsSpecifiedToDelete updateCS pods=[] := by
          simp only [podsSpecifiedToDelete,filter_eq_nil_iff]
          intro p hp
          simp [(hn p hp).1]
        rw [hcan,hspec,spend_nil,countP_nil,Int.natCast_zero,Int.sub_zero]
        exact .inr (.inr (.inr ⟨hn,_,deletePods_deleted_sublist _ _ _ _⟩))
    · exact .inl rfl

end

def acceptingApi : ScaleApi :=
  { lifecycle := ⟨fun _ _ => true,fun _ _ => true⟩
    deleteOk := fun _ => true
    deletePvcsOk := fun _ => true
    createOk := fun _ => true
    newIDs := fun _ _ => []
    sort := id
    sort_perm := fun _ => Perm.refl _}

/-- Without pre-delete hooks `replicas - maxUnavailable` pods stay available, whatever the API
server answers and the sort order, exactly when step 5 does not overspend on specified pods. -/
theorem scale_keeps_available_iff (env : Env) (now : Int) (currentCS updateCS : CloneSetSpec)
    (currentRevision updateRevision : String) (pods : List Pod)
    (hook : updateCS.lifecycle.bind (·.preDelete)=none) :
    (∀ api : ScaleApi, ((scale env api now currentCS updateCS currentRevision updateRevision pods).deleted.countP
        (fun p => isPodAvailable now p updateCS.minReadySeconds) : Int) ≤
        max 0 ((pods.countP (fun p => isPodAvailable now p updateCS.minReadySeconds) : Int) -
          (updateCS.replicas-(limits env updateCS).maxUnavailable))) ↔
      ¬OverspendsOnSpecified env now updateCS currentRevision updateRevision pods := by
  change (∀ api : ScaleApi,
    ((scale env api now currentCS updateCS currentRevision updateRevision pods).deleted.countP
      (isAvailable now updateCS) : Int) ≤ mayDelete env now updateCS pods) ↔ _
  have hnonneg : 0 ≤ mayDelete env now updateCS pods := le_max_left _ _
  have hr:=isPodReady_of_isAvailable now updateCS
  constructor
  · intro h ho
    obtain ⟨ha,hup,before,p,after,hspl,hp⟩ := ho
    have hcan:=specifiedCanDelete_of_active env now updateCS currentRevision updateRevision pods ha
    rw [deleteReadyLimit_of_specified ha (by simp [hspl])] at hcan
    have hlt:=(lt_countP_spend_iff (isPodReady now) (isAvailable now updateCS) hr _ _ _).mpr
      ⟨before,p,after,hspl,hp⟩
    rw [← hcan] at hlt
    have hne : specifiedCanDelete env now updateCS currentRevision updateRevision pods≠[] := by
      intro hn
      simp [hn] at hlt
    have hall:=h acceptingApi
    rw [scale_deleted_of_specified acceptingApi currentCS hook
      ⟨fun _ => rfl,fun _ => rfl,fun _ => rfl⟩ ha hup hne] at hall
    omega
  · intro ho api
    rcases deletedCases env api now currentCS updateCS currentRevision updateRevision pods hook
      with hn | hpre | ⟨ha,hup,hsub⟩ | ⟨hnone,chosen,hsub⟩
    · rw [hn]
      exact hnonneg
    · have hz:=countP_podsInPreDelete now updateCS pods
      have hle:=hpre.countP_le (p := isAvailable now updateCS)
      omega
    · by_contra hgt
      have hlt:=lt_of_lt_of_le (not_le.mp hgt) (Int.ofNat_le.mpr (hsub.countP_le (p := isAvailable now updateCS)))
      have hne : podsSpecifiedToDelete updateCS pods≠[] := by
        intro hn
        rw [hn] at hlt
        simp only [spend_nil,countP_nil] at hlt
        omega
      rw [deleteReadyLimit_of_specified ha hne] at hlt
      exact ho ⟨ha,hup,(lt_countP_spend_iff (isPodReady now) (isAvailable now updateCS) hr _ _ _).mp (by omega)⟩
    · have hle:=hsub.countP_le (p := isAvailable now updateCS)
      have hspend:=countP_spend_le (isPodReady now) (isAvailable now updateCS) hr
        (scaleDiffs env now updateCS currentRevision updateRevision pods).deleteReadyLimit chosen
      have hl : (scaleDiffs env now updateCS currentRevision updateRevision pods).deleteReadyLimit≤_ :=
        deleteReadyLimit_le fun p hp => (hnone p hp).2
      rw [readyBudget_eq_of_unspecified (fun p hp => (hnone p hp).1)] at hl
      omega

theorem scale_keeps_available_one_specified :
    let cs:=plainSpec 2
    let pods :=
      [{readyPod "web-a" "web-1" with specifiedDelete := true},readyPod "web-b" "web-1"]
    cs.lifecycle.bind (·.preDelete)=none ∧
      ∀ api : ScaleApi,((scale quietEnv api 0 cs cs "web-1" "web-1" pods).deleted.countP
        (fun p => isPodAvailable 0 p cs.minReadySeconds) : Int)≤1 := by
  intro cs pods
  refine ⟨rfl,(scale_keeps_available_iff quietEnv 0 cs cs "web-1" "web-1" pods rfl).mpr ?_⟩
  intro h
  obtain ⟨_,_,before,p,after,hspl,_,hcnt,_⟩ := h
  have ho : (podsSpecifiedToDelete cs pods).length=1 := by decide
  rw [hspl,length_append] at ho
  have hle : before.countP (isAvailable 0 cs)≤before.length := countP_le_length
  have hm : (mayDelete quietEnv 0 cs pods).toNat=1 := by decide
  have hcons : (p::after).length=after.length+1 := rfl
  omega

/-- The limit does not count the unready one of two specified pods, so the only available pod goes
with it. -/
theorem scale_deletes_last_available :
    let cs:=plainSpec 2
    let marked:={readyPod "web-a" "web-1" with specifiedDelete := true,ready := none}
    let available:={readyPod "web-b" "web-1" with specifiedDelete := true}
    let pods:=[marked,available]
    ¬((scale quietEnv acceptingApi 0 cs cs "web-1" "web-1" pods).deleted.countP
        (fun p => isPodAvailable 0 p cs.minReadySeconds) : Int) ≤
      max 0 ((pods.countP (fun p => isPodAvailable 0 p cs.minReadySeconds) : Int) -
        (cs.replicas-(limits quietEnv cs).maxUnavailable)) := by
  decide

end Kruise.CloneSet
