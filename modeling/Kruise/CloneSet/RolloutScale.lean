import Kruise.CloneSet.InstanceIDs
import Kruise.CloneSet.RolloutRefinement
import Kruise.CloneSet.ScaleIn

/-!
# `Scale` in a rollout

It creates pods when there are fewer than expected and deletes pods when there are more.
-/

namespace Kruise.CloneSet

open Util.IntStr List
open Lib.Budget

variable {r : Rollout} {w : World} {apis : Apis}

theorem Rollout.Settled.state (hw : r.Settled w) (p : Pod) (hp : p∈w.pods) :
    p.lifecycleState=.unset ∨ p.lifecycleState=.normal :=
  lifecycleState_of_isPodAvailable w.now p _ (hw.available p hp)

theorem Rollout.Settled.active (hw : r.Settled w) (p : Pod) (hp : p∈w.pods) : isActive p := by
  rcases hw.state p hp with h | h <;> simp [isActive,h]

theorem Rollout.Settled.isPodUpdate_eq (hw : r.Settled w) (p : Pod) (hp : p∈w.pods) :
    isPodUpdate r.env p r.updateRevision=r.isNew p := by
  rcases hw.state p hp with h | h <;> simp [isPodUpdate,Rollout.isNew,h]

theorem Rollout.numbers_total (pods : List Pod) : (r.numbers pods).total=pods.length := by
  have h:=length_eq_countP_add_countP r.isNew (l := pods)
  have hn : pods.countP (fun p => !r.isNew p) = pods.countP (fun a => decide ¬r.isNew a=true) := by
    apply countP_congr
    simp
  simp only [Numbers.total,Rollout.numbers,hn]
  omega

theorem Rollout.Settled.countsOf_eq (hw : r.Settled w) (isNew : Pod → Bool) (h : ∀ p∈w.pods,isNew p=r.isNew p) :
    countsOf w.now r.cs isNew w.pods=settledCounts (r.numbers w.pods) := by
  have hz (f : Pod → Bool) (hf : ∀ p∈w.pods,f p=false) : w.pods.countP f=0 := by
    rw [countP_eq_zero]
    intro p hp
    simp [hf p hp]
  have hcongr (f g : Pod → Bool) (hf : ∀ p∈w.pods,f p=g p) : w.pods.countP f=w.pods.countP g := by
    apply countP_congr
    intro p hp
    rw [hf p hp]
  simp only [countsOf,settledCounts,Rollout.numbers,Counts.mk.injEq,Nat.cast_inj, Int.natCast_eq_zero]
  refine ⟨hcongr _ _ ?_,hcongr _ _ ?_,hcongr _ _ ?_,hz _ ?_,hz _ ?_,hz _ ?_,
    hz _ ?_,hz _ ?_,hz _ ?_⟩ <;> intro p hp <;>
    simp [h p hp,hw.active p hp,hw.unmarked p hp,hw.available p hp]

def Rollout.diffs (r : Rollout) (w : World) : ExpectationDiffs :=
  settledDiffs r.rollback (shouldScalingExcludePreparingDelete r.env r.cs) r.limits (r.numbers w.pods)

theorem Rollout.Settled.scaleDiffs_eq (hw : r.Settled w) :
    scaleDiffs r.env w.now r.cs r.currentRevision r.updateRevision w.pods=r.diffs w := by
  rw [CloneSet.scaleDiffs_eq,scaleCounts,hw.countsOf_eq _ hw.isPodUpdate_eq,Rollout.diffs,settledDiffs,
    Rollout.numbers_total]
  rfl

theorem Rollout.Settled.updateDiffs_eq (hw : r.Settled w) :
    updateDiffs r.env w.now r.cs r.currentRevision r.updateRevision w.pods=r.diffs w := by
  have hcnts:=hw.countsOf_eq (isNewPod none r.updateRevision) (fun _ _ => rfl)
  rw [updateDiffs,calculateDiffsWithExpectation,countPods_eq,hcnts,Rollout.diffs,settledDiffs, Rollout.numbers_total]
  rfl

/-! ## What `Scale` does -/

def Rollout.expected (r : Rollout) (w : World) : Int :=
  (r.numbers w.pods).expected r.rollback r.limits

def Rollout.expectedOld (r : Rollout) (w : World) : Int :=
  (r.numbers w.pods).expectedOld r.rollback r.limits

theorem Rollout.noHook (r : Rollout) : r.cs.lifecycle.bind (·.preDelete)=none := by
  rw [r.noHooks]
  rfl

theorem Rollout.Settled.specified_nil (hw : r.Settled w) : podsSpecifiedToDelete r.cs w.pods=[] := by
  simp only [podsSpecifiedToDelete,filter_eq_nil_iff]
  intro p hp
  simp [hw.unmarked p hp]

theorem Rollout.Settled.specifiedCanDelete_nil (hw : r.Settled w) :
    specifiedCanDelete r.env w.now r.cs r.currentRevision r.updateRevision w.pods=[] := by
  rw [specifiedCanDelete,hw.specified_nil]
  rfl

def Rollout.chosen (r : Rollout) (apis : Apis) (w : World) : List Pod :=
  let x:=r.numbers w.pods
  choosePodsToDelete apis.scale (x.total-r.expected w) (max (x.old-r.expectedOld w) 0)
    (w.pods.filter fun p => !r.isNew p) (w.pods.filter r.isNew)

def Rollout.creations (r : Rollout) (w : World) : Int :=
  min (r.expected w-(r.numbers w.pods).total) maxInt32

theorem Rollout.scaleMaxUnavailable_eq (r : Rollout) : r.limits.scaleMaxUnavailable=maxInt32 := by
  simp only [Rollout.limits,CloneSet.limits,r.noScaleLimit]
  rfl

section

variable (hw : r.Settled w)

include hw

theorem Rollout.Settled.scaleResult_create (h : (r.numbers w.pods).total<r.expected w) :
    r.scaleResult apis w = createPods r.env apis.scale r.currentCS r.cs r.currentRevision r.updateRevision
        (r.creations w) (max (r.expectedOld w-(r.numbers w.pods).old) 0)
        (apis.scale.newIDs (r.creations w).toNat w.pods) := by
  obtain ⟨ho,hl⟩ : (r.diffs w).scaleUpNumOldRevision=max (r.expectedOld w-(r.numbers w.pods).old) 0 ∧
      (r.diffs w).scaleUpLimit=r.creations w := by
    have hup:=settledDiffs_scaleUp r.rollback (shouldScalingExcludePreparingDelete r.env r.cs) r.limits _ h
    rw [r.scaleMaxUnavailable_eq] at hup
    exact hup
  have hpos : (scaleDiffs r.env w.now r.cs r.currentRevision r.updateRevision w.pods).scaleUpNum > 0 := by
    rw [hw.scaleDiffs_eq,Rollout.diffs,settledDiffs_scaleUpNum]
    unfold Rollout.expected at h
    omega
  unfold Rollout.scaleResult
  rw [scale_of_active _ _ hw.active]
  simp only [if_pos hpos]
  rw [hw.scaleDiffs_eq,ho,hl]

theorem Rollout.Settled.not_scaleUp (h : ¬(r.numbers w.pods).total<r.expected w) :
    ¬(scaleDiffs r.env w.now r.cs r.currentRevision r.updateRevision w.pods).scaleUpNum > 0 := by
  rw [hw.scaleDiffs_eq,Rollout.diffs,settledDiffs_scaleUpNum]
  unfold Rollout.expected at h
  omega

theorem Rollout.Settled.scaleResult_scaleIn (h : ¬(r.numbers w.pods).total<r.expected w) :
    r.scaleResult apis w = scaleIn r.env apis.scale w.now r.cs r.currentRevision r.updateRevision w.pods := by
  unfold Rollout.scaleResult
  rw [scale_of_active _ _ hw.active]
  simp only [if_neg (hw.not_scaleUp h),hw.specifiedCanDelete_nil,deletePods_nil,idle_done,
    Bool.or_self,Bool.false_eq_true,if_false]

theorem Rollout.Settled.scaleResult_idle (h : (r.numbers w.pods).total=r.expected w) :
    r.scaleResult apis w=.idle false false := by
  rw [hw.scaleResult_scaleIn (by omega)]
  unfold scaleIn
  rw [if_neg]
  rw [hw.scaleDiffs_eq,Rollout.diffs,settledDiffs_scaleDownNum]
  unfold Rollout.expected at h
  omega

theorem Rollout.Settled.chosen_eq (apis : Apis) :
    choosePodsToDelete apis.scale ((r.numbers w.pods).total-r.expected w)
        (max ((r.numbers w.pods).old-r.expectedOld w) 0)
        (notUpdatedPods r.env r.updateRevision w.pods) (updatedPods r.env r.updateRevision w.pods) =
      r.chosen apis w := by
  have hn : updatedPods r.env r.updateRevision w.pods=w.pods.filter r.isNew :=
    filter_congr hw.isPodUpdate_eq
  have ho : notUpdatedPods r.env r.updateRevision w.pods=w.pods.filter fun p => !r.isNew p :=
    filter_congr fun p hp => congrArg (!·) (hw.isPodUpdate_eq p hp)
  rw [hn,ho]
  rfl

end

section

variable (r w apis)

/- How many of the pods to delete are old ones. -/
def Rollout.removedOld : Int :=
  min ((r.numbers w.pods).total-r.expected w) (max ((r.numbers w.pods).old-r.expectedOld w) 0)

def Rollout.chosenOld : List Pod := choose apis.scale (w.pods.filter fun p => !r.isNew p) (r.removedOld w)

def Rollout.chosenNew : List Pod :=
  choose apis.scale (w.pods.filter r.isNew) ((r.numbers w.pods).total-r.expected w-r.removedOld w)

theorem Rollout.chosen_split : r.chosen apis w=r.chosenOld w apis++r.chosenNew w apis :=
  choosePodsToDelete_eq _ _ _ _ _ (Int.le_max_right _ _)

theorem Rollout.chosen_perm : ∃ rest,w.pods.Perm (r.chosen apis w++rest) := by
  rw [r.chosen_split w apis]
  exact choose_append_perm apis.scale r.isNew w.pods _ _

theorem Rollout.chosenOld_old (p : Pod) (hp : p∈r.chosenOld w apis) : r.isNew p=false := by
  have hm : p∈w.pods.filter fun p => !r.isNew p := mem_of_mem_choose hp
  simpa using (mem_filter.mp hm).2

theorem Rollout.chosenNew_new (p : Pod) (hp : p∈r.chosenNew w apis) : r.isNew p := by
  have hm : p∈w.pods.filter r.isNew := mem_of_mem_choose hp
  exact (mem_filter.mp hm).2

theorem Rollout.numbers_nonneg (pods : List Pod) : 0≤(r.numbers pods).old ∧ 0≤(r.numbers pods).new :=
  ⟨Int.natCast_nonneg _,Int.natCast_nonneg _⟩

theorem Rollout.chosen_lengths (h : r.expected w<(r.numbers w.pods).total) :
    ((r.chosenOld w apis).length : Int)=r.removedOld w ∧
      ((r.chosenNew w apis).length : Int)=(r.numbers w.pods).total-r.expected w-r.removedOld w := by
  obtain ⟨ho,hn⟩ := r.numbers_nonneg w.pods
  obtain ⟨h1,h2,h3,h4⟩ := Numbers.remove_bounds ho hn h
  refine ⟨choose_length _ _ _ h1 ?_,choose_length _ _ _ h3 ?_⟩
  · rw [← countP_eq_length_filter]
    exact h2
  · rw [← countP_eq_length_filter]
    exact h4

theorem Rollout.chosen_length (h : r.expected w<(r.numbers w.pods).total) :
    ((r.chosen apis w).length : Int)=(r.numbers w.pods).total-r.expected w := by
  obtain ⟨ho,hn⟩ := r.chosen_lengths w apis h
  rw [r.chosen_split w apis,length_append]
  omega

end

/-! ## Pods and numbers after `Scale` -/

theorem filter_name_perm {pods deleted rest : List Pod} (hn : (pods.map (·.name)).Nodup)
    (hp : pods.Perm (deleted++rest)) : (pods.filter fun p => p.name∉deleted.map (·.name)).Perm rest := by
  have hnd : ((deleted++rest).map (·.name)).Nodup := (hp.map _).nodup_iff.mp hn
  rw [map_append,nodup_append'] at hnd
  have hd : deleted.filter (fun p => p.name∉deleted.map (·.name))=[] := by
    rw [filter_eq_nil_iff]
    intro p hp
    simpa using ⟨p,hp,rfl⟩
  have hr : rest.filter (fun p => p.name∉deleted.map (·.name))=rest := by
    rw [filter_eq_self]
    intro p hp
    have hdis:=hnd.2.2
    simpa using fun q hq hname => hdis (mem_map_of_mem hq) (hname ▸ mem_map_of_mem hp)
  have hf:=hp.filter fun p => p.name∉deleted.map (·.name)
  rwa [filter_append,hd,hr,nil_append] at hf

theorem applyScale_deleted (pods deleted : List Pod) (modified err : Bool) :
    applyScale ⟨modified,err,[],deleted,[]⟩ pods = pods.filter fun p => p.name∉deleted.map (·.name) := by
  simp [applyScale]

theorem applyScale_created (pods created : List Pod) (modified err : Bool) :
    applyScale ⟨modified,err,created,[],[]⟩ pods=pods++created := by
  simp [applyScale]

theorem Rollout.Settled.scaleResult_delete (hw : r.Settled w) (ha : r.Accepting w apis)
    (h : r.expected w<(r.numbers w.pods).total) : r.scaleResult apis w=⟨true,false,[],r.chosen apis w,[]⟩ := by
  obtain ⟨ho,hlim⟩ : (r.diffs w).scaleDownNumOldRevision=max ((r.numbers w.pods).old-r.expectedOld w) 0 ∧
      (r.numbers w.pods).total-r.expected w≤(r.diffs w).deleteReadyLimit := settledDiffs_scaleDown _ _ _ _ h
  have hd : (r.diffs w).scaleDownNum=max ((r.numbers w.pods).total-r.expected w) 0 :=
    settledDiffs_scaleDownNum _ _ _ _
  have hm : max ((r.numbers w.pods).total-r.expected w) 0 = (r.numbers w.pods).total-r.expected w := by omega
  have hnum : ¬numToDelete r.cs w.pods > 0 :=
    (numToDelete_nonpos_iff r.cs w.pods).mpr fun p hp => ⟨hw.unmarked p hp,hw.active p hp⟩
  have hl:=r.chosen_length w apis h
  have hcnt : ((r.chosen apis w).countP (isPodReady w.now) : Int)≤(r.chosen apis w).length :=
    Int.ofNat_le.mpr countP_le_length
  have hne : r.chosen apis w≠[] := by
    intro hn
    simp only [hn,length_nil] at hl
    omega
  rw [hw.scaleResult_scaleIn (by omega)]
  unfold scaleIn
  simp only [hw.specifiedCanDelete_nil,countP_nil,Int.natCast_zero,Int.sub_zero,
    hw.scaleDiffs_eq,hd,ho,hm,if_neg hnum]
  rw [if_pos (by omega),hw.chosen_eq apis,spend_eq_self _ _ _ (by omega),
    deletePods_of_accepts _ _ _ _ r.noHook ha.scale]
  simp [hne]

/- The numbers of the two lists are one step apart. -/
def Rollout.Steps (r : Rollout) (pods pods' : List Pod) : Prop :=
  Numbers.Step r.rollback r.limits (r.numbers pods) (r.numbers pods')

structure Rollout.Kept (r : Rollout) (pods : List Pod) : Prop where
  unmarked : ∀ p∈pods,isSpecifiedDelete r.cs p=false
  names : (pods.map (·.name)).Nodup

theorem Rollout.Settled.reconcile_delete (hw : r.Settled w) (ha : r.Accepting w apis)
    (h : r.expected w<(r.numbers w.pods).total) :
    r.Kept (r.reconcile apis w) ∧ r.Steps w.pods (r.reconcile apis w) := by
  have hpods : r.reconcile apis w = w.pods.filter fun p => p.name∉(r.chosen apis w).map (·.name) := by
    simp only [Rollout.reconcile,hw.scaleResult_delete ha h,if_true,applyScale_deleted]
  obtain ⟨rest,hperm⟩ := r.chosen_perm w apis
  have hr:=filter_name_perm hw.names hperm
  have ho : (r.chosen apis w).countP (fun p => !r.isNew p)=(r.chosenOld w apis).length := by
    rw [r.chosen_split w apis,countP_append,countP_eq_length.mpr,countP_eq_zero.mpr]
    · rfl
    · intro p hp
      simp [r.chosenNew_new w apis p hp]
    · intro p hp
      simp [r.chosenOld_old w apis p hp]
  have hnew : (r.chosen apis w).countP r.isNew=(r.chosenNew w apis).length := by
    rw [r.chosen_split w apis,countP_append,countP_eq_zero.mpr,countP_eq_length.mpr,Nat.zero_add]
    · exact r.chosenNew_new w apis
    · intro p hp
      simp [r.chosenOld_old w apis p hp]
  have hcnt (f : Pod → Bool) : w.pods.countP f = (r.chosen apis w).countP f+(r.reconcile apis w).countP f := by
    rw [hpods,hr.countP_eq f,hperm.countP_eq f,countP_append]
  have hn : r.numbers (r.reconcile apis w)=⟨(r.numbers w.pods).old-(r.chosenOld w apis).length,
        (r.numbers w.pods).new-(r.chosenNew w apis).length⟩ := by
    have h1:=hcnt fun p => !r.isNew p
    have h2:=hcnt r.isNew
    simp only [Rollout.numbers,Numbers.mk.injEq]
    omega
  obtain ⟨hl1,hl2⟩ := r.chosen_lengths w apis h
  constructor
  · rw [hpods]
    exact ⟨fun p hp => hw.unmarked p (mem_filter.mp hp).1,hw.names.sublist (filter_sublist.map _)⟩
  · rw [Rollout.Steps,hn,hl1,hl2]
    exact .remove _ h rfl

theorem Rollout.isNew_newPod (cs : CloneSetSpec) (revision id : String) :
    r.isNew (newPod r.env cs revision id) ↔ getShortHash r.updateRevision=getShortHash revision :=
  equalToRevisionHash_writeRevisionHash r.env _ revision r.updateRevision

/- `current` ids go to the current revision, which is a new revision too when it is the update
revision. -/
theorem Rollout.countP_created (ids : List String) (current : Nat) :
    let created:=(ids.take current).map (newPod r.env r.currentCS r.currentRevision) ++
      (ids.drop current).map (newPod r.env r.cs r.updateRevision)
    let old:=if r.currentRevision=r.updateRevision then 0 else min current ids.length
    created.countP (fun p => !r.isNew p)=old ∧ created.countP r.isNew=ids.length-old := by
  intro created old
  have hu (id : String) : r.isNew (newPod r.env r.cs r.updateRevision id) :=
    (r.isNew_newPod r.cs r.updateRevision id).mpr rfl
  have hcur (id : String) : r.isNew (newPod r.env r.currentCS r.currentRevision id) =
      decide (r.currentRevision=r.updateRevision) := by
    rw [Bool.eq_iff_iff,decide_eq_true_iff,r.isNew_newPod]
    exact ⟨fun h => r.wellNamed h.symm,fun h => by rw [h]⟩
  simp only [created,old,countP_append,countP_map,Function.comp_def,hcur,hu]
  by_cases hsame : r.currentRevision=r.updateRevision
  · simp [hsame]
    omega
  · simp [hsame]
    omega

def Rollout.newIDs (r : Rollout) (apis : Apis) (w : World) : List String :=
  apis.scale.newIDs (r.creations w).toNat w.pods

def Rollout.currentCreations (r : Rollout) (w : World) : Nat :=
  (max (r.expectedOld w-(r.numbers w.pods).old) 0).toNat

def Rollout.created (r : Rollout) (apis : Apis) (w : World) : List Pod :=
  ((r.newIDs apis w).take (r.currentCreations w)).map
      (newPod r.env r.currentCS r.currentRevision) ++
    ((r.newIDs apis w).drop (r.currentCreations w)).map (newPod r.env r.cs r.updateRevision)

theorem Rollout.Settled.scaleResult_created (hw : r.Settled w) (ha : r.Accepting w apis)
    (h : (r.numbers w.pods).total<r.expected w) :
    r.scaleResult apis w=⟨true,false,r.created apis w,[],[]⟩ ∧ r.created apis w≠[] := by
  have hcre : 0<r.creations w := by
    unfold Rollout.creations maxInt32
    omega
  have hlen : ((r.newIDs apis w).length : Int)≤r.creations w := by
    have := ha.ids_length (r.creations w).toNat
    unfold Rollout.newIDs
    omega
  have hi : r.newIDs apis w≠[] := ha.ids_ne_nil _ (by omega)
  have hne : r.created apis w≠[] := by
    intro hn
    have hl:=congrArg List.length hn
    simp only [Rollout.created,length_append,length_map,length_take,length_drop,length_nil] at hl
    exact hi (length_eq_zero_iff.mp (by omega))
  have hnew : newVersionedPods r.env r.currentCS r.cs r.currentRevision r.updateRevision
      (r.creations w) (max (r.expectedOld w-(r.numbers w.pods).old) 0)
      (apis.scale.newIDs (r.creations w).toNat w.pods)=r.created apis w :=
    newVersionedPods_eq _ _ _ _ _ _ _ _ hlen
  rw [hw.scaleResult_create h,createPods_of_accepts _ _ _ _ _ _ _ _ _ ha.scale.create]
  simp only [hnew]
  simp [hne]

theorem Rollout.created_names (r : Rollout) (apis : Apis) (w : World) :
    (r.created apis w).map (·.name)=(r.newIDs apis w).map (r.cs.name ++ "-" ++ ·) :=
  names_newPods r.env r.sameName rfl r.currentRevision r.updateRevision (r.currentCreations w) (r.newIDs apis w)

theorem Rollout.Settled.created_kept (hw : r.Settled w) (ha : r.Accepting w apis) :
    r.Kept (w.pods++r.created apis w) := by
  have hnms:=r.created_names apis w
  have hf:=ha.ids_fresh (r.creations w).toNat
  constructor
  · intro p hp
    rcases mem_append.mp hp with hp | hp
    · exact hw.unmarked p hp
    · have hm : p.name∈(r.created apis w).map (·.name) := mem_map_of_mem hp
      rw [hnms] at hm
      obtain ⟨id,hid,hname⟩ := mem_map.mp hm
      have hspec : p.specifiedDelete=false := by
        rcases mem_append.mp hp with hp | hp <;>
        · obtain ⟨_,_,rfl⟩ := mem_map.mp hp
          rfl
      have hnot:=(hf id hid).2
      rw [hname] at hnot
      simp [isSpecifiedDelete,hspec,hnot]
  · rw [map_append,nodup_append']
    refine ⟨hw.names,?_,?_⟩
    · rw [hnms]
      exact (ha.ids_nodup _).map (append_dash_injective r.cs.name)
    · rw [hnms]
      intro n hn hm
      obtain ⟨id,hid,rfl⟩ := mem_map.mp hm
      exact (hf id hid).1 hn

theorem Rollout.Settled.reconcile_create (hw : r.Settled w) (ha : r.Accepting w apis)
    (h : (r.numbers w.pods).total<r.expected w) :
    r.Kept (r.reconcile apis w) ∧ r.Steps w.pods (r.reconcile apis w) := by
  obtain ⟨hres,hne⟩ := hw.scaleResult_created ha h
  have hpods : r.reconcile apis w=w.pods++r.created apis w := by
    simp only [Rollout.reconcile,hres,if_true,applyScale_created]
  rw [hpods]
  refine ⟨hw.created_kept ha,?_⟩
  obtain ⟨ho,hnew⟩ := r.countP_created (r.newIDs apis w) (r.currentCreations w)
  change (r.created apis w).countP (fun p => !r.isNew p)=_ at ho
  change (r.created apis w).countP r.isNew=_ at hnew
  have hl:=ha.ids_length (r.creations w).toNat
  have hi : 0<(r.newIDs apis w).length := by
    rw [length_pos_iff]
    intro hn
    exact hne (by simp [Rollout.created,hn])
  have hnum : r.numbers (w.pods++r.created apis w) =
      ⟨(r.numbers w.pods).old+(r.created apis w).countP (fun p => !r.isNew p),
        (r.numbers w.pods).new+(r.created apis w).countP r.isNew⟩ := by
    simp [Rollout.numbers,countP_append]
  rw [Rollout.Steps,hnum,ho,hnew]
  -- only ids that were asked for are used, so the total stays within what is expected
  have hcre : ((r.newIDs apis w).length : Int)≤r.expected w-(r.numbers w.pods).total := by
    unfold Rollout.newIDs
    unfold Rollout.creations at hl ⊢
    omega
  have hcur : (r.currentCreations w : Int)=max (r.expectedOld w-(r.numbers w.pods).old) 0 := by
    unfold Rollout.currentCreations
    omega
  unfold Rollout.expected at hcre
  unfold Rollout.expectedOld at hcur
  refine .create _ _ (by omega) (by omega) ?_ ?_ ?_ ?_
  · split_ifs <;> omega
  · split_ifs <;> omega
  · split_ifs <;> omega
  · intro hr hpos
    have hsame : ¬r.currentRevision=r.updateRevision := by
      intro hsame
      simp [Rollout.rollback,rollbackAllowed,hsame] at hr
    rw [if_neg hsame] at hpos ⊢
    omega

end Kruise.CloneSet
