import Kruise.CloneSet.Counting

/-!
# When nothing is left to do

The numbers of `calculateDiffsWithExpectation` (`cloneset_sync_utils.go:93-270`) for pods of which
none is marked for deletion or on its way out.
-/

namespace Kruise.CloneSet

open Util.IntStr Lib.Counting

structure NoDeletion (cs : CloneSetSpec) (pods : List Pod) : Prop where
  unmarked : ∀ p∈pods,isSpecifiedDelete cs p=false
  active : ∀ p∈pods,isActive p

structure PlainCounts (c : Counts) (old new : Int) : Prop where
  preDeleting : c.preDeletingOldRevision=0 ∧ c.preDeletingNewRevision=0
  toDelete : c.toDeleteOldRevision=0 ∧ c.toDeleteNewRevision=0
  oldRevision : c.oldRevision=old ∧ c.oldRevisionActive=old
  newRevision : c.newRevisionActive=new

section

variable {cs : CloneSetSpec} {pods : List Pod}

section

variable (h : NoDeletion cs pods)
include h

theorem NoDeletion.toDelete_eq_zero (f : Pod → Bool) :
    pods.countP (fun p => f p&&(isActive p&&isSpecifiedDelete cs p))=0 := by
  rw [List.countP_eq_zero]
  intro p hp
  simp [h.unmarked p hp]

theorem NoDeletion.preDeleting_eq_zero (f : Pod → Bool) : pods.countP (fun p => f p&&!isActive p)=0 := by
  rw [List.countP_eq_zero]
  intro p hp
  simp [h.active p hp]

theorem NoDeletion.countP_active (f : Pod → Bool) : pods.countP (fun p => f p&&isActive p)=pods.countP f := by
  apply List.countP_congr
  intro p hp
  simp [h.active p hp]

theorem NoDeletion.plainCounts (now : Int) (isNew : Pod → Bool) :
    PlainCounts (countsOf now cs isNew pods) (pods.countP fun p => !isNew p) (pods.countP isNew) where
  preDeleting := ⟨congrArg Nat.cast (h.preDeleting_eq_zero fun p => !isNew p),
    congrArg Nat.cast (h.preDeleting_eq_zero isNew)⟩
  toDelete := ⟨congrArg Nat.cast (h.toDelete_eq_zero fun p => !isNew p),
    congrArg Nat.cast (h.toDelete_eq_zero isNew)⟩
  oldRevision := ⟨rfl,congrArg Nat.cast (h.countP_active fun p => !isNew p)⟩
  newRevision := congrArg Nat.cast (h.countP_active isNew)

end

theorem length_eq_old_add_new (isNew : Pod → Bool) (pods : List Pod) :
    (pods.length : Int)=pods.countP (fun p => !isNew p)+pods.countP isNew := by
  have h:=countP_split_int isNew (fun _ => true) pods
  simp only [Bool.and_true,List.countP_true] at h
  exact (Int.add_comm _ _).trans h |>.symm

end

theorem updateSurge_eq_zero {oldDiff newDiff : Int} (h : oldDiff=0 ∨ newDiff=0) :
    updateSurge oldDiff newDiff=(0,0) := by
  have hsigns : isIntPlusAndMinus oldDiff newDiff=false := by
    rw [Bool.eq_false_iff]
    intro hs
    rw [isIntPlusAndMinus_iff] at hs
    omega
  rw [updateSurge,hsigns]
  rfl

theorem scaleSurge_eq_zero (l : Limits) {c : Counts} (h : c.toDelete=0) : scaleSurge l c=(0,0) := by
  rw [scaleSurge,if_neg (by omega)]

theorem useSurge_eq_zero (rollback : Bool) (l : Limits) {c : Counts} (hd : c.toDelete=0)
    (hu : updateOldDiff rollback l c=0 ∨ updateNewDiff rollback l c=0) : useSurge rollback l c=(0,0) := by
  unfold useSurge
  rw [scaleSurge_eq_zero l hd,updateSurge_eq_zero hu]
  split_ifs with hsur
  · simp only [ge_iff_le,le_refl,if_true,Prod.mk.injEq]
    omega
  · rfl

theorem updateNum_eq_zero_iff (oldDiff newDiff : Int) : updateNum oldDiff newDiff=0 ↔ oldDiff=0 ∨ newDiff=0 := by
  unfold updateNum intAbs
  split_ifs <;> omega

section

variable (rollback exclude : Bool) (l : Limits) {c : Counts} {old new : Int}

theorem update_done_iff (h : PlainCounts c old new) (ht : old+new=l.replicas) :
    (updateOldDiff rollback l c=0 ∨ updateNewDiff rollback l c=0) ↔
      old=l.partition ∨ (rollback=false ∧ old≤l.partition) := by
  unfold updateOldDiff updateNewDiff
  rw [h.oldRevision.2,h.newRevision]
  cases rollback with
  | true =>
    simp only [if_true,Bool.true_eq_false,false_and,or_false]
    omega
  | false =>
    simp only [Bool.false_eq_true,if_false,true_and]
    omega

theorem scale_done_iff (h : PlainCounts c old new) (total : Int) :
    let d:=diffsOfCounts rollback exclude l c total
    (d.scaleUpNum=0 ∧ d.scaleDownNum=0) ↔ total=l.replicas+(useSurge rollback l c).1 := by
  simp only [diffsOfCounts,h.preDeleting,h.toDelete]
  cases exclude <;> simp only [Bool.false_eq_true,if_true,if_false] <;> split_ifs <;> omega

theorem diffsOfCounts_done_iff (h : PlainCounts c old new) :
    let d:=diffsOfCounts rollback exclude l c (old+new)
    ((d.scaleUpNum=0 ∧ d.scaleDownNum=0 ∧ d.updateNum=0) ↔ old+new=l.replicas ∧
          (old=l.partition ∨ (rollback=false ∧ old≤l.partition))) ∧
      (d.updateNum=0 → d.useSurge=0) := by
  intro d
  have hsc : d.scaleUpNum=0 ∧ d.scaleDownNum=0 ↔ old+new=l.replicas+(useSurge rollback l c).1 :=
    scale_done_iff rollback exclude l h (old+new)
  have hn : d.updateNum=0 ↔ updateOldDiff rollback l c=0 ∨ updateNewDiff rollback l c=0 :=
    updateNum_eq_zero_iff _ _
  have hdel : c.toDelete=0 := by
    rw [Counts.toDelete,h.toDelete.1,h.toDelete.2]
    rfl
  have hsur (hd : updateOldDiff rollback l c=0 ∨ updateNewDiff rollback l c=0) : (useSurge rollback l c).1=0 := by
    rw [useSurge_eq_zero rollback l hdel hd]
  constructor
  · rw [← and_assoc,hsc,hn]
    constructor
    · rintro ⟨hl,hd⟩
      rw [hsur hd,Int.add_zero] at hl
      exact ⟨hl,(update_done_iff rollback l h hl).mp hd⟩
    · rintro ⟨hl,hpart⟩
      have hd:=(update_done_iff rollback l h hl).mpr hpart
      rw [hsur hd,Int.add_zero]
      exact ⟨hl,hd⟩
  · intro hu
    exact hsur (hn.mp hu)

end

section

variable (env : Env) (now : Int) (cs : CloneSetSpec) (pods : List Pod)
variable (currentRevision updateRevision : String) (isPodUpdate : Option (Pod → String → Bool))

theorem rollbackAllowed_eq_false_iff :
    rollbackAllowed env currentRevision updateRevision=false ↔
      env.cloneSetPartitionRollback=false ∨ updateRevision=currentRevision := by
  unfold rollbackAllowed
  cases env.cloneSetPartitionRollback <;> simp

/-- `Scale` and `Update` have nothing to do exactly when the goal is reached, and then no surge is
in use. -/
theorem quiescent_iff_goal (h : NoDeletion cs pods) :
    let d:=calculateDiffsWithExpectation env now cs pods currentRevision updateRevision isPodUpdate
    let l:=limits env cs
    let old : Int := pods.countP fun p => !isNewPod isPodUpdate updateRevision p
    ((d.scaleUpNum=0 ∧ d.scaleDownNum=0 ∧ d.updateNum=0) ↔ (pods.length : Int)=l.replicas ∧ (old=l.partition ∨
            ((env.cloneSetPartitionRollback=false ∨ updateRevision=currentRevision) ∧ old≤l.partition))) ∧
      (d.scaleUpNum=0 ∧ d.scaleDownNum=0 ∧ d.updateNum=0 → d.useSurge=0) := by
  intro d l old
  let isNew:=isNewPod isPodUpdate updateRevision
  have hd : d=diffsOfCounts (rollbackAllowed env currentRevision updateRevision)
      (shouldScalingExcludePreparingDelete env cs) l (countsOf now cs isNew pods)
      (pods.countP (fun p => !isNew p)+pods.countP isNew) := by
    rw [← countPods_eq,← length_eq_old_add_new]
    rfl
  have hdone:=diffsOfCounts_done_iff (rollbackAllowed env currentRevision updateRevision)
    (shouldScalingExcludePreparingDelete env cs) l (h.plainCounts now isNew)
  rw [rollbackAllowed_eq_false_iff,← hd,← length_eq_old_add_new] at hdone
  exact ⟨hdone.1,fun hqt => hdone.2 hqt.2.2⟩

/-- Two old and one new pod with a partition of two out of three. -/
theorem quiescent_two_of_three :
    let cs:={plainSpec 3 with partition := some (.int 2),maxSurge := some (.int 2)}
    let pods:=[readyPod "web-a" "web-1",readyPod "web-b" "web-1",readyPod "web-c" "web-2"]
    let d:=calculateDiffsWithExpectation quietEnv 0 cs pods "web-1" "web-2" none
    (d.scaleUpNum=0 ∧ d.scaleDownNum=0 ∧ d.updateNum=0) ∧ d.useSurge=0 := by
  intro cs pods d
  have hpl : NoDeletion cs pods := ⟨by decide,by decide⟩
  obtain ⟨hi,hsur⟩ := quiescent_iff_goal quietEnv 0 cs pods "web-1" "web-2" none hpl
  have hqt:=hi.mpr ⟨by decide,.inl (by decide)⟩
  exact ⟨hqt,hsur hqt⟩

end

end Kruise.CloneSet
