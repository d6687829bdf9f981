import Kruise.CloneSet.Diffs
import Kruise.Lib.Counting

/-!
# What the counters count

Each counter of the loop in `calculateDiffsWithExpectation` is the number of pods of one kind.
-/

namespace Kruise.CloneSet

open Util.IntStr Lib.Counting

def isActive (p : Pod) : Bool := p.lifecycleState≠.preparingDelete

def countsOf (now : Int) (cs : CloneSetSpec) (isNew : Pod → Bool) (pods : List Pod) : Counts :=
  let unavailable:=fun p : Pod =>
    isActive p&&!isSpecifiedDelete cs p&&!isPodAvailable now p cs.minReadySeconds
  let toDelete:=fun p : Pod => isActive p&&isSpecifiedDelete cs p
  { oldRevision := pods.countP fun p => !isNew p
    newRevisionActive := pods.countP fun p => isNew p&&isActive p
    oldRevisionActive := pods.countP fun p => !isNew p&&isActive p
    unavailableNewRevision := pods.countP fun p => isNew p&&unavailable p
    unavailableOldRevision := pods.countP fun p => !isNew p&&unavailable p
    toDeleteNewRevision := pods.countP fun p => isNew p&&toDelete p
    toDeleteOldRevision := pods.countP fun p => !isNew p&&toDelete p
    preDeletingNewRevision := pods.countP fun p => isNew p&&!isActive p
    preDeletingOldRevision := pods.countP fun p => !isNew p&&!isActive p}

theorem countPods_eq (now : Int) (cs : CloneSetSpec) (isNew : Pod → Bool) (pods : List Pod) :
    countPods now cs isNew pods=countsOf now cs isNew pods := by
  induction pods using List.reverseRecOn with
  | nil => rfl
  | append_singleton pods p ih =>
    have hstep : countPods now cs isNew (pods++[p]) = countPod now cs isNew (countPods now cs isNew pods) p := by
      simp [countPods,List.foldl_append]
    rw [hstep,ih]
    cases hn : isNew p <;> by_cases hs : p.lifecycleState=.preparingDelete <;>
      cases hd : isSpecifiedDelete cs p <;>
      cases ha : isPodAvailable now p cs.minReadySeconds <;>
      simp [countPod,countsOf,isActive,List.countP_append,hn,hs,hd,ha]

theorem toDelete_countsOf (now : Int) (cs : CloneSetSpec) (isNew : Pod → Bool) (pods : List Pod) :
    (countsOf now cs isNew pods).toDelete = pods.countP (fun p => isActive p&&isSpecifiedDelete cs p) :=
  countP_split_int isNew (fun p => isActive p&&isSpecifiedDelete cs p) pods

theorem totalUnavailable_countsOf (now : Int) (cs : CloneSetSpec) (isNew : Pod → Bool) (pods : List Pod) :
    (countsOf now cs isNew pods).totalUnavailable=pods.countP (fun p => !isActive p) +
        pods.countP (fun p => isActive p&&!isSpecifiedDelete cs p && !isPodAvailable now p cs.minReadySeconds) := by
  have hpre:=countP_split_int isNew (fun p => !isActive p) pods
  have hun:=countP_split_int isNew (fun p => isActive p&&!isSpecifiedDelete cs p &&
    !isPodAvailable now p cs.minReadySeconds) pods
  simp only [Counts.totalUnavailable,countsOf]
  omega

theorem limits_partition_bounds (env : Env) (cs : CloneSetSpec) (h : 0≤cs.replicas) :
    0≤(limits env cs).partition ∧ (limits env cs).partition≤(limits env cs).replicas := by
  unfold limits
  cases cs.partition with
  | none => exact ⟨le_rfl,h⟩
  | some p =>
    cases hp : calculatePartitionReplicas env.float p cs.replicas with
    | none => simpa [hp] using h
    | some v => simpa [hp] using calculatePartitionReplicas_bounds env.float p cs.replicas v h hp

/- Updating any number of pods up to `num` leaves enough pods on the revision
they are taken from: old pods when `num` is positive, new pods when it is
negative. -/
def KeepsPartition (l : Limits) (old new num : Int) : Prop :=
  (0<num → ∀ k,0≤k → k≤num → l.partition≤old-k) ∧
    (num<0 → ∀ k,0≤k → k ≤ intAbs num → l.replicas-l.partition≤new-k)

theorem keepsPartition_iff (l : Limits) (old new num : Int) : KeepsPartition l old new num ↔
      (0<num → l.partition≤old-num) ∧ (num<0 → l.replicas-l.partition≤new-intAbs num) := by
  have ha : 0 ≤ intAbs num := Int.natCast_nonneg _
  constructor
  · intro h
    exact ⟨fun hp => h.1 hp num (by omega) le_rfl,fun hn => h.2 hn _ ha le_rfl⟩
  · intro h
    refine ⟨fun hp k _ hk => ?_,fun hn k _ hk => ?_⟩
    · omega
    · omega

theorem keepsPartition_rollback (l : Limits) (c : Counts) :
    KeepsPartition l c.oldRevisionActive c.newRevisionActive
        (updateNum (updateOldDiff true l c) (updateNewDiff true l c)) ↔
      ¬(c.oldRevisionActive<l.partition ∧ c.newRevisionActive<l.replicas-l.partition) := by
  rw [keepsPartition_iff]
  simp only [updateNum,updateOldDiff,updateNewDiff,intAbs,if_true]
  split_ifs <;> omega

theorem keepsPartition_no_rollback (l : Limits) (c : Counts) :
    KeepsPartition l c.oldRevisionActive c.newRevisionActive
        (updateNum (updateOldDiff false l c) (updateNewDiff false l c)) := by
  rw [keepsPartition_iff]
  simp only [updateNum,updateOldDiff,updateNewDiff,intAbs,Bool.false_eq_true,if_false]
  split_ifs <;> omega

/-- The update number keeps the partition except when rollback is on and both revisions are short of
their target: the smaller shortage is repaired from the other side, which is short as well. -/
theorem updateNum_keepsPartition_iff (env : Env) (now : Int) (cs : CloneSetSpec)
    (pods : List Pod) (currentRevision updateRevision : String) (isPodUpdate : Option (Pod → String → Bool)) :
    let isNew:=isNewPod isPodUpdate updateRevision
    let old : Int := pods.countP fun p => !isNew p&&isActive p
    let new : Int := pods.countP fun p => isNew p&&isActive p
    let l:=limits env cs
    KeepsPartition l old new (calculateDiffsWithExpectation env now cs pods currentRevision updateRevision
          isPodUpdate).updateNum ↔
      ¬(env.cloneSetPartitionRollback ∧ updateRevision≠currentRevision ∧
        old<l.partition ∧ new<l.replicas-l.partition) := by
  intro isNew old new l
  have hcnt:=countPods_eq now cs isNew pods
  have hn : (calculateDiffsWithExpectation env now cs pods currentRevision updateRevision isPodUpdate).updateNum =
      updateNum (updateOldDiff (rollbackAllowed env currentRevision updateRevision) l (countsOf now cs isNew pods))
        (updateNewDiff (rollbackAllowed env currentRevision updateRevision) l (countsOf now cs isNew pods)) := by
    rw [← hcnt]
    rfl
  rw [hn]
  cases hr : rollbackAllowed env currentRevision updateRevision with
  | true =>
    have hg : env.cloneSetPartitionRollback ∧ updateRevision≠currentRevision := by
      simpa [rollbackAllowed,and_comm] using hr
    simp only [hg,ne_eq,not_false_eq_true,true_and]
    exact keepsPartition_rollback l (countsOf now cs isNew pods)
  | false =>
    refine iff_of_true (keepsPartition_no_rollback l (countsOf now cs isNew pods)) ?_
    intro h
    simp [rollbackAllowed,h.1,h.2.1] at hr

/-- One old and one new pod, a partition of two out of four: the only new pod is rolled back. -/
theorem updateNum_breaks_partition :
    let env:={quietEnv with cloneSetPartitionRollback := true}
    let cs:={plainSpec 4 with partition := some (.int 2)}
    let pods:=[readyPod "web-a" "web-1",readyPod "web-b" "web-2"]
    ¬KeepsPartition (limits env cs) (pods.countP fun p => !isNewPod none "web-2" p&&isActive p)
      (pods.countP fun p => isNewPod none "web-2" p&&isActive p)
      (calculateDiffsWithExpectation env 0 cs pods "web-1" "web-2" none).updateNum := by
  intro env cs pods h
  exact absurd (h.2 (by decide) 1 (by decide) (by decide)) (by decide)

end Kruise.CloneSet
