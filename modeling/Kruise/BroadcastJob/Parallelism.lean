import Kruise.BroadcastJob.Creation
import Mathlib.Data.List.Nodup

/-!
# The parallelism of a BroadcastJob

A reconcile lowers its number of active pods for every pod it deletes from a node that does not
fit any more, also for finished ones that were never counted, so with each of these one pod more
may run.
-/

namespace Kruise.BroadcastJob

open Util.IntStr List

variable {env : Env} {job : Job} {cluster : Cluster} {now : Int}

def activePods (job : Job) (pods : List Pod) : Nat := pods.countP (isActive job.restartLimit)

structure Env.Succeeds (env : Env) : Prop where
  delete : ∀ name,env.deletePod name
  create : ∀ node,env.createPod node=.created

def podsToDelete (env : Env) (cluster : Cluster) : List Pod :=
  (getNodesToRunPod env cluster.nodes cluster.pods).podsToDelete

def restNodes (env : Env) (cluster : Cluster) : List String :=
  (getNodesToRunPod env cluster.nodes cluster.pods).restNodesToRunPod

def desiredNodes (env : Env) (cluster : Cluster) : List (Option Pod) :=
  (getNodesToRunPod env cluster.nodes cluster.pods).desiredNodes

def activeToDelete (env : Env) (job : Job) (cluster : Cluster) : Nat :=
  (podsToDelete env cluster).countP (isActive job.restartLimit)

def inactiveToDelete (env : Env) (job : Job) (cluster : Cluster) : Nat :=
  (podsToDelete env cluster).countP fun p => !isActive job.restartLimit p

theorem nodeFit_delete {pods : List Pod} {node : Node} {p : Pod}
    (h : nodeFit env pods node=.delete p) : p∈pods ∧ p.node=node.name := by
  unfold nodeFit at h
  cases hm : getNodeToPodMap pods node.name with
  | none =>
    simp only [hm] at h
    split_ifs at h
  | some q =>
    simp only [hm] at h
    split_ifs at h
    obtain rfl := NodeFit.delete.inj h
    obtain ⟨hmem,hn⟩ := mem_filter.mp (mem_of_getLast? hm)
    exact ⟨hmem,of_decide_eq_true hn⟩

def podToDelete (env : Env) (pods : List Pod) (node : Node) : Option Pod :=
  match nodeFit env pods node with
  | .delete pod => some pod
  | _ => none

theorem podToDelete_some {pods : List Pod} {node : Node} {p : Pod}
    (h : podToDelete env pods node=some p) : p∈pods ∧ p.node=node.name := by
  unfold podToDelete at h
  split at h
  · cases h
    exact nodeFit_delete (by assumption)
  · cases h

theorem podsToDelete_subset : podsToDelete env cluster ⊆ cluster.pods := by
  intro p hp
  obtain ⟨node,-,hd⟩ := mem_filterMap.mp hp
  exact (podToDelete_some hd).1

theorem nodup_podsToDelete : (podsToDelete env cluster).Nodup := by
  refine Nodup.filterMap ?_ (Nodup.of_map _ cluster.nodeNames)
  intro node node' p hp hp'
  obtain ⟨name⟩ := node
  congr 1
  exact (podToDelete_some hp).2.symm.trans (podToDelete_some hp').2

theorem countP_podsToDelete (q : Pod → Bool) : cluster.pods.countP
        (fun p => q p&&decide (p.name∈(podsToDelete env cluster).map Pod.name)) =
      (podsToDelete env cluster).countP q := by
  have hperm : (cluster.pods.filter fun p => decide (p∈podsToDelete env cluster)).Perm
      (podsToDelete env cluster) := by
    refine (perm_ext_iff_of_nodup ((Nodup.of_map _ cluster.podNames).filter _) nodup_podsToDelete).mpr ?_
    intro p
    rw [mem_filter,decide_eq_true_eq]
    exact and_iff_right_of_imp fun hp => podsToDelete_subset hp
  rw [← hperm.countP_eq,countP_filter]
  refine countP_congr fun p hp => ?_
  have hi : p.name∈(podsToDelete env cluster).map Pod.name ↔ p∈podsToDelete env cluster := by
    constructor
    · intro hn
      obtain ⟨r,hr,hsame⟩ := mem_map.mp hn
      exact inj_on_of_nodup_map cluster.podNames (podsToDelete_subset hr) hp hsame ▸ hr
    · exact mem_map_of_mem
  simp only [hi]

theorem createBatches_eq (he : env.Succeeds) {fuel batchSize : Nat} {nodes : List String}
    (hf : nodes.length≤fuel) (hbat : nodes≠[] → 1≤batchSize) : createBatches env fuel batchSize nodes=nodes := by
  refine createBatches_all hf hbat fun n _ => ?_
  rw [he.create]
  exact CreateResult.noConfusion

/- A pod of the template counts as active when it is created; it does not when the restart limit is
negative and the pod may restart. -/
def freshActive (job : Job) : Bool :=
  !(job.templateRestartOnFailure&&decide (0 > job.restartLimit))

theorem isActive_newPod (node : String) : isActive job.restartLimit (newPod env job node)=freshActive job := by
  simp [isActive,newPod,isPodFailed,freshActive,int32]

theorem activePods_after (o : Outcome) (pods : List Pod) : activePods job (o.pods env job pods) =
      pods.countP (fun p => isActive job.restartLimit p&&!decide (p.name∈o.deleted)) +
        if freshActive job then o.created.length else 0 := by
  unfold activePods Outcome.pods
  rw [countP_append,countP_map,countP_map]
  congr 1
  · refine countP_congr fun p _ => ?_
    by_cases hd : p.name∈o.deleted
    · simp [hd,isActive]
    · simp [hd]
  · cases hf : freshActive job with
    | true => simp [Function.comp_def,isActive_newPod,hf]
    | false => simp [Function.comp_def,isActive_newPod,hf]

theorem length_podsToDelete :
    (podsToDelete env cluster).length = activeToDelete env job cluster+inactiveToDelete env job cluster := by
  rw [length_eq_countP_add_countP (isActive job.restartLimit)]
  congr 1
  exact countP_congr fun p _ => by simp

theorem countP_undeleted {deleted : List String} (h : deleted=(podsToDelete env cluster).map Pod.name) :
    cluster.pods.countP (fun p => isActive job.restartLimit p&&!decide (p.name∈deleted)) +
      activeToDelete env job cluster=activePods job cluster.pods := by
  subst h
  unfold activeToDelete activePods
  rw [← countP_podsToDelete,Nat.add_comm]
  have hspl:=Kruise.Lib.Counting.countP_split
    (fun p : Pod => decide (p.name∈(podsToDelete env cluster).map Pod.name))
    (isActive job.restartLimit) cluster.pods
  rw [← hspl]
  congr 1 <;> exact countP_congr fun p _ => by rw [Bool.and_comm]

theorem runJob_requests (he : env.Succeeds) {toRun : NodesToRunPod} {status : JobStatus}
    {p : Int} (hp : parallelism job status.desired=some p) (hd : job.deleting=false) :
    (runJob env job toRun status now).deleted=toRun.podsToDelete.map Pod.name ∧
      ((runJob env job toRun status now).created.length : Int) =
        if status.active-toRun.podsToDelete.length<p then
          max 0 (min (int32 (p-(status.active-toRun.podsToDelete.length))) toRun.restNodesToRunPod.length)
        else 0 := by
  have hdel : (toRun.podsToDelete.map Pod.name).filter env.deletePod =
      toRun.podsToDelete.map Pod.name := filter_eq_self.mpr fun n _ => he.delete n
  have hcreated : ∀ names : List String, (names.filter fun n => decide (env.createPod n≠.failed))=names := by
    intro names
    refine filter_eq_self.mpr fun n _ => ?_
    rw [he.create]
    rfl
  unfold runJob deleteJobPods
  simp only [hdel,length_map,hd,Bool.not_false,Bool.true_and]
  cases hrest : toRun.restNodesToRunPod with
  | nil =>
    simp only [isEmpty_nil,Bool.not_true,Bool.false_eq_true,if_false,length_nil,filter_nil]
    refine ⟨trivial,?_⟩
    split_ifs <;> omega
  | cons n rest =>
    simp only [isEmpty_cons,Bool.not_false,if_true]
    unfold reconcilePods
    simp only [hp]
    by_cases hr : status.active-toRun.podsToDelete.length<p
    · simp only [if_pos hr]
      by_cases hn : min (int32 (p-(status.active-toRun.podsToDelete.length))) ((n::rest).length : Int)<0
      · simp only [if_pos hn]
        refine ⟨trivial,?_⟩
        rw [length_nil]
        omega
      · simp only [if_neg hn]
        refine ⟨trivial,?_⟩
        rw [createBatches_eq he (length_take_le _ _),hcreated,length_take]
        · omega
        · intro hne
          have hpos:=length_pos_iff.mpr hne
          rw [length_take] at hpos
          omega
    · simp only [if_neg hr]
      exact ⟨trivial,rfl⟩

structure Creates (env : Env) (job : Job) (cluster : Cluster) (now : Int) : Prop where
  satisfied : env.satisfied
  unfinished : isJobFinished job=false
  running : ∃ phase,course job (cluster.pods.filter (isFailed job.restartLimit)).length
    (job.status.startTime.getD now) now=.run phase
  notDeleting : job.deleting=false
  fresh : freshActive job

theorem not_creates_le (hn : ¬Creates env job cluster now) :
    activePods job ((reconcile env job cluster now).pods env job cluster.pods) ≤ activePods job cluster.pods := by
  have hl : ∀ (deleted : List String),cluster.pods.countP
      (fun q => isActive job.restartLimit q&&!decide (q.name∈deleted)) ≤ activePods job cluster.pods := by
    intro deleted
    refine countP_mono_left fun q _ hq => ?_
    exact (Bool.and_eq_true_iff.mp hq).1
  have he : ∀ o : Outcome,o.created=[] →
      activePods job (o.pods env job cluster.pods)≤activePods job cluster.pods := by
    intro o ho
    rw [activePods_after,ho,length_nil,ite_self]
    exact hl o.deleted
  cases hf : freshActive job with
  | false =>
    rw [activePods_after,hf,if_neg Bool.false_ne_true]
    exact hl _
  | true =>
    refine he _ ?_
    unfold reconcile
    cases hsat : env.satisfied with
    | false => rfl
    | true =>
      cases hfin : isJobFinished job with
      | true => rfl
      | false =>
        simp only [filterPods,Bool.not_true,Bool.false_eq_true,if_false]
        cases hcourse : course job (cluster.pods.filter (isFailed job.restartLimit)).length
            (job.status.startTime.getD now) now with
        | stop phase => rfl
        | giveUp => rfl
        | run phase =>
          cases hd : job.deleting with
          | false =>
            exact absurd ⟨hsat,hfin,⟨phase,hcourse⟩,hd,hf⟩ hn
          | true => simp [runJob,hd]

theorem creates_after (he : env.Succeeds) {p : Int} (hp : parallelism job (desiredNodes env cluster).length=some p)
    (hcrs : Creates env job cluster now) :
    ∃ created : Nat,activePods job ((reconcile env job cluster now).pods env job cluster.pods) +
          activeToDelete env job cluster=activePods job cluster.pods+created ∧
        (created : Int) =
          if (activePods job cluster.pods : Int)-(podsToDelete env cluster).length<p then
            max 0 (min (int32 (p-(activePods job cluster.pods-(podsToDelete env cluster).length)))
              (restNodes env cluster).length)
          else 0 := by
  obtain ⟨hsat,hfin,⟨phase,hcourse⟩,hd,hf⟩ := hcrs
  obtain ⟨status,hsts,ha,hdes⟩ : ∃ status : JobStatus,reconcile env job cluster now =
        runJob env job (getNodesToRunPod env cluster.nodes cluster.pods) status now ∧
      status.active=activePods job cluster.pods ∧
      status.desired=(desiredNodes env cluster).length := by
    unfold reconcile
    rw [hsat,hfin]
    simp only [filterPods,Bool.not_true,Bool.false_eq_true,if_false]
    rw [hcourse]
    refine ⟨_,rfl,?_,rfl⟩
    rw [activePods,countP_eq_length_filter]
  obtain ⟨hdel,hl⟩ := @runJob_requests env job now he
    (getNodesToRunPod env cluster.nodes cluster.pods) status p (hdes ▸ hp) hd
  rw [ha] at hl
  refine ⟨_,?_,hl⟩
  have hk:=@countP_undeleted env job cluster _ hdel
  rw [activePods_after,hf,if_pos rfl,hsts]
  omega

/-- A reconcile with all requests granted keeps to the parallelism exactly when it creates nothing,
or no finished pod is on a node that does not fit, or there are too many active pods even with the
finished ones set off, or what it could create still fits. -/
theorem reconcile_keeps_parallelism_iff (henv : env.Succeeds) {p : Int}
    (hp : parallelism job (desiredNodes env cluster).length=some p) :
    (activePods job ((reconcile env job cluster now).pods env job cluster.pods) : Int) ≤
        max (activePods job cluster.pods : Int) p ↔
      ¬Creates env job cluster now ∨
      inactiveToDelete env job cluster=0 ∨
      p+inactiveToDelete env job cluster≤activePods job cluster.pods ∨
      (restNodes env cluster).length≤activeToDelete env job cluster ∨
      (activePods job cluster.pods : Int)+(restNodes env cluster).length ≤ p+activeToDelete env job cluster := by
  by_cases hcrs : Creates env job cluster now
  · obtain ⟨created,ha,hcreated⟩ := creates_after henv hp hcrs
    have hl:=@length_podsToDelete env job cluster
    have hsub : (podsToDelete env cluster).length≤cluster.pods.length :=
      (nodup_podsToDelete.subperm podsToDelete_subset).length_le
    have hr : (restNodes env cluster).length≤cluster.nodes.length :=
      length_filterMap_le _ _
    have hcountable:=cluster.countable
    simp only [hcrs,not_true_eq_false,false_or]
    by_cases hroom : (activePods job cluster.pods : Int)-(podsToDelete env cluster).length<p
    · by_cases hw : p-(activePods job cluster.pods-(podsToDelete env cluster).length)<2^31
      · rw [int32_of_lt (by omega) hw] at hcreated
        omega
      · -- the difference overflows: nothing is created, and what could be would fit
        omega
    · omega
  · simp only [hcrs,not_false_eq_true,true_or,iff_true]
    have hle:=@not_creates_le env job cluster now hcrs
    omega

def jobPod (node : String) (phase : CloneSet.PodPhase) : Pod :=
  ⟨"job-" ++ node,node,phase,false,false,[]⟩

def threeNodes : Cluster where
  nodes := [⟨"a"⟩,⟨"b"⟩,⟨"c"⟩]
  pods := [jobPod "a" .succeeded,jobPod "b" .running]
  nodeNames := by decide +kernel
  podNames := by decide +kernel
  countable := by decide

/-- The node of the finished pod does not fit any more: its pod is deleted and two pods run. -/
theorem oneAtATime_runs_two :
    let env:=fitExcept ["a"]
    parallelism oneAtATime (desiredNodes env threeNodes).length=some 1 ∧ activePods oneAtATime threeNodes.pods=1 ∧
      activePods oneAtATime ((reconcile env oneAtATime threeNodes 0).pods env oneAtATime threeNodes.pods)=2 := by
  decide +kernel

theorem oneAtATime_runs_one :
    let env:=fitExcept []
    (activePods oneAtATime ((reconcile env oneAtATime threeNodes 0).pods env oneAtATime
      threeNodes.pods) : Int)≤1 := by
  intro env
  have he : env.Succeeds := ⟨fun _ => rfl,fun _ => rfl⟩
  have hp : parallelism oneAtATime (desiredNodes env threeNodes).length=some 1 := by
    decide +kernel
  have hi : inactiveToDelete env oneAtATime threeNodes=0 := by decide +kernel
  have hle:=(@reconcile_keeps_parallelism_iff env oneAtATime threeNodes 0 he 1 hp).mpr (.inr (.inl hi))
  exact hle

end Kruise.BroadcastJob
