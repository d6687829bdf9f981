import Kruise.BroadcastJob.Reconcile

/-!
# What a BroadcastJob has created

`reconcilePods` (`broadcastjob_controller.go` 389-474): a worker whose creation fails reports the
error and counts the pod as active all the same.
-/

namespace Kruise.BroadcastJob

open Util.IntStr List

variable {env : Env} {job : Job} {nodes : List String} {active desired : Int}

/-- The error is that of an invalid parallelism or one that a worker has sent. -/
def reconcilePodsFails (env : Env) (job : Job) (restNodesToRunPod : List String) (active desired : Int) : Bool :=
  (parallelism job desired).isNone ||
    (reconcilePods env job restNodesToRunPod active desired).any fun r =>
      r.1.any fun n => decide (env.createPod n=.failed)

theorem prefix_createBatches {fuel batchSize : Nat} : createBatches env fuel batchSize nodes <+: nodes := by
  induction fuel generalizing batchSize nodes with
  | zero => exact nil_prefix
  | succ fuel ih =>
    unfold createBatches
    dsimp only
    split_ifs
    · rw [append_nil]
      exact take_prefix _ _
    · conv_rhs => rw [← take_append_drop batchSize nodes]
      exact (prefix_append_right_inj _).mpr ih

/-- Without a failure among the nodes that are tried, all of them are. -/
theorem createBatches_all {fuel batchSize : Nat} (hf : nodes.length≤fuel) (hbat : nodes≠[] → 1≤batchSize)
    (hok : ∀ n∈createBatches env fuel batchSize nodes,env.createPod n≠.failed) :
    createBatches env fuel batchSize nodes=nodes := by
  induction fuel generalizing batchSize nodes with
  | zero => exact (eq_nil_of_length_eq_zero (Nat.le_zero.mp hf)).symm
  | succ fuel ih =>
    unfold createBatches at hok ⊢
    dsimp only at hok ⊢
    have hbatchOk : ((nodes.take batchSize).any fun n => decide (env.createPod n=.failed)) = false := by
      simpa using fun n hn => hok n (mem_append_left _ hn)
    rw [hbatchOk,Bool.false_and,if_neg Bool.false_ne_true] at hok ⊢
    rw [ih ?_ ?_ fun n hn => hok n (mem_append_right _ hn),take_append_drop]
    · rw [length_drop]
      by_cases hnil : nodes=[]
      · simp [hnil]
      · have := hbat hnil
        omega
    · intro hr
      have hpos:=length_pos_iff.mpr hr
      have := hbat fun hnil => by simp [hnil] at hr
      omega

def CountsCreated (env : Env) (job : Job) (nodes : List String) (active desired : Int) : Prop :=
  ∃ tried active',reconcilePods env job nodes active desired=some (tried,active') ∧
    tried <+: nodes ∧
    (∀ p,parallelism job desired=some p → (tried.length : Int) ≤ max 0 (p-active)) ∧
    active'=active+tried.countP (fun n => decide (env.createPod n=.created)) ∧
    (reconcilePodsFails env job nodes active desired ↔
      ∃ n∈tried,env.createPod n=.failed)

theorem countP_created_iff {tried : List String} (hto : ∀ n,env.createPod n≠.timeout) :
    tried.countP (fun n => decide (env.createPod n≠.timeout)) =
        tried.countP (fun n => decide (env.createPod n=.created)) ↔
      ∀ n∈tried,env.createPod n≠.failed := by
  rw [countP_eq_length.mpr fun n _ => decide_eq_true (hto n),eq_comm,countP_eq_length]
  refine forall₂_congr fun n _ => ?_
  have := hto n
  cases hn : env.createPod n with
  | timeout => exact absurd hn this
  | created => simp
  | failed => simp

theorem int32_of_lt {x : Int} (hl : 0≤x) (hh : x<2^31) : int32 x=x := by
  refine Int.bmod_eq_of_le ?_ ?_ <;> omega

theorem int32_of_ge {x : Int} (hl : 2^31≤x) (hh : x<2^32) : int32 x<0 := by
  unfold int32
  rw [Int.bmod_def]
  omega

theorem parallelism_lt {p : Int} (hp : parallelism job desired=some p) : p<2^31 := by
  obtain ⟨v,_,rfl⟩ := Option.map_eq_some_iff.mp hp
  unfold int32
  rw [Int.bmod_def]
  omega

/-- With room for an int32 number of pods, some of the nodes within it are tried. -/
theorem reconcilePods_of_room {p : Int} (hp : parallelism job desired=some p)
    (hr : active<p) (hsm : p-active<2^31) :
    ∃ fuel batchSize,reconcilePods env job nodes active desired =
        some (createBatches env fuel batchSize (nodes.take (p-active).toNat),
          active+(createBatches env fuel batchSize (nodes.take (p-active).toNat)).countP
            fun n => decide (env.createPod n≠.timeout)) ∧
      (nodes.take (p-active).toNat).length≤fuel ∧
      (nodes.take (p-active).toNat≠[] → 1≤batchSize) := by
  have ht : nodes.take (min (p-active) nodes.length).toNat=nodes.take (p-active).toNat := by
    rw [take_eq_take_iff]
    omega
  have hn : ¬min (p-active) (nodes.length : Int)<0 := by omega
  refine ⟨(min (p-active) nodes.length).toNat,min (min (p-active) nodes.length).toNat 1, ?_,?_,?_⟩
  · unfold reconcilePods
    simp only [hp,if_pos hr,int32_of_lt (by omega : 0≤p-active) hsm,if_neg hn,ht]
  · rw [length_take]
    omega
  · intro hne
    have hpos:=length_pos_iff.mpr hne
    rw [length_take] at hpos
    omega

/-- Without timeouts, the number of active pods and the error are right exactly when the parallelism
resolves, the room is an int32, and no creation within it fails. -/
theorem reconcilePods_counts_created_iff (htimeout : ∀ n,env.createPod n≠.timeout) (hactive : -2^31≤active) :
    CountsCreated env job nodes active desired ↔ ∃ p,parallelism job desired=some p ∧ (active<p → p-active<2^31) ∧
        ∀ n∈nodes.take (p-active).toNat,env.createPod n≠.failed := by
  cases hp : parallelism job desired with
  | none => simp [CountsCreated,reconcilePods,reconcilePodsFails,hp]
  | some p =>
    have hm:=parallelism_lt hp
    simp only [Option.some.injEq,exists_eq_left']
    by_cases hr : active<p
    · by_cases hsm : p-active<2^31
      · obtain ⟨fuel,size,heq,hf,hsize⟩ :=
          @reconcilePods_of_room env job nodes _ _ _ hp hr hsm
        have hpre:=@prefix_createBatches env (nodes.take (p-active).toNat) fuel size
        have ha:=@createBatches_all env (nodes.take (p-active).toNat) fuel size hf hsize
        generalize createBatches env fuel size (nodes.take (p-active).toNat)=tried at *
        have hcnt:=@countP_created_iff env tried htimeout
        constructor
        · rintro ⟨_,_,heq',-,-,hcntd,-⟩
          obtain ⟨rfl,rfl⟩ := Prod.mk.inj (Option.some.inj (heq.symm.trans heq'))
          have hok:=hcnt.mp (by omega)
          exact ⟨fun _ => hsm,ha hok ▸ hok⟩
        · rintro ⟨-,hok⟩
          refine ⟨tried,_,heq,hpre.trans ( take_prefix _ _),?_,?_,?_⟩
          · intro q hq
            obtain rfl := Option.some.inj (hp.symm.trans hq)
            have := hpre.length_le
            rw [length_take] at this
            omega
          · rw [hcnt.mpr fun n hn => hok n (hpre.subset hn)]
          · simp [reconcilePodsFails,heq,hp]
      · have hneg:=int32_of_ge (by omega : 2^31≤p-active) (by omega)
        have hnone : reconcilePods env job nodes active desired=none := by
          simp only [reconcilePods,hp,if_pos hr]
          exact if_pos (by omega)
        refine iff_of_false ?_ fun h => hsm (h.1 hr)
        rintro ⟨_,_,heq,-⟩
        rw [hnone] at heq
        cases heq
    · have hz : (p-active).toNat=0 := by omega
      simp [CountsCreated,reconcilePods,reconcilePodsFails,hp,hr,hz]

def oneAtATime : Job :=
  { parallelism := some (.int 1)
    templateRestartOnFailure := false
    paused := false
    failurePolicy := .failFast
    restartLimit := 0
    completionPolicy := .always
    activeDeadlineSeconds := none
    ttlSecondsAfterFinished := none
    deleting := false
    status := ⟨none,false,none,none,0,0,0,0⟩}

def fitExcept (unfit : List String) : Env :=
  { satisfied := true
    checkNodeFitness := fun _ node => decide (node.name∉unfit)
    generateName := fun node => "job-" ++ node
    deletePod := fun _ => true
    createPod := fun _ => .created}

def refuseAll : Env := {fitExcept [] with createPod := fun _ => .failed}

theorem failed_creation_counted :
    reconcilePods refuseAll oneAtATime ["a"] 0 1=some (["a"],1) ∧ refuseAll.createPod "a" = .failed := by
  decide +kernel

theorem created_pod_counted : CountsCreated (fitExcept []) oneAtATime ["a", "b"] 0 2 := by
  refine (reconcilePods_counts_created_iff (fun _ => CreateResult.noConfusion) (by decide)).mpr ?_
  refine ⟨1,by decide +kernel,fun _ => by decide,fun _ _ => CreateResult.noConfusion⟩

end Kruise.BroadcastJob
