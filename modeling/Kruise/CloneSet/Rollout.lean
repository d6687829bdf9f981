import Kruise.CloneSet.RolloutUpdate
import Kruise.Lib.Transition

/-!
# Rollouts converge

Every iteration that does something moves the pods down a lexicographic measure: the pods that
have to change their revision, the distance of the total from what is expected, the pods without a
`pod-template-hash` label.
-/

namespace Kruise.CloneSet

open Util.IntStr List
open Lib.Transition

variable {r : Rollout} {w w' : World} {apis : Apis}

structure Rollout.Done (r : Rollout) (w : World) : Prop where
  total : (r.numbers w.pods).total=r.expected w
  need : (r.numbers w.pods).need r.rollback r.limits=0
  labelled : labelled w.pods

theorem Rollout.Settled.idle_of_done (hw : r.Settled w) (hd : r.Done w) : r.Idle w := by
  intro apis ha
  refine ⟨hw.scaleResult_idle hd.total,?_⟩
  have hn : r.selected apis w=[] := by
    have hle:=hw.selected_le apis hd.total
    rw [hd.need] at hle
    exact length_eq_zero_iff.mp (by omega)
  rw [hw.updateResult_eq ha,if_pos hd.labelled,hn]
  rfl

def Rollout.measure (r : Rollout) (pods : List Pod) : Nat ×ₗ Nat ×ₗ Nat :=
  toLex (((r.numbers pods).need r.rollback r.limits).toNat,
    toLex ((r.numbers pods).distance r.rollback r.limits,unlabelled pods))

variable {pods pods' : List Pod}

theorem Rollout.measure_lt_of_step (h : r.Steps pods pods') :
    r.measure pods'<r.measure pods := by
  have hn : 0≤(r.numbers pods').need r.rollback r.limits := Numbers.need_nonneg
  unfold Rollout.measure
  rw [Prod.Lex.toLex_lt_toLex]
  rcases Numbers.Step.progress h with hlt | ⟨heq,hd⟩
  · exact .inl (by simp only; omega)
  · refine .inr ⟨by simp only [heq],?_⟩
    rw [Prod.Lex.toLex_lt_toLex]
    exact .inl hd

theorem Rollout.measure_lt_of_unlabelled (hn : r.numbers pods'=r.numbers pods)
    (h : unlabelled pods'<unlabelled pods) : r.measure pods'<r.measure pods := by
  unfold Rollout.measure
  rw [hn,Prod.Lex.toLex_lt_toLex]
  refine .inr ⟨rfl,?_⟩
  rw [Prod.Lex.toLex_lt_toLex]
  exact .inr ⟨rfl,h⟩

theorem Rollout.Settled.reconcile_cases (hw : r.Settled w) (ha : r.Accepting w apis) :
    r.Kept (r.reconcile apis w) ∧ (r.Steps w.pods (r.reconcile apis w) ∨
      r.numbers (r.reconcile apis w)=r.numbers w.pods ∧
        (unlabelled (r.reconcile apis w)<unlabelled w.pods ∨ r.Done w)) := by
  rcases lt_trichotomy (r.numbers w.pods).total (r.expected w) with hlt | heq | hgt
  · exact (hw.reconcile_create ha hlt).imp_right .inl
  · cases hl : CloneSet.labelled w.pods with
    | false =>
      obtain ⟨hk,hnum,hun⟩ := hw.reconcile_label ha heq hl
      exact ⟨hk,.inr ⟨hnum,.inl hun⟩⟩
    | true =>
      by_cases hz : (r.numbers w.pods).need r.rollback r.limits=0
      · obtain ⟨hs,hu⟩ := hw.idle_of_done ⟨heq,hz,hl⟩ apis ha
        have hsame : r.reconcile apis w=w.pods := by
          unfold Rollout.reconcile
          rw [hs,hu]
          exact map_id w.pods
        rw [hsame]
        exact ⟨⟨hw.unmarked,hw.names⟩,.inr ⟨rfl,.inr ⟨heq,hz,hl⟩⟩⟩
      · exact (hw.reconcile_update ha heq hl hz).imp_right .inl
  · exact (hw.reconcile_delete ha hgt).imp_right .inl

theorem Rollout.Settled.reconcile_descends (hw : r.Settled w) (ha : r.Accepting w apis) (hd : ¬r.Done w) :
    r.Kept (r.reconcile apis w) ∧ r.measure (r.reconcile apis w)<r.measure w.pods := by
  obtain ⟨hk,hstep | ⟨hnum,hun | hdone⟩⟩ := hw.reconcile_cases ha
  · exact ⟨hk,r.measure_lt_of_step hstep⟩
  · exact ⟨hk,r.measure_lt_of_unlabelled hnum hun⟩
  · exact absurd hdone hd

theorem Rollout.becomes_countP {now : Int} (h : Forall₂ (r.Becomes now) pods pods')
    (f : Pod → Bool) (hf : ∀ p p',r.Becomes now p p' → f p'=f p) : pods'.countP f=pods.countP f := by
  induction h with
  | nil => rfl
  | cons hp _ ih => rw [countP_cons,countP_cons,ih,hf _ _ hp]

theorem Rollout.becomes_measure {now : Int} (h : Forall₂ (r.Becomes now) pods pods') :
    r.measure pods'=r.measure pods := by
  have hn : pods'.countP r.isNew=pods.countP r.isNew :=
    r.becomes_countP h _ fun p p' hp => by
      simp only [Rollout.isNew,equalToRevisionHash,hp.revisionHash]
  have ho : pods'.countP (fun p => !r.isNew p)=pods.countP fun p => !r.isNew p :=
    r.becomes_countP h _ fun p p' hp => by
      simp only [Rollout.isNew,equalToRevisionHash,hp.revisionHash]
  have hun : unlabelled pods'=unlabelled pods :=
    r.becomes_countP h _ fun p p' hp => by rw [hp.templateHash]
  simp only [Rollout.measure,Rollout.numbers,hn,ho,hun]

theorem Rollout.becomes_settled {pods : List Pod} (hk : r.Kept pods)
    (h : Forall₂ (r.Becomes w'.now) pods w'.pods) : r.Settled w' := by
  have hback : ∀ p'∈w'.pods,∃ p∈pods,r.Becomes w'.now p p' := by
    intro p' hp'
    obtain ⟨i,hi,rfl⟩ := mem_iff_getElem.mp hp'
    have hi' : i<pods.length := by
      rw [h.length_eq]
      exact hi
    exact ⟨pods[i],getElem_mem hi',h.get hi' hi⟩
  have hn : w'.pods.map (·.name)=pods.map (·.name) := by
    have hlist {l l' : List Pod} (hl : Forall₂ (r.Becomes w'.now) l l') : l'.map (·.name)=l.map (·.name) := by
      induction hl with
      | nil => rfl
      | cons hp _ ih => rw [map_cons,map_cons,ih,hp.name]
    exact hlist h
  refine ⟨fun p' hp' => ?_,fun p' hp' => ?_,fun p' hp' => ?_,by rw [hn]; exact hk.names⟩
  · obtain ⟨_,_,hp⟩ := hback p' hp'
    exact hp.available
  · obtain ⟨p,hm,hp⟩ := hback p' hp'
    have hun:=hk.unmarked p hm
    unfold isSpecifiedDelete at hun ⊢
    rw [hp.name,hp.specifiedDelete]
    exact hun
  · obtain ⟨_,_,hp⟩ := hback p' hp'
    exact hp.noGrace

/-- Iterating `Scale` and `Update` from settled pods reaches a state in which a further iteration
does nothing: `replicas` pods, at most `partition` of them old, and exactly that many when rollback
is allowed. -/
theorem rollout_converges (r : Rollout) (run : Nat → World) (hstart : r.Settled (run 0))
    (hround : ∀ n,r.Round (run n) (run (n+1))) :
    ∃ n,r.Idle (run n) ∧ ((run n).pods.length : Int)=r.cs.replicas ∧
      ((run n).pods.countP (fun p => !equalToRevisionHash p r.updateRevision) : Int) ≤
        (limits r.env r.cs).partition ∧
      (r.env.cloneSetPartitionRollback → r.updateRevision≠r.currentRevision →
        ((run n).pods.countP (fun p => !equalToRevisionHash p r.updateRevision) : Int) =
          (limits r.env r.cs).partition) := by
  have hdown : ∀ n,r.Settled (run n) → ¬r.Done (run n) →
      r.Settled (run (n+1)) ∧ r.measure (run (n+1)).pods<r.measure (run n).pods := by
    intro n hn hd
    obtain ⟨apis,ha,hbec⟩ := hround n
    obtain ⟨hk,hlt⟩ := hn.reconcile_descends ha hd
    rw [r.becomes_measure hbec]
    exact ⟨r.becomes_settled hk hbec,hlt⟩
  obtain ⟨n,hn,hd⟩ := exists_quiet_of_run run r.Settled r.Done
    (InvImage.wf (fun w : World => r.measure w.pods) wellFounded_lt) hstart hdown
  obtain ⟨ht,ho,he⟩ := Numbers.complete hd.total hd.need
  rw [r.numbers_total] at ht
  refine ⟨n,hn.idle_of_done hd,ht,ho,fun hg hdiff => he ?_⟩
  simp [Rollout.rollback,rollbackAllowed,hg,hdiff]

structure Rollout.Within (r : Rollout) (before after : Int) : Prop where
  least : min before r.cs.replicas≤after
  most : after ≤ max before (r.cs.replicas+r.limits.maxSurge)

theorem Rollout.within_of_step (h : r.Steps pods pods') :
    r.Within (r.numbers pods).total (r.numbers pods').total := by
  have hs:=(Numbers.surge_bounds r.rollback r.limits (r.numbers pods)).1
  have hle : (r.numbers pods).surge r.rollback r.limits≤r.limits.maxSurge := min_le_left _ _
  have hr : r.limits.replicas=r.cs.replicas := rfl
  unfold Rollout.Steps at h
  generalize r.numbers pods'=y at h
  constructor <;> cases h <;> simp only [Numbers.total,Numbers.expected] at * <;> omega

theorem Rollout.Settled.round (hw : r.Settled w) (h : r.Round w w') :
    r.Settled w' ∧ r.Within w.pods.length w'.pods.length := by
  obtain ⟨apis,ha,hbec⟩ := h
  have hk : r.Kept (r.reconcile apis w) ∧
      r.Within (r.numbers w.pods).total (r.numbers (r.reconcile apis w)).total := by
    obtain ⟨hk,hstep | ⟨hn,-⟩⟩ := hw.reconcile_cases ha
    · exact ⟨hk,r.within_of_step hstep⟩
    · exact ⟨hk,by rw [hn]; omega,by rw [hn]; omega⟩
  rw [r.numbers_total,r.numbers_total,hbec.length_eq] at hk
  exact ⟨r.becomes_settled hk.1 hbec,hk.2⟩

/-- In every state of a rollout there are at least `replicas` pods or as many as at the start, and at
most `maxSurge` more than `replicas` or as many as at the start. -/
theorem rollout_stays_within (r : Rollout) (run : Nat → World) (hstart : r.Settled (run 0))
    (hround : ∀ n,r.Round (run n) (run (n+1))) (n : Nat) :
    min ((run 0).pods.length : Int) r.cs.replicas≤(run n).pods.length ∧
      ((run n).pods.length : Int) ≤ max ((run 0).pods.length : Int)
        (r.cs.replicas+(limits r.env r.cs).maxSurge) := by
  have hi : r.Settled (run n) ∧ r.Within (run 0).pods.length (run n).pods.length := by
    induction n with
    | zero => exact ⟨hstart,by omega,by omega⟩
    | succ n ih =>
      obtain ⟨hw,hl⟩ := ih.1.round (hround n)
      have h0:=ih.2
      exact ⟨hw,le_trans (le_min h0.least (min_le_right _ _)) hl.least,
        le_trans hl.most (max_le h0.most (le_max_right _ _))⟩
  exact ⟨hi.2.least,hi.2.most⟩

def surgeSpec : CloneSetSpec :=
  {plainSpec 2 with
    maxUnavailable := some (.int 0)
    maxSurge := some (.int 1)}

def twoPods : Rollout :=
  { env := quietEnv
    currentCS := surgeSpec
    cs := surgeSpec
    currentRevision := "web-1"
    updateRevision := "web-2"
    sameName := rfl
    replicas_nonneg := by decide
    maxSurge_nonneg := by decide
    maxUnavailable_nonneg := by decide
    budget_pos := by decide
    notPaused := rfl
    noHooks := rfl
    noScaleLimit := rfl
    inPlace := by decide
    wellNamed := by decide}

/- `web-c` is created, `web-a` updated in place, and `web-b` deleted. -/
def twoPodsStates : Nat → List (String × String)
  | 0 => [("web-a", "web-1"),("web-b", "web-1")]
  | 1 => [("web-a", "web-1"),("web-b", "web-1"),("web-c", "web-2")]
  | 2 => [("web-a", "web-2"),("web-b", "web-1"),("web-c", "web-2")]
  | _+3 => [("web-a", "web-2"),("web-c", "web-2")]

def twoPodsRun (n : Nat) : World := ⟨1,(twoPodsStates n).map fun p => readyPod p.1 p.2⟩

def twoPodsApis : Apis :=
  { scale := {acceptingApi with
      newIDs := fun n pods =>
        if n=0 then [] else [if "web-c"∈pods.map (·.name) then "d" else "c"]}
    update :=
      { lifecycle := ⟨fun _ _ => true,fun _ _ => true⟩
        refreshOk := fun _ => true
        updateCompleted := fun _ => true
        patchTemplateHashOk := fun _ => true
        patchSpecifiedDeleteOk := fun _ => true
        canUpdateInPlace := fun _ => true
        inPlaceUpdate := fun _ => .updated
        pubAllows := fun _ => some true}
    sorters := ⟨⟨fun _ l => l,fun _ l => Perm.refl l⟩,none,none⟩}

theorem twoPods_accepting {w : World} (h : "web-d"∉w.pods.map (·.name)) : twoPods.Accepting w twoPodsApis := by
  refine ⟨⟨fun _ => rfl,fun _ => rfl,fun _ => rfl⟩,?_,?_,?_,?_,fun _ => rfl,fun _ => rfl,
    fun _ => rfl,fun _ => rfl,fun _ => rfl⟩
  · intro n hn
    simp [twoPodsApis,Nat.pos_iff_ne_zero.mp hn]
  · intro n
    by_cases hn : n=0 <;> simp [twoPodsApis,hn]
    omega
  · intro n
    by_cases hn : n=0 <;> simp [twoPodsApis,hn]
  · intro n id hid
    refine ⟨?_,not_mem_nil⟩
    by_cases hn : n=0
    · simp [twoPodsApis,hn] at hid
    · have hid' : id=if "web-c"∈w.pods.map (·.name) then "d" else "c" := by
        simpa [twoPodsApis,hn] using hid
      rw [hid']
      split_ifs with hc
      · exact h
      · exact hc

theorem twoPods_becomes {p : Pod} {revision : String} (hr : p.revisionHash=revision)
    (hspec : p.specifiedDelete=false) (hl : p.templateHash) : twoPods.Becomes 1 p (readyPod p.name revision) :=
  ⟨rfl,hr.symm,hspec.symm,hl.symm,rfl,rfl⟩

theorem twoPodsRun_rounds : ∀ n,twoPods.Round (twoPodsRun n) (twoPodsRun (n+1))
  | 0 | 1 => ⟨twoPodsApis,twoPods_accepting (by decide),.cons (twoPods_becomes rfl rfl rfl)
      (.cons (twoPods_becomes rfl rfl rfl) (.cons (twoPods_becomes rfl rfl rfl) .nil))⟩
  | 2 => ⟨twoPodsApis,twoPods_accepting (by decide),
      .cons (twoPods_becomes rfl rfl rfl) (.cons (twoPods_becomes rfl rfl rfl) .nil)⟩
  | _+3 => ⟨twoPodsApis,twoPods_accepting (w := twoPodsRun 3) (by decide),
      .cons (twoPods_becomes rfl rfl rfl) (.cons (twoPods_becomes rfl rfl rfl) .nil)⟩

theorem twoPodsRun_settled : twoPods.Settled (twoPodsRun 0) :=
  ⟨by decide,by decide,by decide,by decide⟩

theorem twoPodsRun_converges :
    twoPods.Settled (twoPodsRun 0) ∧ (∀ n,twoPods.Round (twoPodsRun n) (twoPodsRun (n+1))) ∧
      ∃ n,twoPods.Idle (twoPodsRun n) ∧ ((twoPodsRun n).pods.length : Int)=2 := by
  obtain ⟨n,hi,hl,_⟩ :=
    rollout_converges twoPods twoPodsRun twoPodsRun_settled twoPodsRun_rounds
  exact ⟨twoPodsRun_settled,twoPodsRun_rounds,n,hi,hl⟩

theorem twoPodsRun_stays_within : 2≤((twoPodsRun 2).pods.length : Int) ∧
    ((twoPodsRun 2).pods.length : Int) ≤ max 2 (2+(limits quietEnv surgeSpec).maxSurge) :=
  rollout_stays_within twoPods twoPodsRun twoPodsRun_settled twoPodsRun_rounds 2

end Kruise.CloneSet
