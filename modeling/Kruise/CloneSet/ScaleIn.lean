import Kruise.CloneSet.Quiescence
import Kruise.CloneSet.ScaleBudget

/-!
# The pods that scaling in deletes

`choosePodsToDelete` (`cloneset_scale.go:371-407`) once no deletion is planned any more. The
numbers and the two lists both tell revisions apart by `IsPodUpdate`, so there are always as many
pods as a number asks for.
-/

namespace Kruise.CloneSet

open Util.IntStr Lib.Counting List

variable (api : ScaleApi) (pods : List Pod)

theorem choose_zero : choose api pods 0=[] := by
  unfold choose
  split_ifs with h
  · rfl
  · exact length_eq_zero_iff.mp (by omega)

theorem choose_length (diff : Int) (h0 : 0≤diff) (hle : diff≤pods.length) :
    ((choose api pods diff).length : Int)=diff := by
  unfold choose
  split_ifs with hd
  · have hl:=(api.sort_perm pods).length_eq
    rw [length_take]
    omega
  · omega

theorem choose_perm (diff : Int) : ∃ rest,pods.Perm (choose api pods diff++rest) := by
  unfold choose
  split_ifs
  · refine ⟨(api.sort pods).drop diff.toNat,?_⟩
    rw [take_append_drop]
    exact (api.sort_perm pods).symm
  · exact ⟨[],by rw [append_nil]⟩

theorem mem_of_mem_choose {api : ScaleApi} {pods : List Pod} {diff : Int} {p : Pod}
    (hp : p∈choose api pods diff) : p∈pods := by
  obtain ⟨rest,hperm⟩ := choose_perm api pods diff
  exact hperm.mem_iff.mpr (mem_append_left rest hp)

/- The old part of the choice is capped by the total, the new part is the rest. -/
theorem choosePodsToDelete_eq (total current : Int) (old new : List Pod) (hc : 0≤current) :
    choosePodsToDelete api total current old new =
      choose api old (min total current)++choose api new (total-min total current) := by
  unfold choosePodsToDelete
  split_ifs with h1 h2
  · have hm : min total current=total := by omega
    rw [hm,Int.sub_self,choose_zero,append_nil]
  · have hm : min total current=current := by omega
    rw [hm]
  · have hm : min total current=0 := by omega
    rw [hm,choose_zero,nil_append,Int.sub_zero]

theorem choose_append_perm (isNew : Pod → Bool) (pods : List Pod) (fromOld fromNew : Int) :
    ∃ rest,pods.Perm (choose api (pods.filter fun p => !isNew p) fromOld ++
      choose api (pods.filter isNew) fromNew++rest) := by
  obtain ⟨restOld,ho⟩ := choose_perm api (pods.filter fun p => !isNew p) fromOld
  obtain ⟨restNew,hn⟩ := choose_perm api (pods.filter isNew) fromNew
  refine ⟨restOld++restNew,?_⟩
  have ha : pods.Perm ((pods.filter fun p => !isNew p)++pods.filter isNew) :=
    ((perm_append_comm).trans (filter_append_perm isNew pods)).symm
  refine ha.trans ((ho.append hn).trans ?_)
  simp only [append_assoc]
  refine Perm.append_left _ ?_
  rw [← append_assoc,← append_assoc]
  exact Perm.append_right _ perm_append_comm

theorem countP_choose_filter (f : Pod → Bool) (pods : List Pod) (diff : Int) :
    (choose api (pods.filter f) diff).countP f=(choose api (pods.filter f) diff).length := by
  rw [countP_eq_length]
  intro p hp
  exact (mem_filter.mp (mem_of_mem_choose hp)).2

theorem countP_choose_filter_not {f g : Pod → Bool} (h : ∀ p,f p → g p=false)
    (pods : List Pod) (diff : Int) : (choose api (pods.filter f) diff).countP g=0 := by
  rw [countP_eq_zero]
  intro p hp
  simp [h p (mem_filter.mp (mem_of_mem_choose hp)).2]

theorem countP_rest (isNew : Pod → Bool) {pods rest : List Pod} {fromOld fromNew : Int}
    (hr : pods.Perm (choose api (pods.filter fun p => !isNew p) fromOld ++
      choose api (pods.filter isNew) fromNew++rest)) :
    (choose api (pods.filter fun p => !isNew p) fromOld).length +
          rest.countP (fun p => !isNew p)=(pods.filter fun p => !isNew p).length ∧
      (choose api (pods.filter isNew) fromNew).length+rest.countP isNew = (pods.filter isNew).length := by
  have ho:=hr.countP_eq fun p => !isNew p
  have hn:=hr.countP_eq isNew
  rw [countP_append,countP_append,countP_eq_length_filter] at ho hn
  rw [countP_choose_filter,countP_choose_filter_not api (fun p hp => by simp [hp])] at ho
  rw [countP_choose_filter,countP_choose_filter_not api (fun p hp => by simpa using hp)] at hn
  omega

structure ChooseCall where
  pods : List Pod
  diff : Int

def chooseCalls (totalDiff currentRevDiff : Int) (notUpdatedPods updatedPods : List Pod) : List ChooseCall :=
  if currentRevDiff ≥ totalDiff then [⟨notUpdatedPods,totalDiff⟩]
  else if currentRevDiff > 0 then
    [⟨notUpdatedPods,currentRevDiff⟩,⟨updatedPods,totalDiff-currentRevDiff⟩]
  else [⟨updatedPods,totalDiff⟩]

/- `Diff > len(pods)`, the branch that only warns. -/
def ChooseCall.tooFew (call : ChooseCall) : Prop := call.diff > call.pods.length

theorem not_tooFew_of_bounds {total current : Int} {old new : List Pod} (hc : 0≤current)
    (ho : min total current≤old.length) (hn : total-min total current≤new.length) :
    ∀ call∈chooseCalls total current old new,¬call.tooFew := by
  unfold chooseCalls ChooseCall.tooFew
  intro call hcall
  split_ifs at hcall with ha hsome
  · obtain rfl := mem_singleton.mp hcall
    dsimp only
    omega
  · rcases mem_cons.mp hcall with rfl | hcall
    · dsimp only
      omega
    · obtain rfl := mem_singleton.mp hcall
      dsimp only
      omega
  · obtain rfl := mem_singleton.mp hcall
    dsimp only
    omega

theorem scaleSurge_nonneg (l : Limits) (c : Counts) : 0≤(scaleSurge l c).1 ∧ 0≤(scaleSurge l c).2 := by
  unfold scaleSurge
  split_ifs <;> dsimp only <;> omega

theorem updateSurge_nonneg (oldDiff newDiff : Int) :
    0≤(updateSurge oldDiff newDiff).1 ∧ 0≤(updateSurge oldDiff newDiff).2 := by
  unfold updateSurge intAbs
  split_ifs <;> dsimp only <;> omega

theorem useSurge_bounds (rollback : Bool) (l : Limits) (c : Counts) :
    0≤(useSurge rollback l c).2 ∧ (useSurge rollback l c).2≤(useSurge rollback l c).1 := by
  have hsc:=scaleSurge_nonneg l c
  have hu:=updateSurge_nonneg (updateOldDiff rollback l c) (updateNewDiff rollback l c)
  unfold useSurge
  split_ifs with hm
  · dsimp only
    split_ifs <;> omega
  · exact ⟨le_rfl,le_rfl⟩

structure ScaleInNumbers (l : Limits) (d : ExpectationDiffs) (old new : Int) : Prop where
  surge : 0≤d.useSurgeOldRevision ∧ d.useSurgeOldRevision≤d.useSurge
  total : d.scaleDownNum=max (old+new-(l.replicas+d.useSurge)) 0
  oldRevision : 0<d.scaleDownNum →
    d.scaleDownNumOldRevision=max (old-(l.partition+d.useSurgeOldRevision)) 0
  idle : d.scaleDownNum=0 → d.scaleDownNumOldRevision=0

theorem scaleInNumbers_of_plainCounts (rollback exclude : Bool) (l : Limits) {c : Counts}
    {old new : Int} (h : PlainCounts c old new) :
    ScaleInNumbers l (diffsOfCounts rollback exclude l c (old+new)) old new := by
  have hsur:=useSurge_bounds rollback l c
  constructor
  · exact hsur
  · simp only [diffsOfCounts,h.preDeleting,h.toDelete]
    cases exclude <;> simp only [Bool.false_eq_true,if_true,if_false] <;> split_ifs <;> omega
  · simp only [diffsOfCounts,h.preDeleting,h.toDelete,h.oldRevision]
    cases exclude <;> simp only [Bool.false_eq_true,if_true,if_false] <;> split_ifs <;> omega
  · simp only [diffsOfCounts]
    split_ifs <;> omega

theorem ScaleInNumbers.bounds {l : Limits} {d : ExpectationDiffs} {old new : Int}
    (h : ScaleInNumbers l d old new) (hold : 0≤old) (hn : 0≤new)
    (hpart : 0≤l.partition ∧ l.partition≤l.replicas) :
    let fromOld:=min d.scaleDownNum d.scaleDownNumOldRevision
    let fromNew:=d.scaleDownNum-fromOld
    0≤d.scaleDownNumOldRevision ∧ 0≤fromOld ∧ 0≤fromNew ∧
      fromOld ≤ max (old-(l.partition+d.useSurgeOldRevision)) 0 ∧ fromOld≤old ∧
      fromNew ≤ max (new-(l.replicas-l.partition+d.useSurge-d.useSurgeOldRevision)) 0 ∧
      fromNew≤new := by
  have hsur:=h.surge
  have ht:=h.total
  rcases (by omega : d.scaleDownNum=0 ∨ 0<d.scaleDownNum) with hz | hpos
  · have hi:=h.idle hz
    omega
  · have ho:=h.oldRevision hpos
    omega

theorem ScaleInNumbers.chosen {l : Limits} {d : ExpectationDiffs} (api : ScaleApi)
    (isNew : Pod → Bool) (pods : List Pod)
    (h : ScaleInNumbers l d (pods.filter fun p => !isNew p).length (pods.filter isNew).length)
    (hpart : 0≤l.partition ∧ l.partition≤l.replicas) :
    let old:=pods.filter fun p => !isNew p
    let new:=pods.filter isNew
    let chosen:=choosePodsToDelete api d.scaleDownNum d.scaleDownNumOldRevision old new
    (∀ call∈chooseCalls d.scaleDownNum d.scaleDownNumOldRevision old new,¬call.tooFew) ∧
      (chosen.length : Int)=d.scaleDownNum ∧
      (∃ rest,pods.Perm (chosen++rest)) ∧
      ∀ rest,pods.Perm (chosen++rest) → min (old.length : Int) (l.partition+d.useSurgeOldRevision) ≤
            rest.countP (fun p => !isNew p) ∧
          min (new.length : Int) (l.replicas-l.partition+d.useSurge-d.useSurgeOldRevision) ≤ rest.countP isNew := by
  dsimp only
  obtain ⟨hc,hold0,hnew0,holdShare,ho,hnewShare,hn⟩ :=
    h.bounds (Int.natCast_nonneg _) (Int.natCast_nonneg _) hpart
  have holdLength:=choose_length api _ _ hold0 ho
  have hnewLength:=choose_length api _ _ hnew0 hn
  rw [choosePodsToDelete_eq api _ _ _ _ hc]
  refine ⟨not_tooFew_of_bounds hc ho hn,?_,choose_append_perm api isNew pods _ _,?_⟩
  · rw [length_append]
    omega
  · intro rest hr
    obtain ⟨hold,hnew⟩ := countP_rest api isNew hr
    omega

section

variable (env : Env) (api : ScaleApi) (now : Int) (cs : CloneSetSpec)
variable (currentRevision updateRevision : String) (pods : List Pod)

theorem scaleInNumbers (h : NoDeletion cs pods) :
    ScaleInNumbers (limits env cs) (scaleDiffs env now cs currentRevision updateRevision pods)
      (notUpdatedPods env updateRevision pods).length
      (updatedPods env updateRevision pods).length := by
  have hn:=scaleInNumbers_of_plainCounts (rollbackAllowed env currentRevision updateRevision)
    (shouldScalingExcludePreparingDelete env cs) (limits env cs)
    (h.plainCounts now (isPodUpdate env · updateRevision))
  rw [← length_eq_old_add_new,← countPods_eq,countP_eq_length_filter,countP_eq_length_filter] at hn
  exact hn

theorem numToDelete_eq_zero_iff : numToDelete cs pods=0 ↔ NoDeletion cs pods := by
  unfold numToDelete
  rw [Int.natCast_eq_zero,length_eq_zero_iff,dedup_eq_nil,map_eq_nil_iff,filter_eq_nil_iff]
  constructor
  · intro h
    constructor
    · intro p hp
      have hp:=h p hp
      simp only [Bool.or_eq_true,not_or,Bool.not_eq_true] at hp
      exact hp.1
    · intro p hp
      have hp:=h p hp
      simp only [Bool.or_eq_true,not_or,Bool.not_eq_true] at hp
      simpa using hp.2
  · intro h p hp
    simp [h.unmarked p hp,h.active p hp]

/-- Scaling in deletes exactly the pods it has planned and leaves each revision its share. The
webhook refuses negative replicas (`validation.go:40`). -/
theorem scaleIn_takes_planned (hreplicas : 0≤cs.replicas) (hplans : numToDelete cs pods=0) :
    let d:=scaleDiffs env now cs currentRevision updateRevision pods
    let l:=limits env cs
    let old:=notUpdatedPods env updateRevision pods
    let new:=updatedPods env updateRevision pods
    let chosen:=choosePodsToDelete api d.scaleDownNum d.scaleDownNumOldRevision old new
    (∀ call∈chooseCalls d.scaleDownNum d.scaleDownNumOldRevision old new,¬call.tooFew) ∧
      (chosen.length : Int)=d.scaleDownNum ∧
      ((pods.map (·.name)).Nodup → (chosen.map (·.name)).Nodup) ∧
      (∃ rest,pods.Perm (chosen++rest)) ∧
      ∀ rest,pods.Perm (chosen++rest) → min (old.length : Int) (l.partition+d.useSurgeOldRevision) ≤
            rest.countP (fun p => !isPodUpdate env p updateRevision) ∧
          min (new.length : Int) (l.replicas-l.partition+d.useSurge-d.useSurgeOldRevision) ≤
            rest.countP (isPodUpdate env · updateRevision) := by
  have h:=(numToDelete_eq_zero_iff cs pods).mp hplans
  obtain ⟨hcalls,hl,⟨rest,hr⟩,hshs⟩ :=
    (scaleInNumbers env now cs currentRevision updateRevision pods h).chosen api
      (isPodUpdate env · updateRevision) pods (limits_partition_bounds env cs hreplicas)
  refine ⟨hcalls,hl,?_,⟨rest,hr⟩,hshs⟩
  intro hn
  have ha:=(hr.map (·.name)).nodup_iff.mp hn
  rw [map_append] at ha
  exact ha.of_append_left

theorem scaleIn_takes_two_old :
    let cs:={plainSpec 2 with partition := some (.int 1)}
    let pods:=[readyPod "web-a" "web-1",readyPod "web-b" "web-1",readyPod "web-c" "web-1", readyPod "web-d" "web-2"]
    let d:=scaleDiffs quietEnv 0 cs "web-1" "web-2" pods
    let chosen:=choosePodsToDelete acceptingApi d.scaleDownNum d.scaleDownNumOldRevision
      (notUpdatedPods quietEnv "web-2" pods) (updatedPods quietEnv "web-2" pods)
    d.scaleDownNum=2 ∧ (chosen.length : Int)=2 ∧ (chosen.map (·.name)).Nodup := by
  intro cs pods d chosen
  have hn : d.scaleDownNum=2 := by decide
  obtain ⟨_,hl,hnms,_⟩ := scaleIn_takes_planned quietEnv acceptingApi 0 cs "web-1"
    "web-2" pods (by decide) (by decide)
  exact ⟨hn,hl.trans hn,hnms (by decide)⟩

end

end Kruise.CloneSet
