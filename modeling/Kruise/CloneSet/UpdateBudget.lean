import Kruise.CloneSet.Update

/-!
# Pods that one call of `Update` picks

The loop of `limitUpdateIndexes` holds two budgets at once: unavailable pods of all revisions, and
of the target revision.
-/

namespace Kruise.CloneSet

open Util.IntStr List

/-- From `unavailable` and `canUpdateCount` on, the loop lets `k` indexes through
and neither budget is exceeded by them. -/
theorem limitLoop_spec (available : Nat → Bool) (maxUnavailable target unavailable : Int)
    (canUpdateCount : Int) (indexes : List Nat) :
    ∃ k : Nat,limitLoop available maxUnavailable target unavailable canUpdateCount indexes =
        canUpdateCount+k ∧ k ≤ indexes.length ∧
      unavailable+((indexes.take k).countP available : Int) ≤ max unavailable maxUnavailable ∧
      target+canUpdateCount+k ≤ max (target+canUpdateCount) maxUnavailable := by
  induction indexes generalizing unavailable canUpdateCount with
  | nil => exact ⟨0,by simp [limitLoop],by simp,by simp,by simp⟩
  | cons i indexes ih =>
    have hstop : ∃ k : Nat,canUpdateCount=canUpdateCount+(k : Int) ∧ k≤(i::indexes).length ∧
        unavailable+(((i::indexes).take k).countP available : Int) ≤ max unavailable maxUnavailable ∧
        target+canUpdateCount+k ≤ max (target+canUpdateCount) maxUnavailable :=
      ⟨0,by simp,by simp,by simp,by simp⟩
    unfold limitLoop
    by_cases ht : target+canUpdateCount ≥ maxUnavailable
    · rw [if_pos ht]
      exact hstop
    rw [if_neg ht]
    by_cases hav : available i
    · rw [if_pos hav]
      by_cases hun : unavailable ≥ maxUnavailable
      · rw [if_pos hun]
        exact hstop
      -- the available pod takes a unit of both budgets
      obtain ⟨k,heq,hl,ha,htgt⟩ := ih (unavailable+1) (canUpdateCount+1)
      refine ⟨k+1,by push_cast; omega,by simpa using hl,?_,by push_cast; omega⟩
      rw [take_succ_cons,countP_cons_of_pos hav]
      omega
    · rw [if_neg hav]
      obtain ⟨k,heq,hl,ha,htgt⟩ := ih unavailable (canUpdateCount+1)
      refine ⟨k+1,by push_cast; omega,by simpa using hl,?_,by push_cast; omega⟩
      rw [take_succ_cons,countP_cons_of_neg hav]
      exact ha

theorem limitUpdateIndexes_spec (now minReadySeconds : Int) (diffs : ExpectationDiffs)
    (indexes : List Nat) (pods : List Pod) (targetRevision : String) :
    let available:=podAt pods fun p => isPodAvailable now p minReadySeconds
    let unavailable : Int := pods.countP fun p => !isPodAvailable now p minReadySeconds
    let target : Int := pods.countP fun p =>
      !isPodAvailable now p minReadySeconds&&equalToRevisionHash p targetRevision
    let limited:=limitUpdateIndexes now minReadySeconds diffs indexes pods targetRevision
    unavailable+(limited.countP available : Int) ≤ max unavailable diffs.updateMaxUnavailable ∧
      target+limited.length ≤ max target diffs.updateMaxUnavailable := by
  intro available unavailable target limited
  obtain ⟨k,heq,hlen,ha,ht⟩ := limitLoop_spec available diffs.updateMaxUnavailable target
    unavailable 0 (indexes.take (intAbs diffs.updateNum).toNat)
  have hl : limited=(indexes.take (intAbs diffs.updateNum).toNat).take k := by
    have hk : (0+(k : Int)).toNat=k := by omega
    rw [← hk,← heq]
    rfl
  rw [hl]
  rw [length_take]
  omega

theorem countP_selected (pods : List Pod) (f : Pod → Bool) (indexes : List Nat) :
    (indexes.filterMap (pods[·]?)).countP f=indexes.countP (podAt pods f) := by
  rw [countP_filterMap]
  apply countP_congr
  intro i _
  unfold podAt
  cases pods[i]? <;> simp

theorem updateMaxUnavailable_eq (env : Env) (now : Int) (cs : CloneSetSpec)
    (currentRevision updateRevision : String) (pods : List Pod)
    (h : (updateDiffs env now cs currentRevision updateRevision pods).updateNum≠0) :
    (updateDiffs env now cs currentRevision updateRevision pods).updateMaxUnavailable =
      (limits env cs).maxUnavailable+pods.length-cs.replicas :=
  if_pos h

/-- The pods that `Update` goes on to update hold at most the available pods that `maxUnavailable`
still allows, and with the unavailable pods of the target revision they stay within the budget. -/
theorem update_keeps_maxUnavailable (env : Env) (sorters : UpdateSorters) (now : Int)
    (cs : CloneSetSpec) (currentRevision updateRevision : String) (pods : List Pod) :
    let selected:=selectedPods env sorters now cs currentRevision updateRevision pods
    let budget:=(limits env cs).maxUnavailable+pods.length-cs.replicas
    let unavailable : Int := pods.countP fun p => !isPodAvailable now p cs.minReadySeconds
    let targetUnavailable : Int := pods.countP fun p =>
      !isPodAvailable now p cs.minReadySeconds &&
        equalToRevisionHash p (targetRevision env now cs currentRevision updateRevision pods)
    (selected.countP (fun p => isPodAvailable now p cs.minReadySeconds) : Int) ≤ max 0 (budget-unavailable) ∧
      (selected.length : Int)+targetUnavailable ≤ max targetUnavailable budget := by
  intro selected budget unavailable targetUnavailable
  simp only [selected,selectedPods,countP_selected]
  by_cases hn : (updateDiffs env now cs currentRevision updateRevision pods).updateNum=0
  · have hnil : selectedIndexes env sorters now cs currentRevision updateRevision pods=[] :=
      if_pos hn
    rw [hnil]
    refine ⟨by simp,?_⟩
    simp only [filterMap_nil,length_nil]
    omega
  · have hm:=updateMaxUnavailable_eq env now cs currentRevision updateRevision pods hn
    have hsel : selectedIndexes env sorters now cs currentRevision updateRevision pods =
        limitUpdateIndexes now cs.minReadySeconds (updateDiffs env now cs currentRevision updateRevision pods)
          (sortUpdateIndexes sorters pods (waitUpdateIndexes
            (updateDiffs env now cs currentRevision updateRevision pods).updateNum updateRevision
            pods)) pods (targetRevision env now cs currentRevision updateRevision pods) :=
      if_neg hn
    obtain ⟨ha,ht⟩ := limitUpdateIndexes_spec now cs.minReadySeconds
      (updateDiffs env now cs currentRevision updateRevision pods)
      (sortUpdateIndexes sorters pods (waitUpdateIndexes
        (updateDiffs env now cs currentRevision updateRevision pods).updateNum updateRevision pods))
      pods (targetRevision env now cs currentRevision updateRevision pods)
    rw [hsel]
    have hl:=length_filterMap_le (pods[·]?) (limitUpdateIndexes now cs.minReadySeconds
      (updateDiffs env now cs currentRevision updateRevision pods)
      (sortUpdateIndexes sorters pods (waitUpdateIndexes
        (updateDiffs env now cs currentRevision updateRevision pods).updateNum updateRevision pods))
      pods (targetRevision env now cs currentRevision updateRevision pods))
    constructor <;> omega

end Kruise.CloneSet
