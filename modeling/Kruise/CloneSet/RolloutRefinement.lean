import Kruise.CloneSet.RolloutPods

/-!
# The iteration refines the machine on numbers

The numbers that `calculateDiffsWithExpectation` computes for settled pods are those of the
machine, and what `Scale` and `Update` do to the pods is one of its steps.
-/

namespace Kruise.CloneSet

open Util.IntStr
open Lib.Budget

def settledCounts (x : Numbers) : Counts := ⟨x.old,x.new,x.old,0,0,0,0,0,0⟩

theorem updateSurge_of_pos_neg (a b : Int) (ha : 0<a) (hb : b<0) : updateSurge a b=(min a (-b),0) := by
  unfold updateSurge
  rw [if_pos ((isIntPlusAndMinus_iff a b).mpr (.inr ⟨ha,hb⟩))]
  unfold intAbs
  split_ifs <;> simp only [Prod.mk.injEq,and_true] <;> omega

theorem updateSurge_of_neg_pos (a b : Int) (ha : a<0) (hb : 0<b) : updateSurge a b=(min (-a) b,min (-a) b) := by
  unfold updateSurge
  rw [if_pos ((isIntPlusAndMinus_iff a b).mpr (.inl ⟨ha,hb⟩))]
  unfold intAbs
  split_ifs <;> simp only [Prod.mk.injEq] <;> omega

section

variable (rollback exclude : Bool) (l : RolloutLimits) (x : Numbers)

theorem updateOldDiff_of_pos (h : 0<x.oldExcess l ∨ rollback) :
    updateOldDiff rollback l.toLimits (settledCounts x)=x.oldExcess l := by
  simp only [Numbers.oldExcess] at h
  simp only [updateOldDiff,settledCounts,Numbers.oldExcess]
  cases rollback with
  | true => rfl
  | false =>
    simp only [Bool.false_eq_true,if_false,or_false] at h ⊢
    omega

theorem updateNewDiff_of_neg (h : x.newExcess l<0 ∨ rollback) :
    updateNewDiff rollback l.toLimits (settledCounts x)=x.newExcess l := by
  simp only [Numbers.newExcess] at h
  simp only [updateNewDiff,settledCounts,Numbers.newExcess]
  cases rollback with
  | true => rfl
  | false =>
    simp only [Bool.false_eq_true,if_false,or_false] at h ⊢
    omega

/- Neither difference asks for a change: without rollback one of them is cut to zero,
with rollback they do not have opposite signs. -/
theorem diffs_of_neither (hf : ¬x.forward l) (hb : ¬x.backward rollback l) :
    let oldDiff:=updateOldDiff rollback l.toLimits (settledCounts x)
    let newDiff:=updateNewDiff rollback l.toLimits (settledCounts x)
    ¬(oldDiff<0 ∧ 0<newDiff ∨ 0<oldDiff ∧ newDiff<0) := by
  simp only [Numbers.forward,Numbers.backward,Numbers.oldExcess,Numbers.newExcess] at hf hb
  simp only [updateOldDiff,updateNewDiff,settledCounts]
  cases rollback with
  | true =>
    simp only [if_true,true_and] at hb ⊢
    omega
  | false =>
    simp only [Bool.false_eq_true,if_false]
    omega

theorem updateSurge_settled :
    updateSurge (updateOldDiff rollback l.toLimits (settledCounts x))
        (updateNewDiff rollback l.toLimits (settledCounts x)) =
      (x.need rollback l,if x.backward rollback l then x.need rollback l else 0) := by
  by_cases hf : x.forward l
  · have hb : ¬x.backward rollback l := fun hb => Numbers.not_forward_of_backward hb hf
    rw [Numbers.need_of_forward rollback hf,if_neg hb,
      updateOldDiff_of_pos rollback l x (.inl hf.1),updateNewDiff_of_neg rollback l x (.inl hf.2),
      updateSurge_of_pos_neg _ _ hf.1 hf.2]
  by_cases hb : x.backward rollback l
  · rw [Numbers.need_of_backward hb,if_pos hb,updateOldDiff_of_pos rollback l x (.inr hb.1),
      updateNewDiff_of_neg rollback l x (.inr hb.1),updateSurge_of_neg_pos _ _ hb.2.1 hb.2.2]
  · rw [Numbers.need_of_neither hf hb,if_neg hb]
    exact if_neg ((isIntPlusAndMinus_iff _ _).not.mpr (diffs_of_neither rollback l x hf hb))

theorem useSurge_settled :
    useSurge rollback l.toLimits (settledCounts x) = (x.surge rollback l,x.oldSurge rollback l) := by
  have hs:=l.maxSurge_nonneg
  have hn : 0≤x.need rollback l := Numbers.need_nonneg
  have hsc : scaleSurge l.toLimits (settledCounts x)=(0,0) := rfl
  have hcho : (if (0 : Int) ≥ x.need rollback l then ((0 : Int),(0 : Int))
      else (x.need rollback l,if x.backward rollback l then x.need rollback l else 0)) =
      (x.need rollback l,if x.backward rollback l then x.need rollback l else 0) := by
    split_ifs <;> simp only [Prod.mk.injEq,and_true] <;> omega
  unfold useSurge
  simp only [hsc,updateSurge_settled,hcho]
  unfold Numbers.oldSurge Numbers.surge
  apply Prod.ext <;> split_ifs <;> dsimp only <;> omega

theorem updateNum_settled (ht : x.total=x.expected rollback l) :
    updateNum (updateOldDiff rollback l.toLimits (settledCounts x))
        (updateNewDiff rollback l.toLimits (settledCounts x)) =
      if x.backward rollback l then -x.need rollback l else x.need rollback l := by
  have hsur:=Numbers.surge_bounds rollback l x
  simp only [Numbers.expected,Numbers.total] at ht
  by_cases hf : x.forward l
  · have hb : ¬x.backward rollback l := fun hb => Numbers.not_forward_of_backward hb hf
    have h1:=hf.1
    have h2:=hf.2
    rw [Numbers.need_of_forward rollback hf,if_neg hb,updateOldDiff_of_pos rollback l x (.inl h1),
      updateNewDiff_of_neg rollback l x (.inl h2)]
    unfold updateNum intAbs
    split_ifs <;> omega
  by_cases hb : x.backward rollback l
  · have h1:=hb.2.1
    have h2:=hb.2.2
    rw [Numbers.need_of_backward hb,if_pos hb,updateOldDiff_of_pos rollback l x (.inr hb.1),
      updateNewDiff_of_neg rollback l x (.inr hb.1)]
    unfold updateNum intAbs
    split_ifs <;> omega
  · -- with the total as expected the differences cannot have the same sign either
    have hz:=Numbers.need_of_neither hf hb
    simp only [Numbers.forward,Numbers.backward,Numbers.oldExcess,Numbers.newExcess] at hf hb
    simp only [updateNum,updateOldDiff,updateNewDiff,settledCounts,intAbs]
    cases rollback with
    | true =>
      simp only [if_true,true_and] at hb ⊢
      split_ifs <;> omega
    | false =>
      simp only [Bool.false_eq_true,if_false]
      split_ifs <;> omega

def settledDiffs : ExpectationDiffs :=
  diffsOfCounts rollback exclude l.toLimits (settledCounts x) x.total

theorem settledDiffs_scaleUpNum :
    (settledDiffs rollback exclude l x).scaleUpNum=max (x.expected rollback l-x.total) 0 := by
  simp only [settledDiffs,diffsOfCounts,useSurge_settled]
  simp only [settledCounts,Numbers.expected]
  split_ifs <;> omega

theorem settledDiffs_scaleUp (h : x.total<x.expected rollback l) :
    (settledDiffs rollback exclude l x).scaleUpNumOldRevision = max (x.expectedOld rollback l-x.old) 0 ∧
      (settledDiffs rollback exclude l x).scaleUpLimit =
        min (x.expected rollback l-x.total) (max l.scaleMaxUnavailable 0) := by
  simp only [settledDiffs,diffsOfCounts,useSurge_settled]
  simp only [settledCounts,Numbers.expected,Numbers.expectedOld,Counts.totalUnavailable] at *
  constructor <;> split_ifs <;> omega

theorem settledDiffs_scaleDownNum :
    (settledDiffs rollback exclude l x).scaleDownNum=max (x.total-x.expected rollback l) 0 := by
  simp only [settledDiffs,diffsOfCounts,useSurge_settled]
  simp only [settledCounts,Numbers.expected]
  split_ifs <;> omega

theorem settledDiffs_scaleDown (h : x.expected rollback l<x.total) :
    (settledDiffs rollback exclude l x).scaleDownNumOldRevision = max (x.old-x.expectedOld rollback l) 0 ∧
      x.total-x.expected rollback l≤(settledDiffs rollback exclude l x).deleteReadyLimit := by
  have hsur:=Numbers.surge_bounds rollback l x
  have hmu:=l.maxUnavailable_nonneg
  simp only [settledDiffs,diffsOfCounts,useSurge_settled]
  simp only [settledCounts,Numbers.expected,Numbers.expectedOld,Counts.totalUnavailable] at *
  constructor <;> split_ifs <;> omega

theorem settledDiffs_update (ht : x.total=x.expected rollback l) :
    (settledDiffs rollback exclude l x).updateNum =
        (if x.backward rollback l then -x.need rollback l else x.need rollback l) ∧
      ((settledDiffs rollback exclude l x).updateNum≠0 →
        1≤(settledDiffs rollback exclude l x).updateMaxUnavailable) := by
  have hnum:=updateNum_settled rollback l x ht
  have hn : 0≤x.need rollback l := Numbers.need_nonneg
  have hpos:=l.budget_pos
  have hmu:=l.maxUnavailable_nonneg
  have hsur : x.surge rollback l=min l.maxSurge (x.need rollback l) := rfl
  refine ⟨hnum,?_⟩
  intro hne
  have hm : (settledDiffs rollback exclude l x).updateMaxUnavailable =
      l.maxUnavailable+x.total-l.replicas := if_pos hne
  have hne' : x.need rollback l≠0 := by
    intro hz
    apply hne
    have : (settledDiffs rollback exclude l x).updateNum=_ := hnum
    rw [this,hz]
    simp
  rw [hm,ht]
  simp only [Numbers.expected]
  omega

end

end Kruise.CloneSet
