import Kruise.CloneSet.Diffs
import Mathlib.Data.Prod.Lex
import Mathlib.Order.WellFounded

/-!
# A rollout in numbers

With every pod available and none marked, `Scale` and `Update` only depend on how many old and new
pods there are. Every step of the machine on those two numbers brings them closer to `replicas`
pods of which `partition` are old.
-/

namespace Kruise.CloneSet

open Util.IntStr

structure RolloutLimits extends Limits where
  partition_nonneg : 0≤partition
  partition_le : partition≤replicas
  maxSurge_nonneg : 0 ≤ maxSurge
  maxUnavailable_nonneg : 0 ≤ maxUnavailable
  budget_pos : 1 ≤ maxSurge+maxUnavailable

structure Numbers where
  old : Int
  new : Int

def Numbers.total (x : Numbers) : Int := x.old+x.new

section

variable (rollback : Bool) (l : RolloutLimits)

def Numbers.oldExcess (x : Numbers) : Int := x.old-l.partition

def Numbers.newExcess (x : Numbers) : Int := x.new-(l.replicas-l.partition)

def Numbers.forward (x : Numbers) : Prop := 0<x.oldExcess l ∧ x.newExcess l<0
  deriving Decidable

def Numbers.backward (x : Numbers) : Prop :=
  rollback ∧ x.oldExcess l<0 ∧ 0<x.newExcess l
  deriving Decidable

def Numbers.need (x : Numbers) : Int :=
  if x.forward l then min (x.oldExcess l) (-x.newExcess l)
  else if x.backward rollback l then min (-x.oldExcess l) (x.newExcess l)
  else 0

def Numbers.surge (x : Numbers) : Int := min l.maxSurge (x.need rollback l)

def Numbers.oldSurge (x : Numbers) : Int :=
  if x.backward rollback l then x.surge rollback l else 0

def Numbers.expected (x : Numbers) : Int := l.replicas+x.surge rollback l

def Numbers.expectedOld (x : Numbers) : Int := l.partition+x.oldSurge rollback l

/-- New pods are created once the old ones are complete; without rollback their order does not
matter. -/
inductive Numbers.Step : Numbers → Numbers → Prop
  | create {x : Numbers} (old new : Int) (hold : 0≤old) (hnew : 0≤new)
      (hpos : 0<old+new) (htotal : x.total+old+new≤x.expected rollback l)
      (hshort : old ≤ max (x.expectedOld rollback l-x.old) 0)
      (horder : rollback → 0<new → x.expectedOld rollback l≤x.old+old) :
      Step x ⟨x.old+old,x.new+new⟩
  | remove {x : Numbers} (old : Int) (hpos : x.expected rollback l<x.total)
      (hold : old=min (x.total-x.expected rollback l)
        (max (x.old-x.expectedOld rollback l) 0)) :
      Step x ⟨x.old-old,x.new-(x.total-x.expected rollback l-old)⟩
  | update {x : Numbers} (k : Int) (hforward : x.forward l) (hpos : 1≤k)
      (hle : k≤x.need rollback l) : Step x ⟨x.old-k,x.new+k⟩
  | rollback {x : Numbers} (k : Int) (hbackward : x.backward rollback l) (hpos : 1≤k)
      (hle : k≤x.need rollback l) : Step x ⟨x.old+k,x.new-k⟩

def Numbers.distance (x : Numbers) : Nat := (x.total-x.expected rollback l).natAbs

variable {rollback : Bool} {l : RolloutLimits} {x : Numbers}

theorem Numbers.need_of_forward (rollback : Bool) (h : x.forward l) :
    x.need rollback l=min (x.oldExcess l) (-x.newExcess l) := if_pos h

theorem Numbers.not_forward_of_backward (h : x.backward rollback l) : ¬x.forward l := by
  intro hf
  have h1:=h.2.1
  have h2:=hf.1
  omega

theorem Numbers.need_of_backward (h : x.backward rollback l) :
    x.need rollback l=min (-x.oldExcess l) (x.newExcess l) := by
  rw [Numbers.need,if_neg (Numbers.not_forward_of_backward h),if_pos h]

theorem Numbers.need_of_neither (hf : ¬x.forward l) (hb : ¬x.backward rollback l) : x.need rollback l=0 := by
  rw [Numbers.need,if_neg hf,if_neg hb]

theorem Numbers.need_nonneg : 0≤x.need rollback l := by
  by_cases hf : x.forward l
  · have h1:=hf.1
    have h2:=hf.2
    rw [Numbers.need_of_forward rollback hf]
    omega
  by_cases hb : x.backward rollback l
  · have h1:=hb.2.1
    have h2:=hb.2.2
    rw [Numbers.need_of_backward hb]
    omega
  · rw [Numbers.need_of_neither hf hb]

theorem Numbers.oldSurge_of_not_backward (hb : ¬x.backward rollback l) : x.expectedOld rollback l=l.partition := by
  rw [Numbers.expectedOld,Numbers.oldSurge,if_neg hb,Int.add_zero]

theorem Numbers.expectedOld_of_backward (hb : x.backward rollback l) :
    x.expectedOld rollback l=l.partition+x.surge rollback l := by
  rw [Numbers.expectedOld,Numbers.oldSurge,if_pos hb]

theorem Numbers.surge_bounds (rollback : Bool) (l : RolloutLimits) (x : Numbers) :
    0≤x.surge rollback l ∧ x.surge rollback l≤x.need rollback l := by
  have hs:=l.maxSurge_nonneg
  have hn : 0≤x.need rollback l := Numbers.need_nonneg
  unfold Numbers.surge
  omega

theorem Numbers.oldSurge_bounds (rollback : Bool) (l : RolloutLimits) (x : Numbers) :
    0≤x.oldSurge rollback l ∧ x.oldSurge rollback l≤x.surge rollback l := by
  have hs:=Numbers.surge_bounds rollback l x
  unfold Numbers.oldSurge
  split_ifs <;> omega

theorem Numbers.remove_bounds (ho : 0≤x.old) (hn : 0≤x.new) (hpos : x.expected rollback l<x.total) :
    let old:=min (x.total-x.expected rollback l) (max (x.old-x.expectedOld rollback l) 0)
    0≤old ∧ old≤x.old ∧ 0≤x.total-x.expected rollback l-old ∧ x.total-x.expected rollback l-old≤x.new := by
  have hp:=l.partition_nonneg
  have hr:=l.partition_le
  have hs:=Numbers.oldSurge_bounds rollback l x
  simp only [Numbers.expected,Numbers.expectedOld,Numbers.total] at hpos ⊢
  omega

variable {y : Numbers}

theorem Numbers.need_le_of_forward (h : x.forward l) (ho : y.oldExcess l≤x.oldExcess l)
    (hpos : 0≤y.oldExcess l) (hn : x.newExcess l≤y.newExcess l) : y.need rollback l≤x.need rollback l := by
  have h2:=h.2
  rw [Numbers.need_of_forward rollback h]
  by_cases hf : y.forward l
  · rw [Numbers.need_of_forward rollback hf]
    omega
  · have hb : ¬y.backward rollback l := by
      intro hb
      have := hb.2.1
      omega
    rw [Numbers.need_of_neither hf hb]
    omega

theorem Numbers.need_le_of_backward (h : x.backward rollback l)
    (ho : x.oldExcess l≤y.oldExcess l) (hpos : 0≤y.newExcess l)
    (hn : y.oldExcess l<0 → y.newExcess l≤x.newExcess l) : y.need rollback l≤x.need rollback l := by
  have h1:=h.2.1
  have h2:=h.2.2
  rw [Numbers.need_of_backward h]
  by_cases hb : y.backward rollback l
  · rw [Numbers.need_of_backward hb]
    omega
  · have hf : ¬y.forward l := by
      intro hf
      have := hf.2
      omega
    rw [Numbers.need_of_neither hf hb]
    omega

theorem Numbers.create_need_le (old new : Int) (hold : 0≤old) (hn : 0≤new)
    (hshort : old ≤ max (x.expectedOld rollback l-x.old) 0)
    (horder : rollback → 0<new → x.expectedOld rollback l≤x.old+old) :
    Numbers.need rollback l ⟨x.old+old,x.new+new⟩≤x.need rollback l := by
  by_cases hf : x.forward l
  · -- no old pod is missing
    have hb : ¬x.backward rollback l := fun hb => Numbers.not_forward_of_backward hb hf
    rw [Numbers.oldSurge_of_not_backward hb] at hshort
    have h1:=hf.1
    unfold Numbers.oldExcess at h1
    apply Numbers.need_le_of_forward hf <;>
      simp only [Numbers.oldExcess,Numbers.newExcess] <;> omega
  by_cases hb : x.backward rollback l
  · -- as long as old pods are missing only old pods are created
    have h1:=hb.2.1
    have h2:=hb.2.2
    have hs:=(Numbers.surge_bounds rollback l x).1
    have ho:=horder hb.1
    rw [Numbers.expectedOld_of_backward hb] at hshort ho
    unfold Numbers.newExcess at h2
    apply Numbers.need_le_of_backward hb <;>
      simp only [Numbers.oldExcess,Numbers.newExcess] <;> omega
  · -- nothing has to change its revision, and still nothing has to
    have hz:=Numbers.need_of_neither hf hb
    rw [Numbers.oldSurge_of_not_backward hb] at hshort horder
    rw [hz,Numbers.need_of_neither]
    · intro hf'
      have h1:=hf'.1
      have h2:=hf'.2
      simp only [Numbers.forward,Numbers.oldExcess,Numbers.newExcess] at h1 h2 hf
      omega
    · intro hb'
      have h1:=hb'.2.1
      have h2:=hb'.2.2
      have ho:=horder hb'.1
      simp only [Numbers.backward,hb'.1,Numbers.oldExcess,Numbers.newExcess,true_and] at h1 h2 hb
      omega

theorem Numbers.remove_need_le (old : Int) (hpos : x.expected rollback l<x.total)
    (ho : old=min (x.total-x.expected rollback l) (max (x.old-x.expectedOld rollback l) 0)) :
    Numbers.need rollback l ⟨x.old-old,x.new-(x.total-x.expected rollback l-old)⟩≤x.need rollback l := by
  have hsur:=Numbers.surge_bounds rollback l x
  simp only [Numbers.expected,Numbers.total] at hpos ho ⊢
  by_cases hf : x.forward l
  · -- the excess is all old
    have hb : ¬x.backward rollback l := fun hb => Numbers.not_forward_of_backward hb hf
    have h1:=hf.1
    have h2:=hf.2
    rw [Numbers.oldSurge_of_not_backward hb] at ho
    simp only [Numbers.oldExcess,Numbers.newExcess] at h1 h2
    apply Numbers.need_le_of_forward hf <;>
      simp only [Numbers.oldExcess,Numbers.newExcess] <;> omega
  by_cases hb : x.backward rollback l
  · -- the excess is all new
    have h1:=hb.2.1
    have h2:=hb.2.2
    rw [Numbers.expectedOld_of_backward hb] at ho
    simp only [Numbers.oldExcess,Numbers.newExcess] at h1 h2
    apply Numbers.need_le_of_backward hb <;>
      simp only [Numbers.oldExcess,Numbers.newExcess] <;> omega
  · have hz:=Numbers.need_of_neither hf hb
    rw [Numbers.oldSurge_of_not_backward hb] at ho
    rw [hz,Numbers.need_of_neither]
    · intro hf'
      have h1:=hf'.1
      have h2:=hf'.2
      simp only [Numbers.forward,Numbers.oldExcess,Numbers.newExcess] at h1 h2 hf
      omega
    · intro hb'
      have h1:=hb'.2.1
      have h2:=hb'.2.2
      simp only [Numbers.backward,hb'.1,Numbers.oldExcess,Numbers.newExcess,true_and] at h1 h2 hb
      omega

theorem Numbers.update_need_lt (k : Int) (hforward : x.forward l) (hpos : 1≤k) (hle : k≤x.need rollback l) :
    Numbers.need rollback l ⟨x.old-k,x.new+k⟩<x.need rollback l := by
  have hn:=Numbers.need_of_forward rollback hforward
  simp only [Numbers.oldExcess,Numbers.newExcess] at hn
  by_cases hf : Numbers.forward l ⟨x.old-k,x.new+k⟩
  · rw [Numbers.need_of_forward rollback hf]
    simp only [Numbers.oldExcess,Numbers.newExcess]
    omega
  · rw [Numbers.need_of_neither hf]
    · omega
    · intro hb
      have h1:=hb.2.1
      simp only [Numbers.oldExcess] at h1
      omega

theorem Numbers.rollback_need_lt (k : Int) (hbackward : x.backward rollback l) (hpos : 1≤k)
    (hle : k≤x.need rollback l) : Numbers.need rollback l ⟨x.old+k,x.new-k⟩<x.need rollback l := by
  have hn:=Numbers.need_of_backward hbackward
  simp only [Numbers.oldExcess,Numbers.newExcess] at hn
  by_cases hb : Numbers.backward rollback l ⟨x.old+k,x.new-k⟩
  · rw [Numbers.need_of_backward hb]
    simp only [Numbers.oldExcess,Numbers.newExcess]
    omega
  · rw [Numbers.need_of_neither _ hb]
    · omega
    · intro hf
      have h1:=hf.2
      simp only [Numbers.newExcess] at h1
      omega

/-- A step never needs more pods to change their revision, and a step that needs
as many brings the total closer to what is expected. -/
theorem Numbers.Step.progress (h : Numbers.Step rollback l x y) :
    y.need rollback l<x.need rollback l ∨
      y.need rollback l=x.need rollback l ∧ y.distance rollback l<x.distance rollback l := by
  -- with the same need the surge, and so the expected total, is the same
  have hsame : ∀ y : Numbers,y.need rollback l=x.need rollback l → y.expected rollback l=x.expected rollback l := by
    intro y hy
    unfold Numbers.expected Numbers.surge
    rw [hy]
  cases h with
  | create old new ho hn hpos ht hshort horder =>
    rcases lt_or_eq_of_le (Numbers.create_need_le old new ho hn hshort horder) with h | h
    · exact .inl h
    · have he:=hsame _ h
      unfold Numbers.distance
      simp only [Numbers.total] at ht ⊢
      omega
  | remove old hpos ho =>
    rcases lt_or_eq_of_le (Numbers.remove_need_le old hpos ho) with h | h
    · exact .inl h
    · refine .inr ⟨h,?_⟩
      have he:=hsame _ h
      unfold Numbers.distance
      rw [he]
      simp only [Numbers.total] at hpos ⊢
      omega
  | update k hf hpos hle => exact .inl (Numbers.update_need_lt k hf hpos hle)
  | rollback k hbackward hpos hle => exact .inl (Numbers.rollback_need_lt k hbackward hpos hle)

/-- With the total as expected and no pod to change its revision the rollout is complete. -/
theorem Numbers.complete (ht : x.total=x.expected rollback l) (hn : x.need rollback l=0) :
    x.total=l.replicas ∧ x.old≤l.partition ∧ (rollback → x.old=l.partition) := by
  have hsur:=Numbers.surge_bounds rollback l x
  have hf : ¬x.forward l := by
    intro hf
    have h1:=hf.1
    have h2:=hf.2
    rw [Numbers.need_of_forward rollback hf] at hn
    omega
  have hb : ¬x.backward rollback l := by
    intro hb
    have h1:=hb.2.1
    have h2:=hb.2.2
    rw [Numbers.need_of_backward hb] at hn
    omega
  simp only [Numbers.expected,Numbers.total] at ht ⊢
  simp only [Numbers.forward,Numbers.backward,Numbers.oldExcess,Numbers.newExcess] at hf hb
  refine ⟨by omega,by omega,fun hr => ?_⟩
  simp only [hr,true_and] at hb
  omega

end

end Kruise.CloneSet
