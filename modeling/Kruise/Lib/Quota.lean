import Mathlib.Algebra.BigOperators.Group.List.Basic
import Mathlib.Algebra.Order.Ring.Int

/-!
# A quota that is charged and granted in one pass

An element is charged to the quota or asks for a part of it, in vain once the charges have used it
up. After the loop the rest is granted in order. Still the outcome is that of charging everything
first.
-/

namespace Kruise.Lib.Quota

open List

variable {α β : Type}

structure Tally (β : Type) where
  used : Int
  waiting : List β

/- `ask x` is what an element asks for, `cost x` its charge when it asks for nothing. -/
def turn (cost : α → Nat) (ask : α → Option β) (limit : Int) (t : Tally β) (x : α) : Tally β :=
  match ask x with
  | some b => if limit≤t.used then t else {t with waiting := t.waiting++[b]}
  | none => {t with used := t.used+cost x}

def Tally.granted (t : Tally β) (limit : Int) : List β := t.waiting.take (limit-t.used).toNat

variable {cost : α → Nat} {ask : α → Option β} {limit : Int}

theorem used_foldl (ha : ∀ x,(ask x).isSome → cost x=0) (xs : List α) (t : Tally β) :
    (xs.foldl (turn cost ask limit) t).used=t.used+((xs.map cost).sum : Nat) := by
  induction xs generalizing t with
  | nil => simp
  | cons x xs ih =>
    rw [foldl_cons,ih,map_cons,sum_cons]
    unfold turn
    cases hx : ask x with
    | none =>
      dsimp only
      omega
    | some b =>
      have hz : cost x=0 := ha x (by rw [hx]; rfl)
      dsimp only
      split_ifs
      · omega
      · dsimp only
        omega

theorem waiting_foldl (ha : ∀ x,(ask x).isSome → cost x=0)
    (xs : List α) (t : Tally β) (hl : (xs.foldl (turn cost ask limit) t).used<limit) :
    (xs.foldl (turn cost ask limit) t).waiting=t.waiting++xs.filterMap ask := by
  induction xs generalizing t with
  | nil => simp
  | cons x xs ih =>
    rw [foldl_cons] at hl ⊢
    rw [ih _ hl,filterMap_cons]
    rw [used_foldl ha] at hl
    unfold turn at hl ⊢
    cases hx : ask x with
    | none => rfl
    | some b =>
      simp only [hx] at hl ⊢
      have hlt : ¬limit≤t.used := by
        intro hle
        rw [if_pos hle] at hl
        omega
      rw [if_neg hlt]
      exact append_assoc _ _ _

theorem take_filterMap (f : α → Option β) (k : Nat) (xs : List α) :
    (xs.filterMap f).take k=((xs.filter fun x => (f x).isSome).take k).filterMap f := by
  induction xs generalizing k with
  | nil => simp
  | cons x xs ih =>
    cases hx : f x with
    | none =>
      rw [filterMap_cons_none hx,filter_cons_of_neg (by simp [hx])]
      exact ih k
    | some b =>
      rw [filterMap_cons_some hx,filter_cons_of_pos (by simp [hx])]
      cases k with
      | zero => rfl
      | succ k =>
        rw [take_succ_cons,take_succ_cons,filterMap_cons_some hx,ih k]

def grantees (cost : α → Nat) (ask : α → Option β) (limit : Int) (xs : List α) : List α :=
  (xs.filter fun x => (ask x).isSome).take (limit-((xs.map cost).sum : Nat)).toNat

/-- The loop grants what it would grant if all charges came first. -/
theorem granted_foldl (ha : ∀ x,(ask x).isSome → cost x=0) (xs : List α) :
    (xs.foldl (turn cost ask limit) ⟨0,[]⟩).granted limit = (grantees cost ask limit xs).filterMap ask := by
  have hu:=@used_foldl _ _ cost ask limit ha xs ⟨0,[]⟩
  simp only [Int.zero_add] at hu
  unfold Tally.granted grantees
  rw [hu,← take_filterMap]
  by_cases hl : ((xs.map cost).sum : Nat)<limit
  · rw [waiting_foldl ha xs ⟨0,[]⟩ (hu ▸ hl)]
    rfl
  · have hz : (limit-((xs.map cost).sum : Nat)).toNat=0 := by omega
    rw [hz,take_zero,take_zero]

variable (xs : List α)

theorem grantees_sublist : (grantees cost ask limit xs).Sublist xs :=
  (take_sublist _ _).trans filter_sublist

theorem isSome_of_mem_grantees {xs : List α} {x : α} (h : x∈grantees cost ask limit xs) : (ask x).isSome :=
  (mem_filter.mp (mem_of_mem_take h)).2

theorem countP_le_sum : xs.countP (fun x => decide (0<cost x))≤(xs.map cost).sum := by
  induction xs with
  | nil => simp
  | cons x xs ih =>
    rw [countP_cons,map_cons,sum_cons]
    split_ifs with hx
    · have hpos:=of_decide_eq_true hx
      omega
    · omega

theorem length_grantees_le : (grantees cost ask limit xs).length≤(limit-((xs.map cost).sum : Nat)).toNat :=
  length_take_le _ _

/-- How many elements get what they ask for does not depend on the order of the loop. -/
theorem length_grantees_perm {xs ys : List α} (h : xs.Perm ys) :
    (grantees cost ask limit xs).length=(grantees cost ask limit ys).length := by
  unfold grantees
  rw [length_take,length_take,(h.map cost).sum_eq,(h.filter _).length_eq]

end Kruise.Lib.Quota
