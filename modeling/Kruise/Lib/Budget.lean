import Mathlib.Algebra.Order.Ring.Int
import Mathlib.Data.List.Basic

/-!
# Spending a budget along a list

The loop that walks a list, takes every element that costs nothing and takes a
costly element only while the budget lasts.
-/

namespace Kruise.Lib.Budget

variable {α : Type} (costs : α → Bool)

/-- Elements taken by the loop, in order, with `limit` costly ones allowed. -/
def spend : Int → List α → List α
  | _,[] => []
  | limit,x::xs =>
    if !costs x then x::spend limit xs
    else if limit > 0 then x::spend (limit-1) xs
    else spend limit xs

variable (limit : Int)

@[simp] theorem spend_nil : spend costs limit []=[] := rfl

theorem spend_free (x : α) (xs : List α) (hx : costs x=false) :
    spend costs limit (x::xs)=x::spend costs limit xs := by
  simp [spend,hx]

theorem spend_paid (x : α) (xs : List α) (hx : costs x) (hl : 0<limit) :
    spend costs limit (x::xs)=x::spend costs (limit-1) xs := by
  simp [spend,hx,hl]

theorem spend_refused (x : α) (xs : List α) (hx : costs x) (hl : limit≤0) :
    spend costs limit (x::xs)=spend costs limit xs := by
  simp [spend,hx,Int.not_lt.mpr hl]

theorem spend_eq_self (xs : List α) (h : (xs.countP costs : Int)≤limit) : spend costs limit xs=xs := by
  induction xs generalizing limit with
  | nil => rfl
  | cons x xs ih =>
    by_cases hx : costs x
    · rw [List.countP_cons_of_pos hx] at h
      rw [spend_paid costs limit x xs hx (by omega),ih (limit-1) (by omega)]
    · have hx' : costs x=false := by simpa using hx
      rw [List.countP_cons_of_neg hx] at h
      rw [spend_free costs limit x xs hx',ih limit h]

variable (p : α → Bool)

theorem countP_spend_of_nonpos (hp : ∀ x,p x → costs x) (limit : Int)
    (hl : limit≤0) (xs : List α) : (spend costs limit xs).countP p=0 := by
  induction xs with
  | nil => rfl
  | cons x xs ih =>
    by_cases hx : costs x
    · rw [spend_refused costs limit x xs hx hl]
      exact ih
    · have hx' : costs x=false := by simpa using hx
      have hpx : ¬p x := fun h => hx (hp x h)
      rw [spend_free costs limit x xs hx',List.countP_cons_of_neg hpx]
      exact ih

theorem countP_spend_le (hp : ∀ x,p x → costs x) (limit : Int) (xs : List α) :
    ((spend costs limit xs).countP p : Int) ≤ max 0 limit := by
  induction xs generalizing limit with
  | nil => simp
  | cons x xs ih =>
    by_cases hl : limit≤0
    · rw [countP_spend_of_nonpos costs p hp limit hl]
      exact Int.le_max_left 0 limit
    · by_cases hx : costs x
      · have h1:=ih (limit-1)
        have h2 : (spend costs limit (x::xs)).countP p ≤ (spend costs (limit-1) xs).countP p+1 := by
          rw [spend_paid costs limit x xs hx (by omega),List.countP_cons]
          split_ifs <;> omega
        omega
      · have hx' : costs x=false := by simpa using hx
        have hpx : ¬p x := fun h => hx (hp x h)
        rw [spend_free costs limit x xs hx',List.countP_cons_of_neg hpx]
        exact ih limit

theorem exists_split_cons {Q : List α → α → Prop} (x : α) (xs : List α) :
    (∃ before y after,x::xs=before++y::after ∧ Q before y) ↔
      Q [] x ∨ ∃ before y after,xs=before++y::after ∧ Q (x::before) y := by
  constructor
  · rintro ⟨before,y,after,he,hQ⟩
    cases before with
    | nil =>
      obtain ⟨rfl,rfl⟩ := List.cons.inj he
      exact .inl hQ
    | cons z before =>
      obtain ⟨rfl,rfl⟩ := List.cons.inj he
      exact .inr ⟨before,y,after,rfl,hQ⟩
  · rintro (hQ | ⟨before,y,after,rfl,hQ⟩)
    · exact ⟨[],x,xs,rfl,hQ⟩
    · exact ⟨x::before,y,after,rfl,hQ⟩

/-- More than `k` elements of `p` are taken exactly when the one after the first `k` of them has
fewer than `limit` costly ones ahead. -/
theorem lt_countP_spend_iff (hp : ∀ x,p x → costs x) (limit : Int) (k : Nat) (xs : List α) :
    k<(spend costs limit xs).countP p ↔ ∃ before x after,xs=before++x::after ∧
        (p x ∧ before.countP p=k ∧ (before.countP costs : Int)<limit) := by
  induction xs generalizing limit k with
  | nil => simp
  | cons x xs ih =>
    by_cases hl : 0<limit
    · rw [exists_split_cons]
      by_cases hx : costs x
      · rw [spend_paid costs limit x xs hx hl]
        by_cases hpx : p x
        · -- the head is the element looked for, or one of the `k` before it
          cases k with
          | zero => simp [hpx,hl]
          | succ k =>
            simp [hpx,hx,ih,← lt_sub_iff_add_lt]
        · simp [hpx,hx,ih,← lt_sub_iff_add_lt]
      · have hx' : costs x=false := by simpa using hx
        have hpx : ¬p x := fun h => hx (hp x h)
        rw [spend_free costs limit x xs hx']
        simp [hpx,hx,ih]
    · rw [countP_spend_of_nonpos costs p hp limit (by omega) (x::xs)]
      constructor <;> omega

end Kruise.Lib.Budget
