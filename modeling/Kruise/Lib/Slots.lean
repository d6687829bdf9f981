import Mathlib.Data.List.Basic

/-!
# Lists of slots

A list of optional entries that is written by index; a slot past the end is empty.
-/

namespace Kruise.Lib.Slots

open List

variable {α : Type}

def slot (xs : List (Option α)) (i : Nat) : Option α := (xs[i]?).join

@[simp] theorem slot_nil (i : Nat) : slot ([] : List (Option α)) i=none := rfl

@[simp] theorem slot_cons_zero (x : Option α) (xs : List (Option α)) : slot (x::xs) 0=x := by
  cases x <;> rfl

@[simp] theorem slot_cons_succ (x : Option α) (xs : List (Option α)) (i : Nat) :
    slot (x::xs) (i+1)=slot xs i := rfl

theorem lt_length_of_slot {xs : List (Option α)} {i : Nat} {a : α} (h : slot xs i=some a) : i<xs.length := by
  by_contra hge
  rw [slot,getElem?_eq_none (by omega)] at h
  cases h

theorem slot_replicate_none (n i : Nat) : slot (replicate n (none : Option α)) i=none := by
  unfold slot
  rw [getElem?_replicate]
  split_ifs <;> rfl

theorem slot_set_self {xs : List (Option α)} {i : Nat} (hi : i<xs.length) (x : Option α) :
    slot (xs.set i x) i=x := by
  unfold slot
  rw [getElem?_set_self hi]
  cases x <;> rfl

theorem slot_set_ne (xs : List (Option α)) {i j : Nat} (hij : i≠j) (x : Option α) :
    slot (xs.set i x) j=slot xs j := by
  unfold slot
  rw [getElem?_set_ne hij]

/- The number of entries with a property, the one in slot `i` apart. -/
def countOthers (p : Option α → Bool) (i : Nat) (xs : List (Option α)) : Nat :=
  xs.zipIdx.countP fun e => e.2≠i&&p e.1

section

variable (p : Option α → Bool) (xs : List (Option α))

theorem countP_zipIdx_before {i k : Nat} (hik : i<k) :
    ((xs.zipIdx k).countP fun e => e.2≠i&&p e.1)=xs.countP p := by
  induction xs generalizing k with
  | nil => rfl
  | cons x xs ih =>
    have hne : k≠i := by omega
    rw [zipIdx_cons,countP_cons,countP_cons,ih (by omega)]
    simp [hne]

theorem countP_zipIdx_ne (hn : p none=false) (xs : List (Option α)) (i k : Nat) :
    ((xs.zipIdx k).countP fun e => e.2≠k+i&&p e.1)+(if p (slot xs i) then 1 else 0) = xs.countP p := by
  induction xs generalizing i k with
  | nil => simp [hn]
  | cons x xs ih =>
    rw [zipIdx_cons,countP_cons,countP_cons]
    cases i with
    | zero =>
      rw [slot_cons_zero,Nat.add_zero,countP_zipIdx_before p xs (Nat.lt_succ_self k)]
      simp
    | succ i =>
      have hh : (decide (k≠k+(i+1))&&p x)=p x := by simp
      have hr:=ih i (k+1)
      rw [Nat.add_assoc,Nat.add_comm 1 i] at hr
      rw [slot_cons_succ,hh]
      omega

theorem countOthers_add (hn : p none=false) (xs : List (Option α)) (i : Nat) :
    countOthers p i xs+(if p (slot xs i) then 1 else 0)=xs.countP p := by
  have h:=countP_zipIdx_ne p hn xs i 0
  rwa [Nat.zero_add] at h

theorem countOthers_set (i : Nat) (x : Option α) : countOthers p i (xs.set i x)=countOthers p i xs := by
  have h : ∀ k,(((xs.set i x).zipIdx k).countP fun e => e.2≠k+i&&p e.1) =
      (xs.zipIdx k).countP fun e => e.2≠k+i&&p e.1 := by
    induction xs generalizing i with
    | nil => intro k; rfl
    | cons y ys ih =>
      intro k
      cases i with
      | zero => simp [zipIdx_cons]
      | succ i =>
        have hr:=ih i (k+1)
        rw [Nat.add_assoc,Nat.add_comm 1 i] at hr
        rw [set_cons_succ,zipIdx_cons,zipIdx_cons,countP_cons,countP_cons,hr]
  have h0:=h 0
  rwa [Nat.zero_add] at h0

theorem countP_set (hn : p none=false) {xs : List (Option α)} {i : Nat} (hi : i<xs.length) (x : Option α) :
    (xs.set i x).countP p=countOthers p i xs+(if p x then 1 else 0) := by
  have h:=countOthers_add p hn (xs.set i x) i
  rw [countOthers_set,slot_set_self hi] at h
  exact h.symm

omit p in
theorem filterMap_slots : xs.filterMap id=(range xs.length).filterMap (slot xs) := by
  induction xs with
  | nil => rfl
  | cons x xs ih =>
    rw [filterMap_cons,ih,length_cons,range_succ_eq_map,filterMap_cons, filterMap_map,slot_cons_zero]
    rfl

theorem countP_slots : xs.countP p=(range xs.length).countP fun i => p (slot xs i) := by
  induction xs with
  | nil => rfl
  | cons x xs ih =>
    rw [countP_cons,ih,length_cons,range_succ_eq_map,countP_cons,countP_map,slot_cons_zero]
    rfl

end

end Kruise.Lib.Slots
