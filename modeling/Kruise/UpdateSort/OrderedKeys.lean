import Kruise.UpdateSort.Priority

/-!
# The documented order of ordered keys

Pods with the first key come first, sorted by the integer at the end of its value, then those left
that have the second key (`update_priority.go:25-49`). The comparator agrees except that a pod
without any of the keys gets level `-1` and jumps ahead, and an integer that does not fit into 64
bits counts as zero.
-/

namespace Kruise.UpdateSort

open Util.Selector Lib.Sorting

/- The first of the ordered keys that a pod carries, by its position, and the value there. -/
def firstTermFrom (labels : Labels) : Nat → List String → Option (Nat × String)
  | _,[] => none
  | i,key::keys =>
    match labels key with
    | some value => some (i,value)
    | none => firstTermFrom labels (i+1) keys

variable (keys : List String)

def firstTerm (labels : Labels) : Option (Nat × String) :=
  firstTermFrom labels 0 keys

/- The documented order, on the first terms of two pods. -/
def termPrecedes : Option (Nat × String) → Option (Nat × String) → Bool
  | some _,none => true
  | some a,some b => a.1<b.1||(a.1=b.1&&trailingInt b.2<trailingInt a.2)
  | none,_ => false

def mustPrecede (a b : Labels) : Bool :=
  termPrecedes (firstTerm keys a) (firstTerm keys b)

def termPriority : Option (Nat × String) → Int × Int
  | some a => (a.1,getIntFromStringSuffix a.2)
  | none => (-1,0)

theorem orderPriorityFrom_eq (labels : Labels) (keys : List String) (i : Nat) :
    orderPriorityFrom labels i keys=termPriority (firstTermFrom labels i keys) := by
  induction keys generalizing i with
  | nil => rfl
  | cons key keys ih =>
    unfold orderPriorityFrom firstTermFrom
    cases labels key with
    | some value => rfl
    | none => exact ih (i+1)

theorem getPodOrderPriority_eq (labels : Labels) :
    getPodOrderPriority keys labels=termPriority (firstTerm keys labels) :=
  orderPriorityFrom_eq labels keys 0

/- An integer of more than 64 bits counts as zero. It outranks a smaller one only if that one
counts as zero too and does not stand at a larger index. -/
def Outranks (i j : Nat) (v w : String) : Prop :=
  trailingInt w<trailingInt v → 2^63≤trailingInt v →
    (trailingInt w=0 ∨ 2^63≤trailingInt w) ∧ j ≤ i

structure KeysOrdered (keys : List String) (labelsAt : Nat → Labels) (indexes : List Nat) : Prop where
  carried : (∀ i∈indexes,firstTerm keys (labelsAt i)≠none) ∨
    ∀ i∈indexes,firstTerm keys (labelsAt i)=none
  integers : ∀ i∈indexes,∀ j∈indexes,∀ k v w,firstTerm keys (labelsAt i)=some (k,v) →
    firstTerm keys (labelsAt j)=some (k,w) → Outranks i j v w

section

variable {s : UpdatePriorityStrategy} (labelsAt : Nat → Labels)

def termLess (i j : Nat) (a b : Option (Nat × String)) : Bool :=
  if (termPriority a).1≠(termPriority b).1 then (termPriority a).1<(termPriority b).1
  else if (termPriority a).2≠(termPriority b).2 then (termPriority a).2 > (termPriority b).2
  else i > j

theorem indexLess_eq_termLess (hw : s.weightPriority=[]) (ho : s.orderPriority≠[]) (i j : Nat) :
    indexLess s labelsAt i j=termLess i j (firstTerm s.orderPriority (labelsAt i))
      (firstTerm s.orderPriority (labelsAt j)) := by
  unfold indexLess compare
  rw [hw,if_neg (by decide),if_pos (List.length_pos_iff.mpr ho), getPodOrderPriority_eq,getPodOrderPriority_eq]
  rfl

end

theorem termLess_iff (i j : Nat) (a b : Option (Nat × String)) : termLess i j a b ↔
      (termPriority a).1<(termPriority b).1 ∨ ((termPriority a).1=(termPriority b).1 ∧
        ((termPriority b).2<(termPriority a).2 ∨ ((termPriority a).2=(termPriority b).2 ∧ j < i))) := by
  unfold termLess
  split_ifs <;> rw [decide_eq_true_iff] <;> omega

theorem termPrecedes_some_iff (a b : Nat × String) : termPrecedes (some a) (some b) ↔
      a.1<b.1 ∨ (a.1=b.1 ∧ trailingInt b.2<trailingInt a.2) := by
  simp [termPrecedes]

theorem termLess_some_iff (i j : Nat) (a b : Nat × String) :
    (termLess i j (some a) (some b) → ¬termPrecedes (some b) (some a)) ↔
      (a.1=b.1 → Outranks j i b.2 a.2) := by
  rw [termLess_iff,termPrecedes_some_iff]
  simp only [termPriority,getIntFromStringSuffix,Outranks]
  split_ifs <;> omega

theorem termLess_none_some (i j : Nat) (a : Nat × String) : termLess i j none (some a) := by
  rw [termLess_iff]
  simp only [termPriority]
  omega

theorem termPrecedes_irrefl (a : Option (Nat × String)) : ¬termPrecedes a a := by
  cases a with
  | none => decide
  | some a =>
    rw [termPrecedes_some_iff]
    omega

theorem termLess_respects_iff (labelsAt : Nat → Labels) (indexes : List Nat) :
    (∀ i∈indexes,∀ j∈indexes, termLess i j (firstTerm keys (labelsAt i)) (firstTerm keys (labelsAt j)) →
        ¬mustPrecede keys (labelsAt j) (labelsAt i)) ↔
      KeysOrdered keys labelsAt indexes := by
  unfold mustPrecede
  constructor
  · intro h
    constructor
    · by_contra hm
      obtain ⟨hsome,hn⟩ := not_or.mp hm
      simp only [not_forall,not_not] at hsome hn
      obtain ⟨i,hi,hk⟩ := hsome
      obtain ⟨j,hj,hcar⟩ := hn
      obtain ⟨a,ha⟩ := Option.ne_none_iff_exists'.mp hcar
      refine h i hi j hj ?_ ?_
      · rw [hk,ha]
        exact termLess_none_some i j a
      · rw [hk,ha]
        rfl
    · intro i hi j hj k v w hv hw
      have hji:=h j hj i hi
      rw [hv,hw] at hji
      exact (termLess_some_iff j i (k,w) (k,v)).mp hji rfl
  · intro h i hi j hj
    cases ha : firstTerm keys (labelsAt i) with
    | none =>
      rcases h.carried with hall | hall
      · exact absurd ha (hall i hi)
      · rw [hall j hj]
        intro _
        exact Bool.false_ne_true
    | some a =>
      cases hb : firstTerm keys (labelsAt j) with
      | none =>
        intro _
        exact Bool.false_ne_true
      | some b =>
        rw [termLess_some_iff]
        intro hl
        refine h.integers j hj i hi b.1 b.2 a.2 hb ?_
        rw [ha,← hl]

/-- Sorting by ordered keys follows the documented order exactly when the listed pods all carry a
key or none does, and no integer that is too large has to outrank another. -/
theorem prioritySort_documented_iff (selectorError : LabelSelector → Option String)
    (s : UpdatePriorityStrategy) (hvalid : s.fieldsValidation selectorError=none)
    (horder : s.orderPriority≠[]) (labelsAt : Nat → Labels) (indexes : List Nat) :
    let sorted:=prioritySort (some s) labelsAt indexes
    (sorted.Perm indexes ∧ sorted.Pairwise fun i j =>
        ¬mustPrecede s.orderPriority (labelsAt j) (labelsAt i)) ↔
      KeysOrdered s.orderPriority labelsAt indexes := by
  intro sorted
  have hw:=weightPriority_nil_of_valid hvalid horder
  have ht : s.hasTerms := by
    simp [UpdatePriorityStrategy.hasTerms,horder]
  have heq : sorted=stableSort (indexLess s labelsAt) indexes := if_pos ht
  have hsrt : SortedBy (indexLess s labelsAt) indexes sorted :=
    heq ▸ sortedBy_stableSort (strictWeak_indexLess s labelsAt) indexes
  rw [and_iff_right hsrt.perm,← termLess_respects_iff,
    hsrt.pairwise_not_iff (strictWeak_indexLess s labelsAt) (indexLess_tie s labelsAt)
      fun i => termPrecedes_irrefl _]
  simp only [indexLess_eq_termLess labelsAt hw horder]

/-- A pod without the key is sorted before the pod that carries it. -/
theorem keyless_pod_jumps_ahead :
    let s : UpdatePriorityStrategy := ⟨["key1"],[]⟩
    let labelsAt : Nat → Labels := fun i key =>
      if i=0 ∧ key = "key1" then some "o-10" else none
    s.fieldsValidation (fun _ => none)=none ∧ prioritySort (some s) labelsAt [0,1]=[1,0] ∧
      ¬(prioritySort (some s) labelsAt [0,1]).Pairwise fun i j =>
        ¬mustPrecede s.orderPriority (labelsAt j) (labelsAt i) := by
  decide +kernel

theorem keyed_pods_documented :
    let s : UpdatePriorityStrategy := ⟨["key1", "key2"],[]⟩
    let labelsAt : Nat → Labels := fun i key =>
      if i=0 ∧ key = "key2" then some "o-20"
      else if i=1 ∧ key = "key1" then some "o-5"
      else if i=2 ∧ key = "key1" then some "o-10" else none
    (prioritySort (some s) labelsAt [0,1,2]).Pairwise fun i j =>
      ¬mustPrecede s.orderPriority (labelsAt j) (labelsAt i) := by
  intro s labelsAt
  have hsm : ∀ i∈[0,1,2],(firstTerm s.orderPriority (labelsAt i)).all
      (fun term => trailingInt term.2<2^63) := by
    decide +kernel
  have ho : KeysOrdered s.orderPriority labelsAt [0,1,2] := by
    constructor
    · exact .inl (by decide +kernel)
    · intro i hi j hj k v w hv hw hlt hl
      have hv63:=hsm i hi
      rw [hv] at hv63
      exact absurd (of_decide_eq_true hv63) (Nat.not_lt.mpr hl)
  exact ((prioritySort_documented_iff (fun _ => none) s (by decide +kernel) (by decide) labelsAt [0,1,2]).mpr ho).2

end Kruise.UpdateSort
