import Kruise.Lib.Sorting
import Kruise.Util.IntStr
import Kruise.Util.Selector

/-!
# Sorting pods by update priority

`prioritySort` (`pkg/util/updatesort/priority_sort.go`) sorts indexes by the weights of the
selectors they match or by the values of ordered label keys, and equal priorities from the largest
index down. The strategy and its validation are those of `update_priority.go`.
-/

namespace Kruise.UpdateSort

open Util.IntStr Util.Selector Lib.Sorting

structure WeightTerm where
  weight : Int
  matchSelector : LabelSelector

/- An order term holds nothing but its key. -/
structure UpdatePriorityStrategy where
  orderPriority : List String
  weightPriority : List WeightTerm

def weightTermError (selectorError : LabelSelector → Option String) (w : WeightTerm) : Option String :=
  if w.weight<0 ∨ w.weight > 100 then some "weight must be valid number in the range 1-100"
  else if w.matchSelector.isEmpty then some "selector can not be empty"
  else (selectorError w.matchSelector).map fun err => "invalid selector " ++ err

def UpdatePriorityStrategy.fieldsValidation (selectorError : LabelSelector → Option String)
    (s : UpdatePriorityStrategy) : Option String :=
  if s.weightPriority.length > 0 ∧ s.orderPriority.length > 0 then
    some "only one of weightPriority and orderPriority can be used"
  else
    match s.weightPriority.findSome? (weightTermError selectorError) with
    | some err => some err
    | none => if s.orderPriority.any (· = "") then some "order key can not be empty" else none

variable {s : UpdatePriorityStrategy}

theorem weightPriority_nil_of_valid {selectorError : LabelSelector → Option String}
    (h : s.fieldsValidation selectorError=none) (ho : s.orderPriority≠[]) : s.weightPriority=[] := by
  have hl:=List.length_pos_iff.mpr ho
  by_cases hboth : s.weightPriority.length > 0 ∧ s.orderPriority.length > 0
  · rw [UpdatePriorityStrategy.fieldsValidation,if_pos hboth] at h
    cases h
  · exact List.length_eq_zero_iff.mp (by omega)

def trailingDigits (v : String) : List Char := (v.toList.reverse.takeWhile Char.isDigit).reverse

def trailingInt (v : String) : Nat := (parseNat (trailingDigits v)).getD 0

/- `strconv.ParseInt` fails for what does not fit into an `int64`. -/
def getIntFromStringSuffix (v : String) : Int :=
  if trailingInt v<2^63 then trailingInt v else 0

def getPodWeightPriority (terms : List WeightTerm) (labels : Labels) : Int :=
  terms.foldl (fun weight p => if p.matchSelector.matches labels then weight+p.weight else weight)
    0

/- The loop of `getPodOrderPriority` from the `i`-th key on: level and order. -/
def orderPriorityFrom (labels : Labels) : Nat → List String → Int × Int
  | _,[] => (-1,0)
  | i,key::keys =>
    match labels key with
    | some value => (i,getIntFromStringSuffix value)
    | none => orderPriorityFrom labels (i+1) keys

def getPodOrderPriority (keys : List String) (labels : Labels) : Int × Int :=
  orderPriorityFrom labels 0 keys

def compare (s : UpdatePriorityStrategy) (podI podJ : Labels) (defaultVal : Bool) : Bool :=
  if s.weightPriority.length > 0 then
    let wI:=getPodWeightPriority s.weightPriority podI
    let wJ:=getPodWeightPriority s.weightPriority podJ
    if wI≠wJ then wI > wJ else defaultVal
  else if s.orderPriority.length > 0 then
    let pI:=getPodOrderPriority s.orderPriority podI
    let pJ:=getPodOrderPriority s.orderPriority podJ
    if pI.1≠pJ.1 then pI.1<pJ.1
    else if pI.2≠pJ.2 then pI.2 > pJ.2
    else defaultVal
  else defaultVal

/- The default only answers for pods of the same priority. -/
theorem compare_of_higher {podI podJ : Labels} (h : compare s podI podJ false) (defaultVal : Bool) :
    compare s podI podJ defaultVal := by
  unfold compare at h ⊢
  dsimp only at h ⊢
  split_ifs at h ⊢ <;> exact h

theorem compare_of_tie {podI podJ : Labels} (hij : compare s podI podJ false=false)
    (hji : compare s podJ podI false=false) (defaultVal : Bool) : compare s podI podJ defaultVal=defaultVal := by
  unfold compare at hij hji ⊢
  dsimp only at hij hji ⊢
  split_ifs at hij hji ⊢ <;> simp only [decide_eq_false_iff_not] at hij hji <;> first | rfl | omega

def UpdatePriorityStrategy.hasTerms (s : UpdatePriorityStrategy) : Bool :=
  !(s.weightPriority.length=0&&s.orderPriority.length=0)

/- The comparator of the sort. `labelsAt` gives the labels of the pod at an index. -/
def indexLess (s : UpdatePriorityStrategy) (labelsAt : Nat → Labels) (i j : Nat) : Bool :=
  compare s (labelsAt i) (labelsAt j) (i > j)

def prioritySort (strategy : Option UpdatePriorityStrategy) (labelsAt : Nat → Labels)
    (indexes : List Nat) : List Nat :=
  match strategy with
  | none => indexes
  | some s => if s.hasTerms then stableSort (indexLess s labelsAt) indexes else indexes

theorem prioritySort_perm (strategy : Option UpdatePriorityStrategy) (labelsAt : Nat → Labels)
    (indexes : List Nat) : (prioritySort strategy labelsAt indexes).Perm indexes := by
  unfold prioritySort
  cases strategy with
  | none => exact .refl _
  | some s =>
    dsimp only
    split_ifs
    · exact stableSort_perm _ _
    · exact .refl _

section

variable (s) (labelsAt : Nat → Labels)

def largerIndexLess : Nat → Nat → Bool := lexLess (fun i => -(i : Int)) fun _ _ => false

theorem largerIndexLess_eq (i j : Nat) : largerIndexLess i j=decide (i > j) := by
  rw [Bool.eq_iff_iff,largerIndexLess,lexLess_iff,decide_eq_true_iff]
  simp only [Bool.false_eq_true,and_false,or_false]
  omega

theorem indexLess_weight (h : s.weightPriority.length > 0) : indexLess s labelsAt =
      lexLess (fun i => -getPodWeightPriority s.weightPriority (labelsAt i)) largerIndexLess := by
  funext i j
  unfold indexLess compare lexLess
  rw [if_pos h,largerIndexLess_eq]
  dsimp only
  split_ifs <;> simp <;> omega

theorem indexLess_order (hw : s.weightPriority=[]) (h : s.orderPriority.length > 0) :
    indexLess s labelsAt=lexLess (fun i => (getPodOrderPriority s.orderPriority (labelsAt i)).1)
        (lexLess (fun i => -(getPodOrderPriority s.orderPriority (labelsAt i)).2) largerIndexLess) := by
  funext i j
  unfold indexLess compare lexLess
  rw [hw,if_neg (by decide),if_pos h,largerIndexLess_eq]
  dsimp only
  split_ifs <;> simp <;> omega

theorem indexLess_none (hw : s.weightPriority=[]) (ho : s.orderPriority=[]) :
    indexLess s labelsAt=largerIndexLess := by
  funext i j
  unfold indexLess compare
  rw [hw,ho,if_neg (by decide),if_neg (by decide),largerIndexLess_eq]

theorem strictWeak_indexLess : StrictWeak (indexLess s labelsAt) := by
  have hi : StrictWeak largerIndexLess := strictWeak_lexLess _ strictWeak_never
  rcases hw : s.weightPriority with _ | ⟨w,ws⟩
  · rcases ho : s.orderPriority with _ | ⟨key,keys⟩
    · rw [indexLess_none s labelsAt hw ho]
      exact hi
    · rw [indexLess_order s labelsAt hw (by simp [ho])]
      exact strictWeak_lexLess _ (strictWeak_lexLess _ hi)
  · rw [indexLess_weight s labelsAt (by simp [hw])]
    exact strictWeak_lexLess _ hi

theorem largerIndexLess_tie {i j : Nat} (hij : largerIndexLess i j=false)
    (hji : largerIndexLess j i=false) : i=j := by
  have h:=(lexLess_tie hij hji).1
  omega

theorem indexLess_tie (i j : Nat) (hij : indexLess s labelsAt i j=false)
    (hji : indexLess s labelsAt j i=false) : i=j := by
  rcases hw : s.weightPriority with _ | ⟨w,ws⟩
  · rcases ho : s.orderPriority with _ | ⟨key,keys⟩
    · rw [indexLess_none s labelsAt hw ho] at hij hji
      exact largerIndexLess_tie hij hji
    · rw [indexLess_order s labelsAt hw (by simp [ho])] at hij hji
      have ht:=(lexLess_tie hij hji).2
      have hi:=(lexLess_tie ht.1 ht.2).2
      exact largerIndexLess_tie hi.1 hi.2
  · rw [indexLess_weight s labelsAt (by simp [hw])] at hij hji
    have ht:=(lexLess_tie hij hji).2
    exact largerIndexLess_tie ht.1 ht.2

end

end Kruise.UpdateSort
