import Kruise.Lib.Floating
import Kruise.UpdateSort.ScatterPermutes

/-!
# When scattering keeps matched pods apart

With all pods waiting for the update, `scatterPodsByRule` (`scatter_sort.go:88-150`) deals out one
matched pod and then a group of unmatched ones of the rounded average size. Rounded up, the groups
can use up the unmatched pods before the last one.
-/

namespace Kruise.UpdateSort

open Util.Selector Lib.Counting Lib.Floating List

/- What the floats give for counts up to `n`. -/
structure RoundsHalfUp (fl : ScatterFloat) (n : Nat) : Prop where
  round : ∀ a b : Nat,0<b → b≤a → a≤n → fl.round a b=((2*a+b) / (2*b) : Nat)
  ratioGe_self : ∀ a b : Nat,0<b → fl.ratioGe a b a b

/- `float64` and `float32`; a quotient by zero, which is not taken, has no meaning here. -/
def goFloat : ScatterFloat where
  round a b := roundHalfUp (quotient 52 a.toNat b.toNat)
  ratioGe a b c d := quotient 23 a.toNat b.toNat ≥ quotient 23 c.toNat d.toNat
  round_pos := by
    intro a b hb hab
    apply roundHalfUp_pos
    exact one_le_quotient 52 (by omega) (by omega)

theorem roundsHalfUp_goFloat {n : Nat} (h : n<2^52) : RoundsHalfUp goFloat n where
  round := by
    intro a b hb hab ha
    exact roundHalfUp_quotient hb hab (by omega)
  ratioGe_self := by
    intro a b _
    exact decide_eq_true le_rfl

def dealOut (g : Nat) : List Nat → List Nat → List Nat
  | [],unmatched => unmatched
  | i::matched,unmatched =>
    i::(unmatched.take g++dealOut g matched (unmatched.drop g))

theorem migrateItems_eq (src dst : List Nat) {g : Nat} (hg : 0<g) :
    migrateItems src dst g=some (src.drop g,dst++src.take g) := by
  unfold migrateItems
  split_ifs with hn hshort
  · rw [length_eq_zero_iff.mp hn,drop_nil,take_nil,append_nil]
  · have hle : src.length≤g := by omega
    rw [drop_of_length_le hle,take_of_length_le hle]
  · rw [slice_eq (by omega) (by omega),Int.toNat_natCast]
    rfl

theorem migrateGroups_dealOut (group : ScatterGroup) {g : Nat} (hg : 0<g)
    (hm : group.matchedGroupSize=1) (hu : group.unmatchedGroupSize=g) (matched unmatched new : List Nat) :
    ∃ last,migrateGroups group matched.length ⟨matched,unmatched,new⟩=some last ∧
      last.all=new++dealOut g matched unmatched := by
  induction matched generalizing unmatched new with
  | nil => exact ⟨_,rfl,by simp [Migration.all,dealOut]⟩
  | cons i matched ih =>
    have ho : migrateItems (i::matched) new group.matchedGroupSize = some (matched,new++[i]) := by
      rw [hm]
      exact migrateItems_eq (i::matched) new Nat.one_pos
    have hgrp : migrateGroup group ⟨i::matched,unmatched,new⟩ =
        some ⟨matched,unmatched.drop g,new++[i]++unmatched.take g⟩ := by
      unfold migrateGroup
      rw [ho,Option.bind_eq_bind,Option.bind_some,hu,migrateItems_eq _ _ hg]
      rfl
    obtain ⟨last,hl,ha⟩ := ih (unmatched.drop g) (new++[i]++unmatched.take g)
    refine ⟨last,?_,?_⟩
    · rw [length_cons,migrateGroups,hgrp]
      exact hl
    · rw [ha,dealOut]
      simp

def Apart (matched : Nat → Bool) (xs : List Nat) : Prop :=
  xs.IsChain fun a b => ¬(matched a ∧ matched b)

section

variable {matched : Nat → Bool}

theorem apart_append_of_unmatched {block : List Nat} (rest : List Nat)
    (h : ∀ i∈block,matched i=false) : Apart matched (block++rest) ↔ Apart matched rest := by
  unfold Apart
  induction block with
  | nil => rfl
  | cons i block ih =>
    have hi:=h i mem_cons_self
    rw [cons_append,isChain_cons,ih fun j hj => h j (mem_cons_of_mem i hj)]
    simp [hi]

theorem apart_cons_block {i : Nat} {block rest : List Nat} (hne : block≠[]) (h : ∀ j∈block,matched j=false) :
    Apart matched (i::(block++rest)) ↔ Apart matched rest := by
  obtain ⟨j,block,rfl⟩ := exists_cons_of_ne_nil hne
  have hj:=h j mem_cons_self
  rw [← apart_append_of_unmatched rest h]
  unfold Apart
  simp [hj]

theorem not_apart_cons_cons {i j : Nat} {rest : List Nat} (hi : matched i)
    (hj : matched j) : ¬Apart matched (i::j::rest) := by
  unfold Apart
  rw [isChain_cons_cons]
  intro h
  exact h.1 ⟨hi,hj⟩

theorem dealOut_apart_iff {g : Nat} (hg : 0<g) {ms us : List Nat} {last : Nat}
    (hms : ∀ i∈ms,matched i) (hus : ∀ i∈us,matched i=false) (hlast : matched last) :
    Apart matched (dealOut g ms us++[last]) ↔ ms=[] ∨ (ms.length-1)*g<us.length := by
  induction ms generalizing us with
  | nil =>
    rw [dealOut,apart_append_of_unmatched [last] hus]
    simp [Apart]
  | cons i ms ih =>
    have hi:=hms i mem_cons_self
    have hr : ∀ j∈ms,matched j := fun j hj => hms j (mem_cons_of_mem i hj)
    rw [dealOut,cons_append,append_assoc]
    by_cases hn : us=[]
    -- nothing is left: the next index is matched as well
    · subst hn
      simp only [take_nil,drop_nil,nil_append,length_nil,Nat.not_lt_zero, or_false,reduceCtorEq,iff_false]
      cases ms with
      | nil => exact not_apart_cons_cons hi hlast
      | cons j ms => exact not_apart_cons_cons hi (hr j mem_cons_self)
    · have hl : 0<us.length := length_pos_iff.mpr hn
      have hblock : us.take g≠[] := by
        rw [← length_pos_iff,length_take]
        omega
      rw [apart_cons_block hblock fun j hj => hus j (mem_of_mem_take hj),
        ih hr fun j hj => hus j (mem_of_mem_drop hj),length_drop]
      cases ms with
      | nil => simp [hl]
      | cons j ms =>
        have hm : (ms.length+1)*g=ms.length*g+g := Nat.succ_mul _ _
        simp only [length_cons,Nat.add_sub_cancel,reduceCtorEq,false_or,hm]
        omega

end

theorem halfUp_eq {n q r : Nat} (hr : r<n) : (2*(n*q+r)+n) / (2*n)=if 2*r<n then q else q+1 := by
  have hsum : 2*(n*q+r)+n=2*r+n+2*n*q := by ring
  rw [hsum,Nat.add_mul_div_left _ _ (by omega)]
  split_ifs with hd
  · rw [Nat.div_eq_of_lt (by omega),Nat.zero_add]
  · have ho : (2*r+n) / (2*n)=1 := Nat.div_eq_of_lt_le (by omega) (by omega)
    rw [ho,Nat.add_comm]

theorem groups_leave_iff {n u : Nat} (hn : 0<n) (hu : n<u) :
    (n-1)*((2*u+n) / (2*n))<u ↔ 2*(u % n)<n ∨ n≤u / n+u % n := by
  have hd : n*(u / n)+u % n=u := Nat.div_add_mod u n
  have hr : u % n<n := Nat.mod_lt u hn
  have hq : 0<u / n := Nat.div_pos hu.le hn
  generalize u / n=q at hd hq ⊢
  generalize u % n=r at hd hr ⊢
  subst hd
  rw [halfUp_eq hr]
  obtain ⟨k,rfl⟩ : ∃ k,n=k+1 := ⟨n-1,by omega⟩
  have hm : (k+1)*q=k*q+q := Nat.succ_mul k q
  rw [Nat.add_sub_cancel,hm]
  split_ifs with hdown
  · omega
  · rw [Nat.mul_succ]
    omega

structure AllWait (pods : List (Option Labels)) (indexes : List Nat) : Prop where
  valid : ValidIndexes pods indexes
  all : ∀ i labels,podLabels pods i=some labels → i∈indexes

section

variable {pods : List (Option Labels)} {indexes : List Nat}

theorem AllWait.countP_le (h : AllWait pods indexes) (f : Labels → Bool) :
    pods.countP (·.any f)≤(indexes.filter fun i => (podLabels pods i).any f).length := by
  rw [← countP_range_get,← countP_eq_length_filter]
  refine countP_le_of_nodup_keys id _ _ _ _ (by rw [map_id]; exact nodup_range) ?_
  intro i _ hi
  have ha : (podLabels pods i).any f := by
    unfold podLabels
    cases hg : pods[i]? with
    | none =>
      rw [hg] at hi
      cases hi
    | some pod =>
      rw [hg] at hi
      exact hi
  obtain ⟨labels,hl,-⟩ := (Option.any_eq_true _ _).mp ha
  exact ⟨h.all i labels hl,ha⟩

theorem AllWait.length_matched (h : AllWait pods indexes) (term : ScatterTerm) :
    ((indexes.filter (matchedAt pods term)).length : Int)=totalMatched pods term :=
  le_antisymm (length_matched_le h.valid term) (Int.ofNat_le.mpr (h.countP_le term.matches))

theorem AllWait.length_unmatched (h : AllWait pods indexes) (term : ScatterTerm) :
    ((indexes.filter fun i => !matchedAt pods term i).length : Int)=totalUnmatched pods term := by
  refine le_antisymm (length_unmatched_le h.valid term) ?_
  rw [filter_unmatched h.valid term]
  exact Int.ofNat_le.mpr (h.countP_le _)

variable {fl : ScatterFloat}

theorem calculateGroupByDensity_all {matched unmatched : Nat} (hfl : RoundsHalfUp fl unmatched)
    (hm : 0 < matched) (hu : matched<unmatched) :
    calculateGroupByDensity fl matched unmatched matched unmatched =
      some ⟨matched,1,((2*unmatched+matched) / (2*matched) : Nat),0⟩ := by
  have hself : fl.round matched matched=1 := by
    have ho : (2*matched+matched) / (2*matched)=1 :=
      Nat.div_eq_of_lt_le (by omega) (by omega)
    rw [hfl.round matched matched hm le_rfl hu.le,ho]
    rfl
  have hg : newScatterGroup fl matched unmatched =
      some ⟨matched,1,((2*unmatched+matched) / (2*matched) : Nat),0⟩ := by
    have hlt : (matched : Int)<unmatched := by omega
    have hz : (matched : Int)≠0 := by omega
    unfold newScatterGroup
    rw [if_pos hlt,if_neg hz,hself,hfl.round unmatched matched hm hu.le le_rfl]
  unfold calculateGroupByDensity
  rw [hg,Option.bind_eq_bind,Option.bind_some,Option.bind_eq_bind,Option.bind_some,
    if_pos (hfl.ratioGe_self unmatched matched hm)]
  rfl

theorem RoundsHalfUp.mono {n k : Nat} (h : RoundsHalfUp fl n) (hk : k≤n) : RoundsHalfUp fl k :=
  ⟨fun a b hb hab ha => h.round a b hb hab (ha.trans hk),h.ratioGe_self⟩

theorem scatterPodsByRule_dealOut {term : ScatterTerm} {m u : Nat} (ha : AllWait pods indexes)
    (hm : totalMatched pods term=m) (hu : totalUnmatched pods term=u) (ht : 2 ≤ m)
    (hmore : m≤u) (hfl : RoundsHalfUp fl pods.length) :
    ∃ matched unmatched last,scatterPodsByRule fl pods indexes term=some (dealOut
        ((2*u+(m-1)) / (2*(m-1))) matched unmatched++[last]) ∧
      matched.length=m-1 ∧ unmatched.length=u ∧
      (∀ i∈matched,matchedAt pods term i) ∧
      (∀ i∈unmatched,matchedAt pods term i=false) ∧ matchedAt pods term last := by
  have hmat:=ha.length_matched term
  have hunm:=ha.length_unmatched term
  have hl : ∀ i∈indexes.filter (matchedAt pods term),matchedAt pods term i :=
    fun i hi => (mem_filter.mp hi).2
  have hlistU : ∀ i∈indexes.filter (fun i => !matchedAt pods term i), matchedAt pods term i=false := by
    simp
  have hpods : u≤pods.length := by
    have hle : pods.countP (·.any fun labels => !term.matches labels)≤pods.length :=
      countP_le_length
    unfold totalUnmatched at hu
    omega
  unfold scatterPodsByRule
  rw [splitMatched_eq term ha.valid.present,Option.bind_eq_bind,Option.bind_some]
  generalize indexes.filter (matchedAt pods term)=matched at hmat hl ⊢
  generalize (indexes.filter fun i => !matchedAt pods term i)=unmatched at hunm hlistU ⊢
  dsimp only
  rw [if_neg (by omega)]
  have hne : matched≠[] := by
    rintro rfl
    simp only [length_nil] at hmat
    omega
  have hlen : matched.dropLast.length=m-1 := by
    rw [length_dropLast]
    omega
  have hg:=calculateGroupByDensity_all (hfl.mono hpods) (show 0 < m-1 by omega) (show m-1<u by omega)
  have hcast : totalMatched pods term-1=((m-1 : Nat) : Int) := by omega
  obtain ⟨last,hlast,hd⟩ := migrateGroups_dealOut ⟨(m-1 : Nat),1,((2*u+(m-1)) / (2*(m-1)) : Nat),0⟩
    (Nat.div_pos (by omega) (by omega)) rfl rfl matched.dropLast unmatched []
  refine ⟨matched.dropLast,unmatched,matched.getLast hne,?_,hlen,by omega,?_,hlistU, hl _ (getLast_mem hne)⟩
  · have hlenU : (unmatched.length : Int)=u := by omega
    rw [hlen] at hlast
    rw [hcast,hu,hlen,hlenU,hg,getLast?_eq_some_getLast hne]
    simp only [Option.bind_eq_bind,Option.bind_some,takeRemainder,gt_iff_lt,lt_self_iff_false,
      if_false,Int.toNat_natCast,hlast]
    rw [nil_append] at hd
    rw [← hd]
    rfl
  · intro i hi
    exact hl i (mem_of_mem_dropLast hi)

end

/-- With all pods waiting, at least two matched and as many not, scattering keeps the matched pods
apart exactly if the average size is rounded down, or the groups but the last leave an unmatched pod
although it is rounded up. -/
theorem scatterPodsByRule_apart_iff (fl : ScatterFloat) (term : ScatterTerm)
    (pods : List (Option Labels)) (indexes : List Nat) (m u : Nat) (hall : AllWait pods indexes)
    (hm : totalMatched pods term=m) (hu : totalUnmatched pods term=u) (htwo : 2 ≤ m)
    (hmore : m≤u) (hfl : RoundsHalfUp fl pods.length) :
    (∃ result,scatterPodsByRule fl pods indexes term=some result ∧ Apart (matchedAt pods term) result) ↔
      2*(u % (m-1)) < m-1 ∨ m-1≤u / (m-1)+u % (m-1) := by
  obtain ⟨matched,unmatched,last,hr,hl,hlenU,hms,hus,hlast⟩ :=
    scatterPodsByRule_dealOut hall hm hu htwo hmore hfl
  have hne : matched≠[] := by
    rw [← length_pos_iff]
    omega
  have hsize : 0<(2*u+(m-1)) / (2*(m-1)) := Nat.div_pos (by omega) (by omega)
  rw [hr,← groups_leave_iff (by omega) (by omega)]
  simp only [Option.some.injEq,exists_eq_left']
  rw [dealOut_apart_iff hsize hms hus hlast,hl,hlenU]
  simp only [hne,false_or]

def termA : ScatterTerm := ⟨"labelA", "AAA"⟩

def labelledPods (m u : Nat) : List (Option Labels) :=
  replicate m (some labelA)++List.replicate u (some fun _ => none)

theorem allWait_labelledPods (m u : Nat) : AllWait (labelledPods m u) (range (m+u)) := by
  have hlen : (labelledPods m u).length=m+u := by simp [labelledPods]
  constructor
  · refine ⟨nodup_range,?_⟩
    intro i hi
    have hlt : i<(labelledPods m u).length := by
      rw [hlen]
      exact mem_range.mp hi
    have hm:=getElem_mem hlt
    unfold podLabels
    rw [getElem?_eq_getElem hlt]
    rcases mem_append.mp hm with hm | hm
    · exact ⟨labelA,by rw [eq_of_mem_replicate hm]; rfl⟩
    · exact ⟨fun _ => none,by rw [eq_of_mem_replicate hm]; rfl⟩
  · intro i labels hl
    rw [mem_range,← hlen]
    by_contra ho
    rw [podLabels,getElem?_eq_none (by omega)] at hl
    cases hl

theorem three_of_nine_apart :
    2*(6 % (3-1))<3-1 ∧ ∃ result,scatterPodsByRule goFloat (labelledPods 3 6) (range 9) termA=some result ∧
        Apart (matchedAt (labelledPods 3 6) termA) result :=
  ⟨by decide,(scatterPodsByRule_apart_iff goFloat termA (labelledPods 3 6) (range 9) 3 6
    (allWait_labelledPods 3 6) (by decide) (by decide) (by decide) (by decide)
    (roundsHalfUp_goFloat (by decide))).mpr (.inl (by decide))⟩

/- Six unmatched pods for four groups are 1.5 on average, rounded to two. -/
theorem rounded_groups_run_out :
    AllWait (labelledPods 5 6) (range 11) ∧ totalMatched (labelledPods 5 6) termA=5 ∧
      totalUnmatched (labelledPods 5 6) termA=6 ∧
      scatterPodsByRule goFloat (labelledPods 5 6) (range 11) termA = some [0,5,6,1,7,8,2,9,10,3,4] ∧
      ¬Apart (matchedAt (labelledPods 5 6) termA) [0,5,6,1,7,8,2,9,10,3,4] := by
  have hspl : splitMatched (labelledPods 5 6) termA (range 11) = some ([0,1,2,3,4],[5,6,7,8,9,10]) := by decide
  have hg : calculateGroupByDensity goFloat (4 : Nat) (6 : Nat) (4 : Nat) (6 : Nat) = some ⟨4,1,2,0⟩ :=
    calculateGroupByDensity_all (roundsHalfUp_goFloat (by decide)) (by decide) (by decide)
  have ht : totalMatched (labelledPods 5 6) termA=5 := by decide
  have ht' : totalUnmatched (labelledPods 5 6) termA=6 := by decide
  refine ⟨allWait_labelledPods 5 6,ht,ht',?_,?_⟩
  · unfold scatterPodsByRule
    rw [hspl,ht,ht',Option.bind_eq_bind,Option.bind_some]
    change (calculateGroupByDensity goFloat (4 : Nat) (6 : Nat) (4 : Nat) (6 : Nat)).bind _=_
    rw [hg]
    rfl
  · rw [Apart]
    decide

end Kruise.UpdateSort
