import Kruise.Lib.Keyed
import Kruise.UpdateSort.Scatter

/-!
# Scattering loses no index

For distinct indexes of pods that are there, every step of the scatter sort succeeds and keeps the
indexes up to their order. The groups are never empty since the pods that wait are some of all the
pods.
-/

namespace Kruise.UpdateSort

open Util.Selector Lib.Sorting Lib.Counting Lib.Keyed List Option

/- Distinct indexes of pods that are there. -/
structure ValidIndexes (pods : List (Option Labels)) (indexes : List Nat) : Prop where
  nodup : indexes.Nodup
  present : ∀ i∈indexes,∃ labels,podLabels pods i=some labels

variable {pods : List (Option Labels)}

theorem ValidIndexes.perm {indexes indexes' : List Nat} (h : ValidIndexes pods indexes)
    (hperm : indexes'.Perm indexes) : ValidIndexes pods indexes' :=
  ⟨hperm.nodup_iff.mpr h.nodup,fun i hi => h.present i (hperm.mem_iff.mp hi)⟩

def matchedAt (pods : List (Option Labels)) (term : ScatterTerm) (i : Nat) : Bool :=
  (podLabels pods i).any term.matches

variable {indexes : List Nat}

theorem getScatterTerms_isSome (strategy : List ScatterTerm) (h : ValidIndexes pods indexes) :
    ∃ terms,getScatterTerms strategy pods indexes=some terms := by
  unfold getScatterTerms
  split_ifs
  · exact ⟨strategy,rfl⟩
  · have ht (term : ScatterTerm) (c : TermCounts) : ∃ c',countTerm pods indexes c term=some c' ∧ True := by
      refine foldlM_invariant (fun _ => True) ?_ trivial
      intro c _ i hi
      obtain ⟨labels,hl⟩ := h.present i hi
      rw [countIndex,hl]
      exact ⟨_,rfl,trivial⟩
    obtain ⟨c,hc,-⟩ : ∃ c,strategy.foldlM (countTerm pods indexes) ⟨[],[]⟩=some c ∧ True :=
      foldlM_invariant (fun _ => True) (fun c _ term _ => ht term c) trivial
    rw [hc]
    exact ⟨_,rfl⟩

theorem splitMatched_eq (term : ScatterTerm) (h : ∀ i∈indexes,∃ labels,podLabels pods i=some labels) :
    splitMatched pods term indexes=some (indexes.filter (matchedAt pods term),
      indexes.filter fun i => !matchedAt pods term i) := by
  induction indexes with
  | nil => rfl
  | cons i indexes ih =>
    obtain ⟨labels,hl⟩ := h i mem_cons_self
    have hr:=ih fun j hj => h j (mem_cons_of_mem i hj)
    have hmat : matchedAt pods term i=term.matches labels := by
      rw [matchedAt,hl]
      rfl
    unfold splitMatched
    rw [hl,hr]
    cases hm : term.matches labels <;> simp [hm,hmat]

structure GroupFits (group : ScatterGroup) (unmatched : Nat) : Prop where
  matchedGroupSize : 0<group.matchedGroupSize
  unmatchedGroupSize : 0<group.unmatchedGroupSize
  unmatchedRemainder : group.unmatchedRemainder≤unmatched

variable (fl : ScatterFloat)

theorem newScatterGroup_sizes (matched unmatched : Int) (hm : 0 < matched) (hu : 0<unmatched) :
    ∃ group,newScatterGroup fl matched unmatched=some group ∧ 0<group.matchedGroupSize ∧
      0<group.unmatchedGroupSize ∧ group.unmatchedRemainder=0 := by
  unfold newScatterGroup
  split_ifs with hlt
  · rw [if_neg (by omega)]
    exact ⟨_,rfl,fl.round_pos _ _ hm le_rfl,fl.round_pos _ _ hm hlt.le,rfl⟩
  · rw [if_neg (by omega)]
    exact ⟨_,rfl,fl.round_pos _ _ hu (by omega),fl.round_pos _ _ hu le_rfl,rfl⟩

theorem goDiv_of_pos {a b : Int} (ha : 0≤a) (hb : 0<b) : ∃ q,goDiv a b=some q ∧ 0≤q := by
  unfold goDiv
  rw [if_neg (by omega)]
  exact ⟨a.tdiv b,rfl,Int.tdiv_nonneg ha hb.le⟩

/- Of all the pods, at least one more is matched and one is not: no divisor is zero. -/
theorem calculateGroupByDensity_fits (totalMatched totalUnmatched : Int) (matched unmatched : Nat)
    (hm : 0 < matched) (hu : 0<unmatched) (htm : 0<totalMatched) (htu : 0<totalUnmatched) :
    ∃ group,calculateGroupByDensity fl totalMatched totalUnmatched matched unmatched =
      some group ∧ GroupFits group unmatched := by
  obtain ⟨total,htotal,htotalM,ht,-⟩ :=
    newScatterGroup_sizes fl totalMatched totalUnmatched htm htu
  obtain ⟨update,hupd,hupdateM,hupdateU,hr⟩ :=
    newScatterGroup_sizes fl matched unmatched (by omega) (by omega)
  obtain ⟨matchedGroups,hmat,hmatched0⟩ :=
    goDiv_of_pos (Int.natCast_nonneg matched) htotalM
  obtain ⟨unmatchedGroups,hunm,hunmatched0⟩ :=
    goDiv_of_pos (Int.natCast_nonneg unmatched) ht
  unfold calculateGroupByDensity
  rw [htotal,hupd,bind_eq_bind,bind_some,bind_eq_bind,bind_some]
  split_ifs
  · exact ⟨update,rfl,hupdateM,hupdateU,by omega⟩
  · rw [hmat,hunm]
    refine ⟨_,rfl,htotalM,ht,?_⟩
    dsimp only
    have hg : 0≤(if matchedGroups<unmatchedGroups then matchedGroups
        else unmatchedGroups) := by
      split_ifs <;> assumption
    have hproduct:=Int.mul_nonneg hg ht.le
    omega

theorem slice_eq {xs : List Nat} {n : Int} (h0 : 0≤n) (hle : n≤xs.length) :
    slice xs n=some (xs.take n.toNat,xs.drop n.toNat) := if_pos ⟨h0,hle⟩

theorem migrateItems_append (src dst : List Nat) {size : Int} (hsize : 0<size) :
    ∃ moved,migrateItems src dst size=some moved ∧ moved.2++moved.1=dst++src := by
  unfold migrateItems
  split_ifs with hn hshort
  · exact ⟨_,rfl,rfl⟩
  · exact ⟨_,rfl,append_nil _⟩
  · rw [slice_eq hsize.le (by omega)]
    refine ⟨_,rfl,?_⟩
    rw [append_assoc,take_append_drop]

theorem append_swap (a b c : List Nat) : (a++b++c).Perm (a++c++b) := by
  rw [append_assoc,append_assoc]
  exact Perm.append_left a perm_append_comm

def Migration.all (m : Migration) : List Nat := m.new++m.matched++m.unmatched

variable {group : ScatterGroup}

theorem migrateGroup_perm {unmatched : Nat} (h : GroupFits group unmatched) (m : Migration) :
    ∃ m',migrateGroup group m=some m' ∧ m'.all.Perm m.all := by
  obtain ⟨first,hf,ha⟩ := migrateItems_append m.matched m.new h.matchedGroupSize
  obtain ⟨second,hsnd,ha'⟩ := migrateItems_append m.unmatched first.2 h.unmatchedGroupSize
  refine ⟨⟨first.1,second.1,second.2⟩,?_,?_⟩
  · unfold migrateGroup
    rw [hf,bind_eq_bind,bind_some,hsnd]
    rfl
  · unfold Migration.all
    refine (append_swap second.2 first.1 second.1).trans ?_
    rw [ha']
    refine (append_swap first.2 m.unmatched first.1).trans ?_
    rw [ha]

theorem migrateGroups_perm {unmatched : Nat} (h : GroupFits group unmatched) (n : Nat)
    (m : Migration) : ∃ m',migrateGroups group n m=some m' ∧ m'.all.Perm m.all := by
  induction n generalizing m with
  | zero => exact ⟨m,rfl,Perm.refl _⟩
  | succ n ih =>
    obtain ⟨m',hm',hperm⟩ := migrateGroup_perm h m
    obtain ⟨m'',hm'',hperm'⟩ := ih m'
    refine ⟨m'',?_,hperm'.trans hperm⟩
    rw [migrateGroups,hm']
    exact hm''

theorem takeRemainder_perm (matched unmatched : List Nat) (h : GroupFits group unmatched.length) :
    ∃ m,takeRemainder group matched unmatched=some m ∧ m.all.Perm (matched++unmatched) := by
  unfold takeRemainder
  split_ifs with hpos
  · rw [slice_eq hpos.le h.unmatchedRemainder]
    refine ⟨_,rfl,?_⟩
    refine (append_swap _ _ _).trans ?_
    rw [take_append_drop]
    exact perm_append_comm
  · exact ⟨_,rfl,Perm.refl _⟩

section

variable (h : ValidIndexes pods indexes)
include h

theorem length_selected_le (f : Labels → Bool) :
    (indexes.filter fun i => (podLabels pods i).any f).length≤pods.countP (·.any f) := by
  rw [← countP_eq_length_filter]
  refine le_trans (le_of_eq ?_) (countP_indexes_le (·.any f) pods h.nodup)
  apply countP_congr
  intro i _
  unfold podLabels
  cases pods[i]? <;> rfl

theorem length_matched_le (term : ScatterTerm) :
    ((indexes.filter (matchedAt pods term)).length : Int)≤totalMatched pods term :=
  Int.ofNat_le.mpr (length_selected_le h term.matches)

theorem filter_unmatched (term : ScatterTerm) : (indexes.filter fun i => !matchedAt pods term i) =
      indexes.filter fun i => (podLabels pods i).any fun labels => !term.matches labels := by
  apply filter_congr
  intro i hi
  obtain ⟨labels,hl⟩ := h.present i hi
  rw [matchedAt,hl]
  rfl

theorem length_unmatched_le (term : ScatterTerm) :
    ((indexes.filter fun i => !matchedAt pods term i).length : Int)≤totalUnmatched pods term := by
  rw [filter_unmatched h term]
  exact Int.ofNat_le.mpr (length_selected_le h _)

end

structure Scattered (pods : List (Option Labels)) (indexes : List Nat) (term : ScatterTerm)
    (result : List Nat) : Prop where
  perm : result.Perm indexes
  last : 1<(indexes.filter (matchedAt pods term)).length →
    1<(indexes.filter fun i => !matchedAt pods term i).length →
    result.getLast?=(indexes.filter (matchedAt pods term)).getLast?

theorem scatterPodsByRule_spec (h : ValidIndexes pods indexes) (term : ScatterTerm) :
    ∃ result,scatterPodsByRule fl pods indexes term=some result ∧ Scattered pods indexes term result := by
  have hmat:=length_matched_le h term
  have hunm:=length_unmatched_le h term
  have ha : (indexes.filter (matchedAt pods term) ++ indexes.filter fun i => !matchedAt pods term i).Perm indexes :=
    filter_append_perm _ _
  unfold scatterPodsByRule
  rw [splitMatched_eq term h.present,bind_eq_bind,bind_some]
  generalize hm : indexes.filter (matchedAt pods term)=matched at hmat ha ⊢
  generalize hu : (indexes.filter fun i => !matchedAt pods term i)=unmatched at hunm ha ⊢
  dsimp only
  split_ifs with hf
  · refine ⟨indexes,rfl,Perm.refl _,?_⟩
    rw [hm,hu]
    omega
  · have hne : matched≠[] := by
      rintro rfl
      exact hf (.inl (by decide))
    have hlen : matched.dropLast.length=matched.length-1 := length_dropLast
    obtain ⟨group,hg,hfits⟩ := calculateGroupByDensity_fits fl
      (totalMatched pods term-1) (totalUnmatched pods term) matched.dropLast.length
      unmatched.length (by omega) (by omega) (by omega) (by omega)
    obtain ⟨start,hsta,hstartPerm⟩ := takeRemainder_perm matched.dropLast unmatched hfits
    obtain ⟨last,hlast,hl⟩ := migrateGroups_perm hfits group.groupNum.toNat start
    have hmov:=hl.trans hstartPerm
    refine ⟨last.all++[matched.getLast hne],?_,?_,?_⟩
    · simp only [getLast?_eq_some_getLast hne,hg,hsta,hlast,bind_eq_bind,bind_some]
      rfl
    · refine ((hmov.append_right _).trans ?_).trans ha
      refine (append_swap _ _ _).trans ?_
      rw [dropLast_concat_getLast]
    · intro _ _
      rw [hm,getLast?_concat,getLast?_eq_some_getLast hne]

theorem scatterSort_perm (strategy : List ScatterTerm) {pods : List (Option Labels)}
    (h : ValidIndexes pods indexes) :
    ∃ result,scatterSort fl strategy pods indexes=some result ∧ result.Perm indexes := by
  unfold scatterSort
  split_ifs
  · exact ⟨indexes,rfl,Perm.refl _⟩
  · obtain ⟨terms,ht⟩ := getScatterTerms_isSome strategy h
    rw [ht,bind_eq_bind,bind_some]
    refine foldlM_invariant (fun result : List Nat => result.Perm indexes) ?_ (Perm.refl _)
    intro current hcur term _
    obtain ⟨result,hr,hscattered⟩ := scatterPodsByRule_spec fl (h.perm hcur) term
    exact ⟨result,hr,hscattered.perm.trans hcur⟩

/-- The scatter sort succeeds and permutes its indexes, and scattering by any term leaves the last
matched index at the end. -/
theorem scatterSort_permutes (fl : ScatterFloat) (strategy : List ScatterTerm)
    (pods : List (Option Labels)) (indexes : List Nat) (h : ValidIndexes pods indexes) :
    (∃ result,scatterSort fl strategy pods indexes=some result ∧ result.Perm indexes) ∧
      ∀ term,∃ result,scatterPodsByRule fl pods indexes term=some result ∧ Scattered pods indexes term result :=
  ⟨scatterSort_perm fl strategy h,scatterPodsByRule_spec fl h⟩

def exactFloat : ScatterFloat where
  round a b := (2*a+b) / (2*b)
  ratioGe a b c d := decide (a*d ≥ c*b)
  round_pos a b hb hab := by
    have hone : 1≤(2*a+b) / (2*b) := (Int.le_ediv_iff_mul_le (by omega)).2 (by omega)
    omega

def labelA : Labels := fun key => if key = "labelA" then some "AAA" else none

/- Two of five pods match; a reserved ordinal leaves a hole. -/
def scatteredPods : List (Option Labels) :=
  [some labelA,some labelA,none,some fun _ => none,some fun _ => none,some fun _ => none]

theorem scatteredPods_permutes :
    scatterSort exactFloat [⟨"labelA", "AAA"⟩] scatteredPods [0,1,3,4,5] = some [0,3,4,5,1] ∧
      ∃ result,scatterSort exactFloat [⟨"labelA", "AAA"⟩] scatteredPods [0,1,3,4,5]
        = some result ∧ result.Perm [0,1,3,4,5] :=
  ⟨by decide,(scatterSort_permutes exactFloat _ scatteredPods _ ⟨by decide,by simp [podLabels,scatteredPods]⟩).1⟩

end Kruise.UpdateSort
