import Kruise.CloneSet.PodSorter
import Kruise.CloneSet.Update
import Kruise.UpdateSort.Priority

/-!
# The order in which a CloneSet updates its pods

`SortUpdateIndexes` (`cloneset_update.go:327-349`) without a scatter strategy. For two pods of the
same priority the comparator of the second sort puts the larger index first, so nothing of the
default order is left among them.
-/

namespace Kruise.CloneSet

open Util.Selector Lib.Sorting UpdateSort List

/- The comparator of `GetPodsSortFunc`. An index without a pod, on which Go panics, goes first. -/
def podsSortLess (pods : List Pod) (i j : Nat) : Bool := optionLess activePodsLess pods[i]? pods[j]?

theorem strictWeak_podsSortLess (pods : List Pod) : StrictWeak (podsSortLess pods) :=
  strictWeak_activePodsLess.option.onImage fun i => pods[i]?

/- `sort.Slice` with that comparator, which need not be stable. -/
structure DefaultSorter extends Sorter where
  sorted : ∀ pods indexes,SortedBy (podsSortLess pods) indexes (sort pods indexes)

def labelsAt (pods : List Pod) (i : Nat) : Labels := (pods[i]?).elim (fun _ => none) (·.labels)

def prioritySorter (s : UpdatePriorityStrategy) : Sorter :=
  ⟨fun pods => prioritySort (some s) (labelsAt pods),fun _ => prioritySort_perm _ _⟩

def prioritySorters (first : DefaultSorter) (strategy : Option UpdatePriorityStrategy) : UpdateSorters :=
  ⟨first.toSorter,strategy.map prioritySorter,none⟩

def preparing (pods : List Pod) (i : Nat) : Bool :=
  podAt pods (fun p => p.lifecycleState=.preparingUpdate) i

def higherPriority (strategy : Option UpdatePriorityStrategy) (pods : List Pod) (i j : Nat) : Bool :=
  strategy.any fun s => compare s (labelsAt pods i) (labelsAt pods j) false

structure SameClass (strategy : Option UpdatePriorityStrategy) (pods : List Pod) (i j : Nat) : Prop where
  preparing : preparing pods i=preparing pods j
  priority : higherPriority strategy pods i j=false ∧ higherPriority strategy pods j i=false

structure RefinesDefault (strategy : Option UpdatePriorityStrategy) (pods : List Pod)
    (indexes first result : List Nat) : Prop where
  perm : result.Perm indexes
  preparingFirst : result.Pairwise fun i j => preparing pods j=true → preparing pods i=true
  priority : result.Pairwise fun i j =>
    preparing pods i=preparing pods j → higherPriority strategy pods j i=false
  default : ∀ i j,SameClass strategy pods i j → [i,j].Sublist first → [i,j].Sublist result

section

variable (pods : List Pod) (indexes : List Nat)

theorem preparingUpdateFirst_pairwise :
    (preparingUpdateFirst pods indexes).Pairwise fun i j => preparing pods j=true → preparing pods i=true := by
  refine pairwise_append.mpr ⟨?_,?_,?_⟩
  · exact pairwise_of_forall_mem_list fun i hi _ _ _ => (mem_filter.mp hi).2
  · refine pairwise_of_forall_mem_list fun i _ j hj hprep => ?_
    have hn:=(mem_filter.mp hj).2
    rw [Bool.not_eq_true'] at hn
    exact absurd (hn.symm.trans hprep) (by decide)
  · exact fun i hi _ _ _ => (mem_filter.mp hi).2

theorem preparingUpdateFirst_pairwise_class {rel : Nat → Nat → Prop} (h : indexes.Pairwise rel) :
    (preparingUpdateFirst pods indexes).Pairwise fun i j => preparing pods i=preparing pods j → rel i j := by
  have himp : indexes.Pairwise fun i j => preparing pods i=preparing pods j → rel i j := by
    refine h.imp ?_
    intro i j hr _
    exact hr
  refine pairwise_append.mpr ⟨himp.filter _,himp.filter _,?_⟩
  intro i hi j hj hsame
  have hprep : preparing pods i := (mem_filter.mp hi).2
  have hn:=(mem_filter.mp hj).2
  rw [Bool.not_eq_true'] at hn
  exact absurd (hprep.symm.trans (hsame.trans hn)) (by decide)

theorem preparingUpdateFirst_filter (b : Bool) :
    (preparingUpdateFirst pods indexes).filter (preparing pods · == b) =
      indexes.filter (preparing pods · == b) := by
  change (indexes.filter (preparing pods)++indexes.filter fun i => !preparing pods i).filter _=_
  cases b <;> simp

variable {pods indexes}

theorem pair_sublist_preparingUpdateFirst_iff {i j : Nat} (h : preparing pods i=preparing pods j) :
    [i,j].Sublist (preparingUpdateFirst pods indexes) ↔ [i,j].Sublist indexes := by
  have hpair : [i,j].filter (preparing pods · == preparing pods i)=[i,j] := by simp [h]
  have hf:=preparingUpdateFirst_filter pods indexes (preparing pods i)
  constructor
  · intro hsub
    have hk:=hsub.filter (preparing pods · == preparing pods i)
    rw [hpair,hf] at hk
    exact hk.trans filter_sublist
  · intro hsub
    have hk:=hsub.filter (preparing pods · == preparing pods i)
    rw [hpair,← hf] at hk
    exact hk.trans filter_sublist

end

section

variable {strategy : Option UpdatePriorityStrategy} {pods : List Pod} {indexes : List Nat}

theorem sortUpdateIndexes_eq (first : DefaultSorter) :
    sortUpdateIndexes (prioritySorters first strategy) pods indexes=preparingUpdateFirst pods
        (prioritySort strategy (labelsAt pods) (first.sort pods indexes)) := by
  cases strategy <;> rfl

theorem higherPriority_of_no_terms (h : strategy.any (·.hasTerms)=false) (i j : Nat) :
    higherPriority strategy pods i j=false := by
  cases strategy with
  | none => rfl
  | some s =>
    rw [Option.any_some,UpdatePriorityStrategy.hasTerms] at h
    simp only [Bool.not_eq_false',Bool.and_eq_true,decide_eq_true_eq,length_eq_zero_iff] at h
    simp [higherPriority,UpdateSort.compare,h.1,h.2]

theorem prioritySort_of_no_terms (h : strategy.any (·.hasTerms)=false) :
    prioritySort strategy (labelsAt pods) indexes=indexes := by
  cases strategy with
  | none => rfl
  | some s =>
    rw [Option.any_some] at h
    rw [prioritySort,if_neg (by simp [h])]

theorem prioritySort_priority :
    (prioritySort strategy (labelsAt pods) indexes).Pairwise fun i j => higherPriority strategy pods j i=false := by
  cases ht : strategy.any (·.hasTerms) with
  | false =>
    exact pairwise_of_forall fun _ _ => higherPriority_of_no_terms ht _ _
  | true =>
    obtain ⟨s,rfl,hs⟩ := (Option.any_eq_true _ _).mp ht
    rw [prioritySort,if_pos hs]
    refine (sortedBy_stableSort (strictWeak_indexLess s (labelsAt pods)) indexes).sorted.imp ?_
    intro i j hij
    cases hji : higherPriority (some s) pods j i with
    | false => rfl
    | true => exact absurd (hij.symm.trans (compare_of_higher hji _)) (by decide)

theorem indexLess_of_sameClass {s : UpdatePriorityStrategy} {i j : Nat}
    (h : SameClass (some s) pods i j) : indexLess s (labelsAt pods) i j=decide (i > j) :=
  compare_of_tie h.priority.1 h.priority.2 _

theorem pair_self_sublist_of_perm {xs ys : List Nat} (hperm : xs.Perm ys) {i : Nat}
    (hsub : [i,i].Sublist xs) : [i,i].Sublist ys := by
  have hcnt:=replicate_sublist_iff.mp (show (replicate 2 i).Sublist xs from hsub)
  rw [hperm.count_eq] at hcnt
  exact replicate_sublist_iff.mpr hcnt

theorem pair_sublist_prioritySort {i j : Nat} (hcl : SameClass strategy pods i j)
    (hsub : [i,j].Sublist indexes) (hij : strategy.any (·.hasTerms) → ¬i<j) :
    [i,j].Sublist (prioritySort strategy (labelsAt pods) indexes) := by
  cases ht : strategy.any (·.hasTerms) with
  | false => rwa [prioritySort_of_no_terms ht]
  | true =>
    obtain ⟨s,rfl,hs⟩ := (Option.any_eq_true _ _).mp ht
    rcases Nat.eq_or_lt_of_not_lt (hij ht) with rfl | hji
    · exact pair_self_sublist_of_perm (prioritySort_perm _ _ _).symm hsub
    · rw [prioritySort,if_pos hs]
      have hl:=indexLess_of_sameClass hcl
      rw [decide_eq_true hji] at hl
      exact pair_sublist_stableSort ((strictWeak_indexLess s _).asymm i j hl) hsub

theorem exists_first_with_pair {i j : Nat} (hi : i∈indexes) (hj : j∈indexes) (hij : i≠j)
    (hl : podsSortLess pods j i=false) : ∃ first : DefaultSorter,[i,j].Sublist (first.sort pods indexes) := by
  -- the pair is moved to the front of the list before a stable sort
  let front (given : List Nat) : List Nat :=
    if given=indexes then i::j::(indexes.erase i).erase j else given
  have hfr (given : List Nat) : (front given).Perm given := by
    by_cases h : given=indexes
    · have hr : j∈indexes.erase i := (mem_erase_of_ne hij.symm).mpr hj
      rw [show front given=i::j::(indexes.erase i).erase j from if_pos h,h]
      exact ((perm_cons_erase hr).cons i).symm.trans (perm_cons_erase hi).symm
    · rw [show front given=given from if_neg h]
  have hsrt (ps : List Pod) (given : List Nat) :
      SortedBy (podsSortLess ps) given (stableSort (podsSortLess ps) (front given)) := by
    have h:=sortedBy_stableSort (strictWeak_podsSortLess ps) (front given)
    exact ⟨h.perm.trans (hfr given),h.sorted⟩
  refine ⟨⟨⟨fun ps given => stableSort (podsSortLess ps) (front given),
    fun ps given => (hsrt ps given).perm⟩,hsrt⟩,?_⟩
  refine pair_sublist_stableSort hl ?_
  rw [show front indexes=i::j::(indexes.erase i).erase j from if_pos rfl]
  exact ((nil_sublist _).cons_cons j).cons_cons i

/-- The priority order refines the default order exactly when there are no priorities or the default
order already puts the larger index first. -/
theorem priority_refines_default_iff (strategy : Option UpdatePriorityStrategy) (pods : List Pod)
    (indexes : List Nat) :
    (∀ first : DefaultSorter,RefinesDefault strategy pods indexes (first.sort pods indexes)
      (sortUpdateIndexes (prioritySorters first strategy) pods indexes)) ↔
      (strategy.any (·.hasTerms) → ∀ i∈indexes,∀ j∈indexes,
        SameClass strategy pods i j → i<j → podsSortLess pods j i) := by
  constructor
  · intro h ht i hi j hj hcl hij
    obtain ⟨s,rfl,hs⟩ := (Option.any_eq_true _ _).mp ht
    cases hl : podsSortLess pods j i with
    | true => rfl
    | false =>
      obtain ⟨first,hf⟩ := exists_first_with_pair hi hj (Nat.ne_of_lt hij) hl
      have hr:=(h first).default i j hcl hf
      rw [sortUpdateIndexes_eq,pair_sublist_preparingUpdateFirst_iff hcl.preparing, prioritySort,if_pos hs] at hr
      have hsrt:=(sortedBy_stableSort (strictWeak_indexLess s (labelsAt pods))
        (first.sort pods indexes)).sorted.sublist hr
      have hn:=rel_of_pairwise_cons hsrt mem_cons_self
      have htie:=indexLess_of_sameClass ⟨hcl.preparing.symm,hcl.priority.symm⟩
      exact absurd ((htie.trans (decide_eq_true hij)).symm.trans hn) (by decide)
  · intro h first
    refine ⟨sortUpdateIndexes_perm _ pods indexes,?_,?_,?_⟩
    · exact preparingUpdateFirst_pairwise pods _
    · rw [sortUpdateIndexes_eq]
      exact preparingUpdateFirst_pairwise_class pods _ prioritySort_priority
    · intro i j hcl hsub
      rw [sortUpdateIndexes_eq,pair_sublist_preparingUpdateFirst_iff hcl.preparing]
      refine pair_sublist_prioritySort hcl hsub ?_
      intro ht hij
      have hsrt:=(first.sorted pods indexes).sorted.sublist hsub
      have hn:=rel_of_pairwise_cons hsrt mem_cons_self
      have hm : ∀ k∈[i,j],k∈indexes := fun k hk =>
        (first.perm pods indexes).mem_iff.mp (hsub.subset hk)
      have hl:=h ht i (hm i (by simp)) j (hm j (by simp)) hcl hij
      exact absurd (hl.symm.trans hn) (by decide)

end

def stableFirst : DefaultSorter :=
  ⟨⟨fun pods => stableSort (podsSortLess pods),fun _ => stableSort_perm _⟩,
    fun pods => sortedBy_stableSort (strictWeak_podsSortLess pods)⟩

def orderByIndex : UpdatePriorityStrategy := ⟨["index"],[]⟩

def notReadyFirst : List Pod :=
  [{readyPod "web-a" "web-1" with ready := none},readyPod "web-b" "web-1"]

/-- No pod has the ordered key; the ready pod overtakes the one that is not ready. -/
theorem ready_pod_overtakes :
    stableFirst.sort notReadyFirst [0,1]=[0,1] ∧
      sortUpdateIndexes (prioritySorters stableFirst (some orderByIndex)) notReadyFirst [0,1] = [1,0] ∧
      ¬RefinesDefault (some orderByIndex) notReadyFirst [0,1] (stableFirst.sort notReadyFirst [0,1])
        (sortUpdateIndexes (prioritySorters stableFirst (some orderByIndex)) notReadyFirst [0,1]) := by
  have hf : stableFirst.sort notReadyFirst [0,1]=[0,1] := by decide +kernel
  have hr : sortUpdateIndexes (prioritySorters stableFirst (some orderByIndex)) notReadyFirst
      [0,1]=[1,0] := by decide +kernel
  refine ⟨hf,hr,?_⟩
  intro h
  have hcl : SameClass (some orderByIndex) notReadyFirst 0 1 :=
    ⟨by decide +kernel,by decide +kernel,by decide +kernel⟩
  have hsub:=h.default 0 1 hcl (by rw [hf])
  exact absurd hsub (by decide)

end Kruise.CloneSet
