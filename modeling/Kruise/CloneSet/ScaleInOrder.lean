import Kruise.CloneSet.PodSorter
import Kruise.CloneSet.ScaleIn

/-!
# Which pods a scale in gives up

The first of a sorted list. The ranks number the pods of each node from zero on, so cutting off
the highest ranks takes pods from the fullest nodes.
-/

namespace Kruise.CloneSet

open Lib.Sorting Lib.Counting List

variable {cs : CloneSetSpec} {now : Int}

section

variable {R : Type} [LinearOrder R]

def scaleInLess (now : Int) (cs : CloneSetSpec) (rank : Pod → R) : Pod → Pod → Bool :=
  activePodsWithRanksLess (some fun p => isPodAvailable now p cs.minReadySeconds) rank

theorem phase_of_isPodAvailable {pod : Pod} {minReadySeconds : Int}
    (h : isPodAvailable now pod minReadySeconds) : pod.phase=.running := by
  simp only [isPodAvailable,isPodUpdateReady,Bool.and_eq_true,decide_eq_true_eq] at h
  exact h.2.1.1

theorem phaseOrdinal_le (phase : PodPhase) : phaseOrdinal phase≤phaseOrdinal .running := by
  cases phase <;> decide

theorem scaleInLess_of_unavailable (rank : Pod → R) {p q : Pod} (hp : isPodAvailable now p cs.minReadySeconds)
    (hq : isPodAvailable now q cs.minReadySeconds=false)
    (hn : p.phase=.running → p.nodeName ≠ "") : scaleInLess now cs rank q p := by
  have hr:=phase_of_isPodAvailable hp
  have ha : assigned p := decide_eq_true (hn hr)
  rw [scaleInLess,activePodsWithRanksLess_eq,lexLess_iff]
  cases hqa : assigned q with
  | false =>
    left
    rw [ha]
    decide
  | true =>
    refine .inr ⟨ha.symm,?_⟩
    have hph:=phaseOrdinal_le q.phase
    rw [← hr] at hph
    rw [lexLess_iff]
    rcases Nat.lt_or_eq_of_le hph with hlt | heq
    · exact .inl hlt
    · refine .inr ⟨heq,lexLess_of_lt _ ?_⟩
      simp only [availableKey,Option.any_some,hp,hq]
      decide

theorem choose_unavailable_first {api : ScaleApi} {rank : Pod → R}
    {pods : List Pod} (hsort : SortedBy (scaleInLess now cs rank) pods (api.sort pods))
    (hn : ∀ p∈pods,p.phase=.running → p.nodeName ≠ "") (diff : Int) {p q : Pod}
    (hp : p∈choose api pods diff) (hpa : isPodAvailable now p cs.minReadySeconds)
    (hq : q∈pods) (hqa : isPodAvailable now q cs.minReadySeconds=false) : q∈choose api pods diff := by
  have hl:=scaleInLess_of_unavailable rank hpa hqa (hn p (mem_of_mem_choose hp))
  unfold choose at hp ⊢
  split_ifs at hp ⊢
  · have hm:=hsort.perm.mem_iff.mpr hq
    rw [← take_append_drop diff.toNat (api.sort pods)] at hm
    rcases mem_append.mp hm with ht | hd
    · exact ht
    · exact absurd (hl.symm.trans (hsort.take_drop hp hd)) (by decide)
  · exact hq

end

section

variable {sortGroup : List Pod → List Pod} {pods : List Pod}

/- What the pods on one node are sorted by: no ranks and no availability. -/
def groupLess : Pod → Pod → Bool := activePodsWithRanksLess none fun _ => (0 : Nat)

theorem mem_groupRanks {group : List Pod} {e : String × Nat} : e∈groupRanks group ↔
      ∃ i p,i+1<group.length ∧ group[i]?=some p ∧ e=(p.uid,group.length-1-i) := by
  simp only [groupRanks,mem_map,mem_zipIdx_iff_getElem?,length_dropLast, Prod.exists,getElem?_dropLast]
  constructor
  · rintro ⟨p,i,hg,rfl⟩
    split_ifs at hg with hi
    exact ⟨i,p,by omega,hg,rfl⟩
  · rintro ⟨i,p,hi,hg,rfl⟩
    exact ⟨p,i,by rw [if_pos (by omega),hg],rfl⟩

variable {node : String}

theorem mem_nodesOf : node∈nodesOf pods ↔ node ≠ "" ∧ ∃ p∈pods,p.nodeName=node := by
  simp [nodesOf,and_comm]

variable (hsort : ∀ group,(sortGroup group).Perm group)
include hsort

theorem mem_newSameNodeRanker {e : String × Nat} : e∈newSameNodeRanker sortGroup pods ↔
      ∃ node∈nodesOf pods,e∈groupRanks (sortGroup (podsOnNode pods node)) := by
  simp only [newSameNodeRanker,mem_flatMap]
  refine exists_congr fun node => and_congr_right fun _ => ?_
  split_ifs with hl
  · have hsrt:=(hsort (podsOnNode pods node)).length_eq
    refine iff_of_false not_mem_nil ?_
    rw [mem_groupRanks]
    omega
  · exact Iff.rfl

theorem getRank_of_position (hu : (pods.map (·.uid)).Nodup) (hn : node ≠ "") {i : Nat} {p : Pod}
    (hg : (sortGroup (podsOnNode pods node))[i]?=some p) :
    getRank (newSameNodeRanker sortGroup pods) p=(podsOnNode pods node).length-1-i := by
  have hposi {node' : String} {j : Nat} {q : Pod}
      (hq : (sortGroup (podsOnNode pods node'))[j]?=some q) : q∈pods ∧ q.nodeName=node' := by
    have hm:=(hsort _).mem_iff.mp (mem_of_getElem? hq)
    simpa [podsOnNode] using hm
  have hl:=(hsort (podsOnNode pods node)).length_eq
  obtain ⟨hp,hpnode⟩ := hposi hg
  unfold getRank
  cases hlk : (newSameNodeRanker sortGroup pods).lookup p.uid with
  | none =>
    have hlast : ¬i+1<(sortGroup (podsOnNode pods node)).length := by
      intro hlt
      have he:=(mem_newSameNodeRanker hsort).mpr
        ⟨node,mem_nodesOf.mpr ⟨hn,p,hp,hpnode⟩,mem_groupRanks.mpr ⟨i,p,hlt,hg,rfl⟩⟩
      exact absurd (lookup_eq_none_iff.mp hlk _ he) (by simp)
    rw [Option.getD_none]
    omega
  | some r =>
    obtain ⟨before,after,hspl,-⟩ := lookup_eq_some_iff.mp hlk
    have he : (p.uid,r)∈newSameNodeRanker sortGroup pods := by simp [hspl]
    obtain ⟨node',-,hr⟩ := (mem_newSameNodeRanker hsort).mp he
    obtain ⟨j,q,hj,hq,heq⟩ := mem_groupRanks.mp hr
    obtain ⟨hqmem,hqnode⟩ := hposi hq
    obtain ⟨huid,rfl⟩ := Prod.ext_iff.mp heq
    obtain rfl : p=q := inj_on_of_nodup_map hu hp hqmem huid
    obtain rfl : node'=node := hqnode.symm.trans hpnode
    have hnd : (sortGroup (podsOnNode pods node')).Nodup :=
      (hsort _).nodup_iff.mpr ((Nodup.of_map _ hu).filter _)
    have hij : j=i := (getElem?_inj (by omega) hnd).mp (hq.trans hg.symm)
    rw [Option.getD_some,hij,hl]

theorem ranks_perm_range (hu : (pods.map (·.uid)).Nodup) (hn : node ≠ "") :
    ((podsOnNode pods node).map (getRank (newSameNodeRanker sortGroup pods))).Perm
      (range (podsOnNode pods node).length) := by
  refine ((hsort _).symm.map _).trans ?_
  have hl:=(hsort (podsOnNode pods node)).length_eq
  have hr : (sortGroup (podsOnNode pods node)).map (getRank (newSameNodeRanker sortGroup pods)) =
        (range (podsOnNode pods node).length).reverse := by
    refine ext_getElem (by simp [hl]) ?_
    intro i hi _
    rw [length_map] at hi
    rw [getElem_map,getRank_of_position hsort hu hn (getElem?_eq_getElem hi),
      getElem_reverse,getElem_range,length_range]
  rw [hr]
  exact reverse_perm _

end

structure AlikePods (now : Int) (cs : CloneSetSpec) (pods : List Pod) : Prop where
  assigned : ∀ p∈pods,p.nodeName ≠ ""
  running : ∀ p∈pods,p.phase=.running
  available : ∀ p∈pods,∀ q∈pods,
    isPodAvailable now p cs.minReadySeconds=isPodAvailable now q cs.minReadySeconds
  ready : ∀ p∈pods,∀ q∈pods,isConditionReady p=isConditionReady q
  cost : ∀ p∈pods,∀ q∈pods,deletionCostOf p=deletionCostOf q

variable {pods : List Pod}

theorem AlikePods.scaleInLess_of_rank {R : Type} [LinearOrder R]
    (h : AlikePods now cs pods) {rank : Pod → R} {p q : Pod} (hp : p∈pods) (hq : q∈pods)
    (hr : rank q<rank p) : scaleInLess now cs rank p q := by
  have ha : CloneSet.assigned p=CloneSet.assigned q := by
    simp [CloneSet.assigned,h.assigned p hp,h.assigned q hq]
  rw [scaleInLess,activePodsWithRanksLess_eq,lexLess_of_eq _ ha]
  rw [lexLess_of_eq _ (by rw [h.running p hp,h.running q hq])]
  rw [lexLess_of_eq _ (h.available p hp q hq),lexLess_of_eq _ (h.ready p hp q hq),
    lexLess_of_eq _ (h.cost p hp q hq)]
  exact lexLess_of_lt _ hr

def nodeCount (pods : List Pod) (node : String) : Nat := pods.countP (·.nodeName=node)

theorem nodeCount_choose {api : ScaleApi} {diff : Int} (h : diff<pods.length) (node : String) :
    nodeCount pods node-nodeCount (choose api pods diff) node =
      nodeCount ((api.sort pods).drop diff.toNat) node := by
  have hspl:=(api.sort_perm pods).countP_eq (p := (·.nodeName=node))
  rw [← take_append_drop diff.toNat (api.sort pods),countP_append] at hspl
  rw [choose,if_pos h]
  unfold nodeCount
  omega

variable {sortGroup : List Pod → List Pod}

theorem ranks_of_assigned (hsort : ∀ group,(sortGroup group).Perm group)
    (hu : (pods.map (·.uid)).Nodup) (ha : ∀ p∈pods,p.nodeName ≠ "") (node : String) :
    ((pods.filter (·.nodeName=node)).map (getRank (newSameNodeRanker sortGroup pods))).Perm
      (range (pods.countP (·.nodeName=node))) := by
  rw [countP_eq_length_filter]
  by_cases hn : node = ""
  · have hnone : pods.filter (·.nodeName=node)=[] := by
      rw [filter_eq_nil_iff]
      intro p hp
      simpa [hn] using ha p hp
    rw [hnone]
    exact Perm.refl _
  · exact ranks_perm_range hsort hu hn

theorem choose_leaves_balance {api : ScaleApi} (hg : ∀ group,(sortGroup group).Perm group)
    (hsort : SortedBy (scaleInLess now cs (getRank (newSameNodeRanker sortGroup pods))) pods (api.sort pods))
    (hu : (pods.map (·.uid)).Nodup) (ha : AlikePods now cs pods) (diff : Int)
    (n m : String) (hl : 0<nodeCount (choose api pods diff) n) :
    nodeCount pods m-nodeCount (choose api pods diff) m ≤
      nodeCount pods n-nodeCount (choose api pods diff) n+1 := by
  by_cases hd : diff<pods.length
  · rw [nodeCount_choose hd,nodeCount_choose hd]
    rw [choose,if_pos hd] at hl
    have hcut : ((api.sort pods).take diff.toNat++(api.sort pods).drop diff.toNat).Perm pods := by
      rw [take_append_drop]
      exact hsort.perm
    refine countP_rest_le_of_cut hcut (ranks_of_assigned hg hu ha.assigned) ?_ hl m
    intro p hp q hq
    by_contra hr
    have hpmem:=hcut.mem_iff.mp (mem_append_left _ hp)
    have hqmem:=hcut.mem_iff.mp (mem_append_right _ hq)
    have hless:=ha.scaleInLess_of_rank hqmem hpmem (Nat.lt_of_not_le hr)
    exact absurd (hless.symm.trans (hsort.take_drop hp hq)) (by decide)
  · rw [choose,if_neg hd]
    omega

/-- Scaling in takes an available pod only with every pod that is not available, and of pods that
only ranks and ages tell apart none from a node that is left with more than one pod less than
another. -/
theorem choose_prefers (api : ScaleApi) (now : Int) (cs : CloneSetSpec) (pods : List Pod) (diff : Int) :
    (∀ (R : Type) [LinearOrder R] (rank : Pod → R), SortedBy (scaleInLess now cs rank) pods (api.sort pods) →
      (∀ p∈pods,p.phase=.running → p.nodeName ≠ "") →
      ∀ p∈choose api pods diff,isPodAvailable now p cs.minReadySeconds →
      ∀ q∈pods,isPodAvailable now q cs.minReadySeconds=false → q∈choose api pods diff) ∧
    ∀ sortGroup : List Pod → List Pod,(∀ group,SortedBy groupLess group (sortGroup group)) →
      SortedBy (scaleInLess now cs (getRank (newSameNodeRanker sortGroup pods))) pods (api.sort pods) →
      (pods.map (·.uid)).Nodup → AlikePods now cs pods →
      ∀ n m,0<nodeCount (choose api pods diff) n → nodeCount pods m-nodeCount (choose api pods diff) m ≤
          nodeCount pods n-nodeCount (choose api pods diff) n+1 := by
  constructor
  · intro R _ rank hsort hn p hp hpa q hq hqa
    exact choose_unavailable_first hsort hn diff hp hpa hq hqa
  · intro sortGroup hg hsort hu ha
    exact choose_leaves_balance (fun group => (hg group).perm) hsort hu ha diff

def podOn (node uid : String) : Pod := {readyPod uid "web-1" with uid := uid,nodeName := node}

def unevenPods : List Pod := [podOn "x" "a",podOn "x" "b",podOn "y" "c",podOn "x" "d"]

def brokenPod : Pod := {podOn "x" "e" with ready := none}

def rankOf (pods : List Pod) : Pod → Nat := getRank (newSameNodeRanker (stableSort groupLess) pods)

def rankingApi (pods : List Pod) : ScaleApi :=
  {acceptingApi with
    sort := stableSort (scaleInLess 0 (plainSpec 2) (rankOf pods))
    sort_perm := stableSort_perm _}

/-- Two of the three pods go; with a broken pod in the list, one of the two is that one. -/
theorem choose_prefers_full_node :
    (choose (rankingApi unevenPods) unevenPods 2).map (·.nodeName)=["x", "x"] ∧
      nodeCount unevenPods "y" - nodeCount (choose (rankingApi unevenPods) unevenPods 2) "y" ≤
        nodeCount unevenPods "x" - nodeCount (choose (rankingApi unevenPods) unevenPods 2) "x" + 1 ∧
      let pods:=unevenPods++[brokenPod]
      brokenPod∈choose (rankingApi pods) pods 2 := by
  have hsort (pods : List Pod) := sortedBy_stableSort
    (strictWeak_activePodsWithRanksLess (some fun p => isPodAvailable 0 p 0) (rankOf pods)) pods
  have ha : AlikePods 0 (plainSpec 2) unevenPods :=
    ⟨by decide +kernel,by decide +kernel,by decide +kernel,by decide +kernel,by decide +kernel⟩
  refine ⟨by decide +kernel,?_,?_⟩
  · exact (choose_prefers (rankingApi unevenPods) 0 (plainSpec 2) unevenPods 2).2 (stableSort groupLess)
      (fun group => sortedBy_stableSort (strictWeak_activePodsWithRanksLess _ _) group)
      (hsort unevenPods) (by decide +kernel) ha "x" "y" (by decide +kernel)
  · intro pods
    have htk : podOn "x" "a" ∈ choose (rankingApi pods) pods 2 := by
      exact mem_cons_of_mem _ mem_cons_self
    exact (choose_prefers (rankingApi pods) 0 (plainSpec 2) pods 2).1 Nat (rankOf pods)
      (hsort pods) (by decide +kernel) _ htk (by decide +kernel) _ (by simp [pods])
      (by decide +kernel)

end Kruise.CloneSet
