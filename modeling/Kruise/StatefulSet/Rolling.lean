import Mathlib.Data.Finset.Card
import Kruise.StatefulSet.Ordered
import Kruise.StatefulSet.Unordered

/-!
# The budget of a rolling update

`rollingUpdateStatefulsetPods` (`stateful_set_control.go:713-848`) goes for an available replica
only while the unavailable ones are fewer than `maxUnavailable`, and its name then joins them.
Without `unorderedUpdate` the targets are the replicas from the last one down to the partition
(`stateful_update_utils.go:27-46`).
-/

namespace Kruise.StatefulSet

open Lib.Counting Lib.Loop Lib.Slots List Option

/- The pod that a request deletes, updates in place, or moves to a state that prepares for it. -/
def Action.takesOut : Action → Option Pod
  | .delete pod => some pod
  | .inPlaceUpdate pod => some pod
  | .lifecycle pod .preparingUpdate => some pod
  | .lifecycle pod .preparingDelete => some pod
  | _ => none

def takenOut (actions : List Action) : List String :=
  (actions.filterMap Action.takesOut).map (·.name)

theorem takenOut_append (actions more : List Action) :
    takenOut (actions++more)=takenOut actions++takenOut more := by
  rw [takenOut,filterMap_append,map_append]
  rfl

theorem Action.touched_of_takesOut {a : Action} {pod : Pod} (h : a.takesOut=some pod) : a.touched=some pod := by
  unfold Action.takesOut at h
  split at h
  · exact h
  · exact h
  · exact h
  · exact h
  · cases h

theorem mem_takenOut {name : String} {actions : List Action} (h : name∈takenOut actions) :
    ∃ a∈actions,∃ pod,a.takesOut=some pod ∧ pod.name=name := by
  obtain ⟨pod,hpod,rfl⟩ := mem_map.mp h
  obtain ⟨a,ha,ht⟩ := mem_filterMap.mp hpod
  exact ⟨a,ha,pod,ht,rfl⟩

theorem mem_takenOut_of {a : Action} {pod : Pod} {actions : List Action} (ha : a∈actions)
    (h : a.takesOut=some pod) : pod.name∈takenOut actions :=
  mem_map_of_mem (mem_filterMap.mpr ⟨a,ha,h⟩)

section

variable (c : Call) {pod : Pod}

theorem takenOut_updateTarget {name : String} (h : name∈takenOut (updateTarget c pod).1) : name=pod.name := by
  obtain ⟨a,ha,q,ht,rfl⟩ := mem_takenOut h
  have htch:=updateTarget_touched c pod a ha
  rw [Action.touched_of_takesOut ht] at htch
  rw [some.inj htch]

theorem deletePod_takesOut (hst : pod.lifecycleState≠.preparingDelete)
    (hok : (deletePod c.api c.set pod).2.isSome) : pod.name∈takenOut (deletePod c.api c.set pod).1 := by
  unfold deletePod at hok ⊢
  dsimp only at hok ⊢
  rw [CloneSet.updatePodLifecycle,if_neg hst] at *
  split_ifs at hok ⊢ with hh hr hpat
  · cases hok
  · exact mem_takenOut_of mem_cons_self rfl
  · cases hok
  · exact mem_takenOut_of mem_cons_self rfl
  · exact mem_takenOut_of mem_cons_self rfl

variable (rolling : Apis.V1beta1.RollingUpdateStatefulSetStrategy setParts)

theorem backOff_ne : (backOff rolling).2≠some true := by
  unfold backOff
  split_ifs <;> simp

theorem updateInPlace_takesOut (h : (updateInPlace c.api rolling pod).2=some true) :
    pod.name∈takenOut (updateInPlace c.api rolling pod).1 := by
  unfold updateInPlace at h ⊢
  split at h
  · exact mem_takenOut_of mem_cons_self rfl
  · cases h
  · exact absurd h (backOff_ne rolling)

theorem inPlaceUpdatePod_takesOut (hst : pod.lifecycleState=.unset ∨ pod.lifecycleState=.normal)
    (h : (inPlaceUpdatePod c.api c.set c.revisions pod).2=some true) :
    pod.name∈takenOut (inPlaceUpdatePod c.api c.set c.revisions pod).1 := by
  have hf : pod.lifecycleState≠.preparingUpdate := by
    obtain hst | hst := hst <;> rw [hst] <;> decide
  have hpat : ∀ markPodNotReady,(patchedTo pod .preparingUpdate
      (CloneSet.updatePodLifecycle c.api.lifecycle pod.toPod .preparingUpdate markPodNotReady)).2=some true →
      pod.name∈takenOut (patchedTo pod .preparingUpdate (CloneSet.updatePodLifecycle
        c.api.lifecycle pod.toPod .preparingUpdate markPodNotReady)).1 := by
    intro markPodNotReady hok
    rw [CloneSet.updatePodLifecycle,if_neg hf] at *
    split_ifs at hok ⊢
    · cases hok
    · exact mem_takenOut_of mem_cons_self rfl
    · cases hok
  unfold inPlaceUpdatePod at h ⊢
  split at h
  · cases h
  · next rolling _ =>
    split_ifs at h ⊢
    · cases h
    · exact absurd h (backOff_ne rolling)
    · unfold updateInPlaceByState at h ⊢
      obtain hst | hst := hst <;> rw [hst] at h ⊢ <;> dsimp only at h ⊢ <;>
        split_ifs at h ⊢
      · exact hpat _ h
      · exact updateInPlace_takesOut c rolling h
      · exact hpat _ h
      · exact updateInPlace_takesOut c rolling h

theorem updateTarget_takesOut (hst : pod.lifecycleState=.unset ∨ pod.lifecycleState=.normal)
    (hok : (updateTarget c pod).2) : pod.name∈takenOut (updateTarget c pod).1 := by
  have hip:=inPlaceUpdatePod_takesOut c hst
  have hd : pod.lifecycleState≠.preparingDelete := by
    obtain hst | hst := hst <;> rw [hst] <;> decide
  unfold updateTarget at hok ⊢
  rcases hr : inPlaceUpdatePod c.api c.set c.revisions pod with ⟨actions,_ | _ | _⟩ <;>
    rw [hr] at hok hip
  · cases hok
  · rw [takenOut_append]
    exact mem_append_right _ (deletePod_takesOut c hd hok)
  · exact hip rfl

end

def DistinctNames (replicas : List (Option Pod)) : Prop :=
  ∀ i j p q,slot replicas i=some p → slot replicas j=some q → p.name=q.name → i=j

theorem card_new_le {own : Finset String} {name : String} (ho : own ⊆ {name})
    (rest : Finset String) (seen : List String) :
    ((own ∪ rest) \ seen.toFinset).card ≤
      (if name∈seen then 0 else 1)+(rest \ (seen.insert name).toFinset).card := by
  have hsub : (own ∪ rest) \ seen.toFinset ⊆
      (if name∈seen then ∅ else {name}) ∪ (rest \ (seen.insert name).toFinset) := by
    intro a ha
    have hown : a∈own → a=name := fun h => Finset.mem_singleton.mp (ho h)
    split_ifs <;> simp only [Finset.mem_sdiff,Finset.mem_union,Finset.mem_singleton,List.mem_toFinset,
      List.mem_insert_iff,Finset.notMem_empty] at ha ⊢ <;> grind
  have hcard:=(Finset.card_le_card hsub).trans (Finset.card_union_le _ _)
  split_ifs at hcard ⊢ <;> exact hcard

section

variable (c : Call) (replicas : List (Option Pod)) (m : Int)

theorem rollTargets_new (targets : List Nat) (unavailable : List String) :
    ((takenOut (rollTargets c replicas m targets unavailable).actions).toFinset \
      unavailable.toFinset).card≤(m-unavailable.length).toNat := by
  induction targets generalizing unavailable with
  | nil => simp [rollTargets,Rolled.idle,takenOut]
  | cons target targets ih =>
    have hi : ((takenOut Rolled.idle.actions).toFinset \ unavailable.toFinset).card ≤
        (m-unavailable.length).toNat := by simp [Rolled.idle,takenOut]
    rw [rollTargets]
    cases hslot : slot replicas target with
    | none => exact hi
    | some pod =>
      dsimp only
      -- the pod's own requests add its name at most
      have ho : (takenOut (updateTarget c pod).1).toFinset ⊆ {pod.name} := by
        intro name hn
        rw [Finset.mem_singleton]
        exact takenOut_updateTarget c (List.mem_toFinset.mp hn)
      split_ifs with hrev hf ht he
      · exact ih unavailable
      · exact hi
      · exact ih unavailable
      · have hcard:=card_new_le ho ∅ unavailable
        rw [Finset.union_empty,Finset.empty_sdiff,Finset.card_empty] at hcard
        refine hcard.trans ?_
        split_ifs with hm
        · exact Nat.zero_le _
        · have hl : ¬(unavailable.length : Int) ≥ m := fun hge => hf ⟨hge,hm⟩
          omega
      · have hr:=ih (unavailable.insert pod.name)
        rw [takenOut_append,toFinset_append]
        refine (card_new_le ho _ unavailable).trans ?_
        split_ifs with hm
        · rw [insert_of_mem hm] at hr ⊢
          omega
        · have hl : ¬(unavailable.length : Int) ≥ m := fun hge => hf ⟨hge,hm⟩
          rw [insert_of_not_mem hm,length_cons] at hr
          rw [insert_of_not_mem hm]
          omega

/- From the last target on: one in service that is not updated is taken out before any smaller one.
-/
theorem rollTargets_order (hnames : DistinctNames replicas) {targets : List Nat}
    (hsrt : targets.Pairwise (· > ·)) (unavailable : List String) {i j : Nat} (hij : i<j)
    (hj : j∈targets) {p q : Pod} (hp : slot replicas i=some p) (hq : slot replicas j=some q)
    (hst : q.lifecycleState=.unset ∨ q.lifecycleState=.normal)
    (ht : isTerminating q=false) (hrev : getPodRevision q≠c.updateRevision)
    (htk : p.name∈takenOut (rollTargets c replicas m targets unavailable).actions) :
    q.name∈takenOut (rollTargets c replicas m targets unavailable).actions := by
  induction targets generalizing unavailable with
  | nil => cases hj
  | cons target targets ih =>
    rw [pairwise_cons] at hsrt
    have hi : p.name∉takenOut Rolled.idle.actions := not_mem_nil
    rw [rollTargets] at htk ⊢
    obtain rfl | hj := mem_cons.mp hj
    · rw [hq] at htk ⊢
      dsimp only at htk ⊢
      rw [if_neg hrev,ht] at htk ⊢
      simp only [Bool.false_eq_true,if_false] at htk ⊢
      split_ifs at htk ⊢ with hf he
      · exact absurd htk hi
      · rw [← takenOut_updateTarget c htk]
        exact htk
      · rw [takenOut_append]
        exact mem_append_left _ (updateTarget_takesOut c hst (by simpa using he))
    · have hl : j<target := hsrt.1 j hj
      cases hslot : slot replicas target with
      | none =>
        rw [hslot] at htk
        exact absurd htk hi
      | some pod =>
        rw [hslot] at htk
        -- the names of this target and of the smaller one differ
        have ho : p.name∉takenOut (updateTarget c pod).1 := by
          intro hm
          have hsame:=hnames i target p pod hp hslot (takenOut_updateTarget c hm)
          omega
        dsimp only at htk ⊢
        split_ifs at htk ⊢ with _ _ _ _
        · exact ih hsrt.2 unavailable hj htk
        · exact absurd htk hi
        · exact ih hsrt.2 unavailable hj htk
        · exact absurd htk ho
        · rw [takenOut_append] at htk ⊢
          obtain hown | hr := mem_append.mp htk
          · exact absurd hown ho
          · exact mem_append_right _ (ih hsrt.2 _ hj hr)

end

section

variable (c : Call) (replicas : List (Option Pod))

def Call.maxUnavailable : Option Int :=
  c.set.spec.updateStrategy.rollingUpdate.elim (some 1) (updateMaxUnavailable c)

def Call.partition : Int :=
  (c.set.spec.updateStrategy.rollingUpdate.bind (·.partition)).getD 0

def Call.isOrdered : Bool :=
  (c.set.spec.updateStrategy.rollingUpdate.bind (·.unorderedUpdate)).isNone

theorem refreshedState_cases {updateRevision : String} {pod : Pod} {state : CloneSet.LifecycleState}
    (h : refreshedState c.api c.set updateRevision pod=some state) : state=.updated ∨ state=.normal := by
  unfold refreshedState at h
  dsimp only at h
  split at h
  · split_ifs at h <;> cases h <;> simp
  · split_ifs at h <;> cases h <;> simp
  · split_ifs at h
    cases h
    simp
  · cases h

theorem takenOut_refreshPodState (updateRevision : String) (pod : Pod) :
    takenOut (refreshPodState c.api c.set updateRevision pod).1=[] := by
  unfold refreshPodState
  split_ifs
  · rfl
  · rfl
  · split
    · rfl
    · next state hst =>
      split
      · rfl
      · obtain rfl | rfl := refreshedState_cases c hst <;> rfl
      · rfl

theorem takenOut_refreshPods (updateRevision : String) (pods : List Pod) :
    takenOut (refreshPods c.api c.set updateRevision pods).1=[] := by
  induction pods with
  | nil => rfl
  | cons pod pods ih =>
    have hpod:=takenOut_refreshPodState c updateRevision pod
    rw [refreshPods]
    rcases hr : refreshPodState c.api c.set updateRevision pod with ⟨actions,_ | refreshed⟩ <;>
      rw [hr] at hpod
    · exact hpod
    · rw [takenOut_append,hpod,ih,append_nil]

def Call.unavailableNames : List String :=
  (((replicas.filterMap id).filter (isUnavailable c)).map (·.name)).dedup

theorem takenOut_rollingUpdate {m : Int} (hm : c.maxUnavailable=some m) (pods : List Pod) :
    takenOut (rollingUpdateStatefulsetPods c pods replicas).actions=[] ∨
      takenOut (rollingUpdateStatefulsetPods c pods replicas).actions =
        takenOut (rollTargets c replicas m (updateTargets c replicas) (c.unavailableNames replicas)).actions := by
  have href:=takenOut_refreshPods c c.updateRevision pods
  unfold rollingUpdateStatefulsetPods
  split_ifs
  · exact .inl rfl
  · rcases hr : refreshPods c.api c.set c.updateRevision pods with ⟨actions,_ | _ | _⟩ <;>
      rw [hr] at href <;> dsimp only at href ⊢
    · exact .inl href
    · rw [takenOut_append,href,nil_append]
      unfold rollReplicas
      unfold Call.maxUnavailable at hm
      dsimp only
      rw [hm]
      split_ifs
      · exact .inl rfl
      · exact .inr rfl
    · exact .inl href

variable {replicas} (hnames : DistinctNames replicas)
include hnames

theorem DistinctNames.nodup : ((replicas.filterMap id).map (·.name)).Nodup := by
  rw [filterMap_slots,map_filterMap]
  refine nodup_range.filterMap ?_
  intro i j name hi hj
  obtain ⟨p,hp,rfl⟩ := map_eq_some_iff.mp hi
  obtain ⟨q,hq,hn⟩ := map_eq_some_iff.mp hj
  exact hnames i j p q hp hq hn.symm

theorem length_unavailableNames :
    (c.unavailableNames replicas).length=(replicas.filterMap id).countP (isUnavailable c) := by
  have hnd : (((replicas.filterMap id).filter (isUnavailable c)).map (·.name)).Nodup :=
    hnames.nodup.sublist (filter_sublist.map _)
  rw [Call.unavailableNames,hnd.dedup,length_map,countP_eq_length_filter]

theorem countP_takenOut_le (taken : List String) : (replicas.filterMap id).countP (fun pod =>
        !isUnavailable c pod&&decide (pod.name∈taken)) ≤
      (taken.toFinset \ (c.unavailableNames replicas).toFinset).card := by
  let chosen:=((replicas.filterMap id).filter fun pod =>
    !isUnavailable c pod&&decide (pod.name∈taken)).map (·.name)
  have hnd : chosen.Nodup := hnames.nodup.sublist (filter_sublist.map _)
  have hsub : chosen.toFinset ⊆ taken.toFinset \ (c.unavailableNames replicas).toFinset := by
    intro name hn
    obtain ⟨pod,hpod,rfl⟩ := mem_map.mp (List.mem_toFinset.mp hn)
    obtain ⟨hm,hcho⟩ := mem_filter.mp hpod
    simp only [Bool.and_eq_true,Bool.not_eq_true',decide_eq_true_eq] at hcho
    rw [Finset.mem_sdiff,List.mem_toFinset,List.mem_toFinset,Call.unavailableNames,mem_dedup]
    refine ⟨hcho.2,fun hun => ?_⟩
    obtain ⟨other,ho,hsame⟩ := mem_map.mp hun
    obtain ⟨hl,hg⟩ := mem_filter.mp ho
    rw [inj_on_of_nodup_map hnames.nodup hl hm hsame,hcho.1] at hg
    cases hg
  calc (replicas.filterMap id).countP (fun pod =>
          !isUnavailable c pod&&decide (pod.name∈taken))
      = chosen.toFinset.card := by
        rw [toFinset_card_of_nodup hnd,length_map,countP_eq_length_filter]
    _≤_ := Finset.card_le_card hsub

theorem name_of_takenOut {m : Int} {targets : List Nat} {unavailable : List String} {i : Nat}
    {pod : Pod} (hpod : slot replicas i=some pod)
    (htk : pod.name∈takenOut (rollTargets c replicas m targets unavailable).actions) : i∈targets := by
  obtain ⟨a,ha,other,htakes,hn⟩ := mem_takenOut htk
  obtain ⟨t,ht,htch⟩ := rollTargets_actions c replicas m targets unavailable a ha
  rw [Action.touched_of_takesOut htakes] at htch
  rw [hnames i t pod other hpod htch.symm hn.symm]
  exact (rollTargets_touched c replicas m targets unavailable t ht).1

omit hnames in
theorem mem_updateTargets_ordered (ho : c.isOrdered) {i : Nat} :
    i∈updateTargets c replicas ↔ (slot replicas i).isSome ∧ c.partition ≤ i := by
  rw [Call.isOrdered,isNone_iff_eq_none] at ho
  unfold updateTargets sortPodsToUpdate
  rw [ho]
  rw [mem_filter,mem_presentIndexes,decide_eq_true_iff]
  rfl

omit hnames in
theorem pairwise_updateTargets (ho : c.isOrdered) : (updateTargets c replicas).Pairwise (· > ·) := by
  rw [Call.isOrdered,isNone_iff_eq_none] at ho
  unfold updateTargets sortPodsToUpdate
  rw [ho]
  refine (Pairwise.filter _ ?_).filter _
  rw [pairwise_reverse]
  exact pairwise_lt_range

end

theorem distinctNames_scaleWork (c : Call) (pods : List Pod) (status : Status)
    (scaleMaxUnavailable : Option Int) (hcnt : replicaCountOf c.set≤2^31) :
    DistinctNames (scaleWork c pods status scaleMaxUnavailable).1.replicas := by
  let placed (replicas : List (Option Pod)) : Prop :=
    replicas.length=replicaCountOf c.set ∧ ∀ i pod,slot replicas i=some pod → getOrdinal pod=i
  have hset : ∀ replicas (i : Nat) pod,placed replicas → getOrdinal pod=i →
      i<replicas.length → placed (replicas.set i (some pod)) := by
    intro replicas i pod hpl ho hi
    refine ⟨by rw [length_set]; exact hpl.1,?_⟩
    intro j q hq
    by_cases hij : i=j
    · subst hij
      rw [slot_set_self hi,some.injEq] at hq
      rw [← hq,ho]
    · rw [slot_set_ne _ hij] at hq
      exact hpl.2 j q hq
  have hpl : placed (scaleWork c pods status scaleMaxUnavailable).1.replicas := by
    refine scalePods_replicas c placed ?_ ?_ _ ?_
    · intro replicas i pod hpl hslot
      have hi:=lt_length_of_slot hslot
      refine hset replicas i _ hpl ((isNew_newReplica c i replicas).ordinal ?_) hi
      omega
    · intro replicas i pod hpl hslot _
      exact hset replicas i (setNormal pod) hpl (hpl.2 i pod hslot) (lt_length_of_slot hslot)
    · refine ⟨length_initialReplicas c pods,?_⟩
      intro i pod hslot
      have hi:=lt_length_of_slot hslot
      refine ordinal_of_slot c hslot ?_
      change i<(initialReplicas c pods).length at hi
      rw [length_initialReplicas] at hi
      omega
  intro i j p q hp hq hn
  have hi:=hpl.2 i p hp
  have hj:=hpl.2 j q hq
  rw [getOrdinal_congr hn,hj] at hi
  omega

/-- An update takes out at most as many available replicas as the unavailable ones leave of
`maxUnavailable`; without `unorderedUpdate` none below the partition, and none as long as a larger
one is available and not updated that it does not take out. -/
theorem rollingUpdate_within_budget (c : Call) (pods : List Pod) (replicas : List (Option Pod))
    (m : Int) (hnames : DistinctNames replicas) (hm : c.maxUnavailable=some m) :
    ((replicas.filterMap id).countP (fun pod => !isUnavailable c pod&&decide (pod.name ∈
          takenOut (rollingUpdateStatefulsetPods c pods replicas).actions)) : Int) ≤
        max 0 (m-(replicas.filterMap id).countP (isUnavailable c)) ∧
      (c.isOrdered → (∀ i pod,slot replicas i=some pod →
          pod.name∈takenOut (rollingUpdateStatefulsetPods c pods replicas).actions →
          c.partition ≤ i) ∧
        ∀ i j p q,i<j → slot replicas i=some p → slot replicas j=some q →
          isUnavailable c q=false → getPodRevision q≠c.updateRevision →
          p.name∈takenOut (rollingUpdateStatefulsetPods c pods replicas).actions →
          q.name∈takenOut (rollingUpdateStatefulsetPods c pods replicas).actions) := by
  obtain htk | htk := takenOut_rollingUpdate c replicas hm pods <;> rw [htk]
  · simp
  refine ⟨?_,fun ho => ⟨?_,?_⟩⟩
  · have hcnt:=countP_takenOut_le c hnames (takenOut (rollTargets c replicas m
      (updateTargets c replicas) (c.unavailableNames replicas)).actions)
    have hnew:=rollTargets_new c replicas m (updateTargets c replicas) (c.unavailableNames replicas)
    rw [length_unavailableNames c hnames] at hnew
    omega
  · intro i pod hpod hn
    exact ((mem_updateTargets_ordered c ho).mp (name_of_takenOut c hnames hpod hn)).2
  · intro i j p q hij hp hq hav hr hn
    have hi:=(mem_updateTargets_ordered c ho).mp (name_of_takenOut c hnames hp hn)
    have hj : j∈updateTargets c replicas :=
      (mem_updateTargets_ordered c ho).mpr ⟨by rw [hq]; rfl,by omega⟩
    simp only [isUnavailable,isHealthy,Bool.or_eq_false_iff,Bool.not_eq_false',Bool.and_eq_true,
      Bool.or_eq_true,decide_eq_true_eq,Bool.not_eq_true'] at hav
    exact rollTargets_order c replicas m hnames (pairwise_updateTargets c ho) _ hij hj hp hq
      hav.1.1.1.1 hav.1.1.2 hr hn

def rollingCall : Call :=
  { env := plainEnv
    api := plainApi
    now := 0
    set := plainSet 4 [] .orderedReady
      (some { partition := some 1
              maxUnavailable := some (.int 2)
              podUpdatePolicy := .reCreate
              paused := false
              unorderedUpdate := none
              inPlaceUpdateStrategy := none
              minReadySeconds := none}) none
    currentRevision := "web-a"
    updateRevision := "web-b"
    currentTemplate := plainTemplate
    updateTemplate := plainTemplate
    revisions := []}

def rollingPods : List Pod :=
  [plainPod "web-0" "web-a",{plainPod "web-1" "web-a" with ready := none},
    plainPod "web-2" "web-a",plainPod "web-3" "web-a"]

def rollingReplicas : List (Option Pod) :=
  (scaleWork rollingCall rollingPods (initialStatus rollingCall 0 "") none).1.replicas

theorem rollingPods_within_budget :
    takenOut (rollingUpdateStatefulsetPods rollingCall rollingPods rollingReplicas).actions = ["web-3"] ∧
      ((rollingReplicas.filterMap id).countP (fun pod => !isUnavailable rollingCall pod &&
          decide (pod.name∈takenOut (rollingUpdateStatefulsetPods rollingCall rollingPods
            rollingReplicas).actions)) : Int) ≤
        max 0 (2-(rollingReplicas.filterMap id).countP (isUnavailable rollingCall)) :=
  ⟨by decide +kernel,(rollingUpdate_within_budget rollingCall rollingPods rollingReplicas 2
    (distinctNames_scaleWork rollingCall rollingPods (initialStatus rollingCall 0 "") none
      (by decide +kernel)) (by decide)).1⟩

end Kruise.StatefulSet
