import Kruise.DaemonSet.Update

/-!
# The nodes of an update and the outcome of its loops

What `findUpdatedPodsOnNode` says about a node, which nodes are left to the update, and the two
loops in closed form.
-/

namespace Kruise.DaemonSet

open Lib.Keyed Lib.Quota List

variable {ds : DaemonSetSpec} {now : Int} {hash : String} {nodes : List Node} {pods : List Pod}

def liveNew (ds : DaemonSetSpec) (hash : String) (pods : List Pod) : List Pod :=
  pods.filter fun p => !p.terminating&&isPodUpdated ds hash p

def liveOld (ds : DaemonSetSpec) (hash : String) (pods : List Pod) : List Pod :=
  pods.filter fun p => !p.terminating&&!isPodUpdated ds hash p

theorem findUpdatedLoop_eq (newPod oldPod : Option Pod) (pods : List Pod) :
    findUpdatedLoop ds hash pods newPod oldPod =
      if (newPod.toList++liveNew ds hash pods).length≤1 ∧ (oldPod.toList++liveOld ds hash pods).length≤1 then
        some ((newPod.toList++liveNew ds hash pods).head?, (oldPod.toList++liveOld ds hash pods).head?)
      else none := by
  induction pods generalizing newPod oldPod with
  | nil => cases newPod <;> cases oldPod <;> rfl
  | cons p pods ih =>
    unfold findUpdatedLoop
    cases ht : p.terminating with
    | true => simpa [liveNew,liveOld,ht] using ih newPod oldPod
    | false =>
      cases hu : isPodUpdated ds hash p with
      | true =>
        have hn : liveNew ds hash (p::pods)=p::liveNew ds hash pods := by
          simp [liveNew,ht,hu]
        have ho : liveOld ds hash (p::pods)=liveOld ds hash pods := by
          simp [liveOld,hu]
        rw [hn,ho]
        cases newPod with
        | some q => simp
        | none => simpa using ih (some p) oldPod
      | false =>
        have hn : liveNew ds hash (p::pods)=liveNew ds hash pods := by
          simp [liveNew,hu]
        have ho : liveOld ds hash (p::pods)=p::liveOld ds hash pods := by
          simp [liveOld,ht,hu]
        rw [hn,ho]
        cases oldPod with
        | some q => simp
        | none => simpa using ih newPod (some p)

theorem findUpdatedPodsOnNode_eq (pods : List Pod) : findUpdatedPodsOnNode ds hash pods =
      if (liveNew ds hash pods).length≤1 ∧ (liveOld ds hash pods).length≤1 then
        some ((liveNew ds hash pods).head?,(liveOld ds hash pods).head?)
      else none :=
  findUpdatedLoop_eq none none pods

theorem eq_toList_head? {α : Type} {xs : List α} (h : xs.length≤1) : xs=xs.head?.toList := by
  match xs,h with
  | [],_ => rfl
  | [x],_ => rfl

variable {newPod oldPod : Option Pod}

theorem live_of_findUpdated (h : findUpdatedPodsOnNode ds hash pods=some (newPod,oldPod)) :
    liveNew ds hash pods=newPod.toList ∧ liveOld ds hash pods=oldPod.toList := by
  rw [findUpdatedPodsOnNode_eq] at h
  split_ifs at h with hl
  simp only [Option.some.injEq,Prod.mk.injEq] at h
  rw [← h.1,← h.2]
  exact ⟨eq_toList_head? hl.1,eq_toList_head? hl.2⟩

variable {p : Pod}

theorem mem_liveNew : p∈liveNew ds hash pods ↔ p∈pods ∧ p.terminating=false ∧ isPodUpdated ds hash p := by
  simp [liveNew]

theorem mem_liveOld : p∈liveOld ds hash pods ↔ p∈pods ∧ p.terminating=false ∧ isPodUpdated ds hash p=false := by
  simp [liveOld]

section

variable (h : findUpdatedPodsOnNode ds hash pods=some (newPod,oldPod))
include h

theorem mem_of_findUpdated (hp : p∈pods) (hl : p.terminating=false) : newPod=some p ∨ oldPod=some p := by
  obtain ⟨hn,ho⟩ := live_of_findUpdated h
  cases hu : isPodUpdated ds hash p with
  | true =>
    have hm:=mem_liveNew.mpr ⟨hp,hl,hu⟩
    rw [hn,Option.mem_toList] at hm
    exact .inl hm
  | false =>
    have hm:=mem_liveOld.mpr ⟨hp,hl,hu⟩
    rw [ho,Option.mem_toList] at hm
    exact .inr hm

theorem new_of_findUpdated (hp : newPod=some p) : p∈pods ∧ p.terminating=false ∧ isPodUpdated ds hash p := by
  refine mem_liveNew.mp ?_
  rw [(live_of_findUpdated h).1,hp]
  exact mem_cons_self

theorem old_of_findUpdated (hp : oldPod=some p) : p∈pods ∧ p.terminating=false ∧ isPodUpdated ds hash p=false := by
  refine mem_liveOld.mp ?_
  rw [(live_of_findUpdated h).2,hp]
  exact mem_cons_self

end

theorem mem_podsOnNode {n : String} : p∈podsOnNode pods n ↔ p∈pods ∧ p.targetNode=some n := by
  simp [podsOnNode]

theorem keys_addDesiredNode (ds : DaemonSetSpec) (m : NodePods) (node : Node) :
    (addDesiredNode ds m node).keys =
      if shouldRun ds node ∧ node.name∉m.keys then m.keys++[node.name] else m.keys := by
  unfold addDesiredNode
  by_cases h : shouldRun ds node ∧ node.name∉m.keys
  · rw [if_pos h,if_pos (by simp [h.1,h.2])]
  · rw [if_neg h,if_neg (by simpa using h)]

theorem pods_desiredNodePods : (desiredNodePods ds nodes pods).pods=podsOnNode pods := by
  refine foldlRecOn (motive := fun m : NodePods => m.pods=podsOnNode pods) nodes _ rfl ?_
  intro m hm node _
  unfold addDesiredNode
  split_ifs <;> exact hm

theorem nodup_desiredNodePods : (desiredNodePods ds nodes pods).keys.Nodup := by
  refine foldlRecOn (motive := fun m : NodePods => m.keys.Nodup) nodes _ (nodup_dedup _) ?_
  intro m hm node _
  rw [keys_addDesiredNode]
  split_ifs with h
  · refine nodup_append.mpr ⟨hm,nodup_singleton _,?_⟩
    rintro a ha b hb rfl
    exact h.2 (mem_singleton.mp hb ▸ ha)
  · exact hm

theorem mem_desiredNodePods {n : String} (hp : p∈pods) (hn : p.targetNode=some n) :
    n∈(desiredNodePods ds nodes pods).keys := by
  refine foldlRecOn (motive := fun m : NodePods => n∈m.keys) nodes _ ?_ ?_
  · exact mem_dedup.mpr (mem_filterMap.mpr ⟨p,hp,hn⟩)
  · intro m hm node _
    rw [keys_addDesiredNode]
    split_ifs
    · exact mem_append_left _ hm
    · exact hm

section

variable {m : NodePods}

theorem mem_nodesOfClass {c : NodeClass} {n : String} :
    n∈nodesOfClass ds nodes hash m c ↔ n∈m.keys ∧ nodeClass ds nodes hash m n=c := by
  simp [nodesOfClass]

theorem nodup_nodesOfClass (hm : m.keys.Nodup) (c : NodeClass) : (nodesOfClass ds nodes hash m c).Nodup := by
  have hperm : ((m.keys.insertionSort (· ≤ ·)).reverse).Perm m.keys :=
    (reverse_perm _).trans (perm_insertionSort _ _)
  exact (hperm.nodup_iff.mpr hm).filter _

theorem ne_of_mem_nodesOfClass {c d : NodeClass} (hcd : c≠d) {a b : String}
    (ha : a∈nodesOfClass ds nodes hash m c) (hb : b∈nodesOfClass ds nodes hash m d) : a≠b := by
  rintro rfl
  exact hcd ((mem_nodesOfClass.mp ha).2.symm.trans (mem_nodesOfClass.mp hb).2)

theorem filterDaemonPodsNodeToUpdate_eq (ds : DaemonSetSpec) (nodes : List Node) (hash : String) (m : NodePods) :
    ∃ (last : NodeClass) (k : Nat),(last=.selected ∨ last=.rest) ∧
      filterDaemonPodsNodeToUpdate ds nodes hash m =
        (nodesOfClass ds nodes hash m .updated++(nodesOfClass ds nodes hash m .updating ++
          nodesOfClass ds nodes hash m last)).take k := by
  unfold filterDaemonPodsNodeToUpdate
  have hl : (if (ds.rolling.bind (·.selector)).isSome then NodeClass.selected else .rest) = NodeClass.selected ∨
      (if (ds.rolling.bind (·.selector)).isSome then NodeClass.selected else .rest) = NodeClass.rest := by
    split_ifs
    · exact .inl rfl
    · exact .inr rfl
  by_cases hm : (m.keys.length : Int)-(ds.rolling.bind (·.partition)).getD 0≤0
  · exact ⟨_,0,hl,by rw [if_pos hm,take_zero]⟩
  · exact ⟨_,_,hl,by rw [if_neg hm]⟩

theorem nodup_filterDaemonPodsNodeToUpdate (hm : m.keys.Nodup) :
    (filterDaemonPodsNodeToUpdate ds nodes hash m).Nodup := by
  obtain ⟨last,k,hl,heq⟩ := filterDaemonPodsNodeToUpdate_eq ds nodes hash m
  have h1 : NodeClass.updated≠last := by
    rcases hl with rfl | rfl <;> decide
  have h2 : NodeClass.updating≠last := by
    rcases hl with rfl | rfl <;> decide
  rw [heq]
  refine Nodup.sublist (take_sublist _ _) ?_
  refine nodup_append.mpr ⟨nodup_nodesOfClass hm _,
    nodup_append.mpr ⟨nodup_nodesOfClass hm _,nodup_nodesOfClass hm _,?_⟩,?_⟩
  · exact fun a ha b hb => ne_of_mem_nodesOfClass h2 ha hb
  · intro a ha b hb
    rcases mem_append.mp hb with hb | hb
    · exact ne_of_mem_nodesOfClass (by decide) ha hb
    · exact ne_of_mem_nodesOfClass h1 ha hb

theorem updated_mem_filter {n waiting : String} (hn : n∈m.keys) (hcl : nodeClass ds nodes hash m n=.updated)
    (hw : waiting∈filterDaemonPodsNodeToUpdate ds nodes hash m)
    (hnot : nodeClass ds nodes hash m waiting≠.updated) : n∈filterDaemonPodsNodeToUpdate ds nodes hash m := by
  obtain ⟨last,k,-,heq⟩ := filterDaemonPodsNodeToUpdate_eq ds nodes hash m
  rw [heq,take_append] at hw ⊢
  rcases mem_append.mp hw with h | h
  · exact absurd (mem_nodesOfClass.mp (mem_of_mem_take h)).2 hnot
  · have hl : (nodesOfClass ds nodes hash m .updated).length≤k := by
      by_contra hlt
      rw [Nat.sub_eq_zero_of_le (by omega),take_zero] at h
      cases h
    rw [take_of_length_le hl]
    exact mem_append_left _ (mem_nodesOfClass.mpr ⟨hn,hcl⟩)

end

theorem nodup_nodesToUpdate : (nodesToUpdate ds nodes pods hash).Nodup :=
  nodup_filterDaemonPodsNodeToUpdate (nodup_desiredNodePods.filter _)

theorem mem_syncNodes {podsToDelete needing : List String} {s : String}
    (h : s∈(syncNodes ds pods podsToDelete needing).preparingDelete ∨
      s∈(syncNodes ds pods podsToDelete needing).deleted) : s∈podsToDelete := by
  rcases h with h | h
  · exact (mem_filter.mp h).1
  · exact (mem_filter.mp (mem_of_mem_take h)).1

section

variable (ds now hash pods)

def unavailableCharge (node : String) : Nat :=
  match nodeUpdate ds now hash (podsOnNode pods node) with
  | .charge n => n
  | _ => 0

def replacement (node : String) : Option String :=
  match nodeUpdate ds now hash (podsOnNode pods node) with
  | .replace oldPod => some oldPod.name
  | _ => none

def updateCandidate (node : String) : Option String :=
  match nodeUpdate ds now hash (podsOnNode pods node) with
  | .candidate oldPod => some oldPod.name
  | _ => none

variable (maxUnavailable : Int)

theorem replaceTally_quota (t : ReplaceTally) (nodeNames : List String) :
    nodeNames.foldl (turn (unavailableCharge ds now hash pods) (updateCandidate ds now hash pods)
        maxUnavailable) ⟨t.numUnavailable,t.candidatePodsToDelete⟩ =
      let after:=nodeNames.foldl (replaceTurn ds now hash pods maxUnavailable) t
      ⟨after.numUnavailable,after.candidatePodsToDelete⟩ := by
  refine foldl_hom (fun t : ReplaceTally =>
    (⟨t.numUnavailable,t.candidatePodsToDelete⟩ : Tally String)) ?_
  intro t n
  unfold turn replaceTurn updateCandidate unavailableCharge
  cases nodeUpdate ds now hash (podsOnNode pods n) with
  | charge k => rfl
  | replace p => simp
  | candidate p =>
    split_ifs <;> rfl

theorem replaceTally_allowed (t : ReplaceTally) (nodeNames : List String) :
    (nodeNames.foldl (replaceTurn ds now hash pods maxUnavailable) t).allowedReplacementPods =
      t.allowedReplacementPods++nodeNames.filterMap (replacement ds now hash pods) := by
  induction nodeNames generalizing t with
  | nil => simp
  | cons n nodeNames ih =>
    rw [foldl_cons,ih,filterMap_cons]
    unfold replaceTurn replacement
    cases nodeUpdate ds now hash (podsOnNode pods n) with
    | charge k => rfl
    | replace p => exact append_assoc _ _ _
    | candidate p =>
      split_ifs <;> rfl

theorem podsToReplace_eq (nodeNames : List String) :
    podsToReplace ds now hash pods maxUnavailable nodeNames = nodeNames.filterMap (replacement ds now hash pods) ++
        (grantees (unavailableCharge ds now hash pods) (updateCandidate ds now hash pods)
          maxUnavailable nodeNames).filterMap (updateCandidate ds now hash pods) := by
  have hcost : ∀ n,(updateCandidate ds now hash pods n).isSome → unavailableCharge ds now hash pods n=0 := by
    intro n hn
    unfold updateCandidate at hn
    unfold unavailableCharge
    cases hu : nodeUpdate ds now hash (podsOnNode pods n) with
    | charge k => simp [hu] at hn
    | replace p => rfl
    | candidate p => rfl
  have hq:=replaceTally_quota ds now hash pods maxUnavailable ⟨0,[],[]⟩ nodeNames
  have ha:=replaceTally_allowed ds now hash pods maxUnavailable ⟨0,[],[]⟩ nodeNames
  rw [nil_append] at ha
  rw [← granted_foldl hcost,hq,← ha]
  rfl

end

end Kruise.DaemonSet
