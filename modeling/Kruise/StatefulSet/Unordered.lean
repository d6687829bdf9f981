import Kruise.StatefulSet.Requests

/-!
# The partition of an unordered update

The partition is a number of pods: a new pod gets the current revision while fewer than that many of
the others are not updated (`stateful_set_utils.go:461-500`), and the rolling update leaves that
many of the replicas alone (`stateful_update_utils.go:27-75`).
-/

namespace Kruise.StatefulSet

open Lib.Counting Lib.Loop Lib.Slots List
open CloneSet (getShortHash)
open UpdateSort (prioritySort prioritySort_perm)

def IsUnordered (set : Sts) (partition : Nat) : Prop :=
  set.spec.updateStrategy.type=.rollingUpdate ∧
    ∃ rolling,set.spec.updateStrategy.rollingUpdate=some rolling ∧
      rolling.unorderedUpdate.isSome ∧ rolling.partition=some (partition : Int)

variable {partition : Nat} {pod : Pod}

section

variable (c : Call)

def Call.notUpdated : Option Pod → Bool := StatefulSet.notUpdated c.env c.updateRevision

theorem Call.notUpdated_none : c.notUpdated none=false := rfl

/- A new pod of the current revision counts as updated when the revisions are the same, or the
template has it prepare for an update. -/
def newCountsAsUpdated : Bool :=
  (c.env.preparingUpdateAsUpdate &&
      lifecycleStateOf c.currentTemplate.labels=.preparingUpdate) ||
    (c.currentRevision=c.updateRevision ||
      getShortHash c.updateRevision=getShortHash c.currentRevision)

def newCurrentPod (ordinal : Nat) : Pod :=
  setPodRevision (newStatefulSetPod c.currentSet ordinal) c.currentRevision

def newUpdatePod (ordinal : Nat) : Pod :=
  setPodRevision (newStatefulSetPod c.updateSet ordinal) c.updateRevision

theorem notUpdated_newCurrentPod (ordinal : Nat) :
    c.notUpdated (some (newCurrentPod c ordinal)) = !newCountsAsUpdated c := rfl

theorem notUpdated_of_revision (h : getPodRevision pod=c.updateRevision) : c.notUpdated (some pod)=false := by
  have hr : pod.revisionHash=c.updateRevision := h
  simp [Call.notUpdated,notUpdated,CloneSet.isPodUpdate,CloneSet.equalToRevisionHash,hr]

variable {c}

theorem newReplica_unordered (h : IsUnordered c.set partition) (ordinal : Nat) (replicas : List (Option Pod)) :
    newReplica c ordinal replicas =
      if countOthers c.notUpdated ordinal replicas<partition then newCurrentPod c ordinal
      else newUpdatePod c ordinal := by
  obtain ⟨ht,rolling,hr,hunordered,hpart⟩ := h
  have hnone : rolling.unorderedUpdate.isNone=false := by
    rw [← Option.not_isSome,hunordered]
    rfl
  have hn : isCurrentRevisionNeeded c.env c.updateRevision c.currentSet ordinal replicas =
      decide (countOthers c.notUpdated ordinal replicas<partition) := by
    unfold isCurrentRevisionNeeded
    rw [show c.currentSet.spec.updateStrategy=c.set.spec.updateStrategy from rfl,ht,hr]
    simp only [hpart,hnone,Option.getD_some,ne_eq,not_true_eq_false,if_false, Bool.false_eq_true,Nat.cast_lt]
    rfl
  unfold newReplica newVersionedStatefulSetPod
  simp only [hn,decide_eq_true_eq]
  rfl

theorem notUpdated_newReplica (h : IsUnordered c.set partition) (ordinal : Nat) (replicas : List (Option Pod)) :
    c.notUpdated (some (newReplica c ordinal replicas)) =
      (decide (countOthers c.notUpdated ordinal replicas<partition)&&!newCountsAsUpdated c) := by
  rw [newReplica_unordered h]
  split_ifs with hlt
  · rw [notUpdated_newCurrentPod,decide_eq_true hlt,Bool.true_and]
  · rw [notUpdated_of_revision c rfl,decide_eq_false hlt,Bool.false_and]

/- After `missing` new replicas have joined `existing`. -/
def notUpdatedAfter (c : Call) (partition existing missing : Nat) : Nat :=
  if newCountsAsUpdated c then existing else max existing (min partition (existing+missing))

theorem notUpdatedAfter_step (existing missing : Nat) : notUpdatedAfter c partition
        (existing+if existing<partition ∧ newCountsAsUpdated c=false then 1 else 0) missing =
      notUpdatedAfter c partition existing (missing+1) := by
  unfold notUpdatedAfter
  cases newCountsAsUpdated c with
  | true => simp
  | false =>
    simp only [and_true,Bool.false_eq_true,if_false]
    split_ifs with hlt <;> omega

def isMissing (set : Sts) (replicas : List (Option Pod)) (ordinal : Nat) : Bool :=
  !isReserved set ordinal&&(slot replicas ordinal).isNone

variable {replicas : List (Option Pod)} {ordinal : Nat}

theorem fillReplica_of_missing (h : isMissing c.set replicas ordinal) :
    slot replicas ordinal=none ∧ fillReplica c replicas ordinal =
      replicas.set ordinal (some (newReplica c ordinal replicas)) := by
  simp only [isMissing,Bool.and_eq_true,Bool.not_eq_true',Option.isNone_iff_eq_none] at h
  obtain ⟨-,hcase⟩ | ⟨-,hn,heq⟩ := fillReplica_cases c replicas ordinal
  · simp [h] at hcase
  · exact ⟨hn,heq⟩

theorem fillReplica_of_not_missing (h : isMissing c.set replicas ordinal=false) :
    fillReplica c replicas ordinal=replicas := by
  obtain ⟨heq,-⟩ | ⟨hr,hn,-⟩ := fillReplica_cases c replicas ordinal
  · exact heq
  · simp [isMissing,hr,hn] at h

theorem countP_fillReplica (h : IsUnordered c.set partition) (hlt : ordinal<replicas.length)
    (hm : isMissing c.set replicas ordinal) :
    (fillReplica c replicas ordinal).countP c.notUpdated=replicas.countP c.notUpdated +
        if replicas.countP c.notUpdated<partition ∧ newCountsAsUpdated c=false then 1
        else 0 := by
  obtain ⟨hn,heq⟩ := fillReplica_of_missing hm
  have ho:=countOthers_add c.notUpdated c.notUpdated_none replicas ordinal
  rw [hn,c.notUpdated_none] at ho
  have ho : countOthers c.notUpdated ordinal replicas=replicas.countP c.notUpdated := ho
  rw [heq,countP_set c.notUpdated c.notUpdated_none hlt,notUpdated_newReplica h,ho]
  simp

theorem countP_fillReplicas (h : IsUnordered c.set partition) {ordinals : List Nat}
    (hnd : ordinals.Nodup) (hlt : ∀ ordinal∈ordinals,ordinal<replicas.length) :
    (fillReplicas c ordinals replicas).countP c.notUpdated =
      notUpdatedAfter c partition (replicas.countP c.notUpdated) (ordinals.countP (isMissing c.set replicas)) := by
  induction ordinals generalizing replicas with
  | nil =>
    unfold notUpdatedAfter
    split_ifs
    · rfl
    · exact (max_eq_left (min_le_right _ _)).symm
  | cons ordinal ordinals ih =>
    obtain ⟨hn,hnd⟩ := nodup_cons.mp hnd
    have hr : ∀ o∈ordinals,o<(fillReplica c replicas ordinal).length := by
      intro o ho
      rw [length_fillReplica]
      exact hlt o (mem_cons_of_mem ordinal ho)
    -- filling this ordinal changes no other slot
    have hsame : ordinals.countP (isMissing c.set (fillReplica c replicas ordinal)) =
        ordinals.countP (isMissing c.set replicas) := by
      apply countP_congr
      intro o ho
      have hne : ordinal≠o := fun heq => hn (heq ▸ ho)
      rw [isMissing,isMissing,slot_fillReplica_ne c hne]
    rw [fillReplicas_cons,ih hnd hr,hsame,countP_cons]
    cases hm : isMissing c.set replicas ordinal with
    | false => rw [fillReplica_of_not_missing hm]; rfl
    | true =>
      rw [countP_fillReplica h (hlt ordinal mem_cons_self) hm,notUpdatedAfter_step]
      rfl

def existingNotUpdated (c : Call) (pods : List Pod) : Nat :=
  (placeReplicas c.set pods).countP c.notUpdated

def missingReplicas (c : Call) (pods : List Pod) : Nat :=
  (range (replicaCountOf c.set)).countP (isMissing c.set (placeReplicas c.set pods))

theorem countP_initialReplicas (h : IsUnordered c.set partition) (pods : List Pod) :
    (initialReplicas c pods).countP c.notUpdated =
      notUpdatedAfter c partition (existingNotUpdated c pods) (missingReplicas c pods) := by
  refine countP_fillReplicas h nodup_range ?_
  intro ordinal ho
  rw [length_placeReplicas]
  exact mem_range.mp ho

end

section

variable {c : Call}

structure Occupied (set : Sts) (replicas : List (Option Pod)) : Prop where
  length : replicas.length=replicaCountOf set
  present : ∀ i,(slot replicas i).isSome=isValidOrdinal set i

variable {replicas : List (Option Pod)} {i : Nat}

theorem Occupied.set_slot {set : Sts} (h : Occupied set replicas) {old : Pod}
    (hslot : slot replicas i=some old) (pod : Pod) : Occupied set (replicas.set i (some pod)) where
  length := by rw [length_set,h.length]
  present := by
    intro j
    by_cases hij : i=j
    · subst hij
      rw [← h.present i,slot_set_self (lt_length_of_slot hslot),hslot]
      rfl
    · rw [slot_set_ne replicas hij,h.present]

theorem occupied_initialReplicas (c : Call) (pods : List Pod) : Occupied c.set (initialReplicas c pods) where
  length := length_initialReplicas c pods
  present := by
    intro i
    cases hval : isValidOrdinal c.set i with
    | true =>
      cases hpod : podAt pods i with
      | some pod => rw [slot_initialReplicas_listed c hval hpod]; rfl
      | none =>
        obtain ⟨pod,hslot,-⟩ := slot_initialReplicas_new c hval hpod
        rw [hslot]
        rfl
    | false =>
      cases hslot : slot (initialReplicas c pods) i with
      | none => rfl
      | some pod =>
        rw [valid_of_slot_initialReplicas c hslot] at hval
        cases hval

/- A replica not created yet has the update revision, or those not updated are within the partition.
-/
def NewWithinPartition (c : Call) (partition : Nat) (replicas : List (Option Pod)) : Prop :=
  ∀ i pod,slot replicas i=some pod → isCreated pod=false →
    getPodRevision pod=c.updateRevision ∨
      (c.notUpdated (some pod) ∧ replicas.countP c.notUpdated≤partition)

theorem NewWithinPartition.set_slot (h : NewWithinPartition c partition replicas)
    (hlt : i<replicas.length) (pod : Pod) (hpod : getPodRevision pod=c.updateRevision ∨
      (c.notUpdated (some pod) ∧ countOthers c.notUpdated i replicas<partition))
    (hcnt : replicas.countP c.notUpdated≤partition → (replicas.set i (some pod)).countP c.notUpdated≤partition) :
    NewWithinPartition c partition (replicas.set i (some pod)) := by
  intro j q hq hcreated
  by_cases hij : i=j
  · subst hij
    rw [slot_set_self hlt,Option.some.injEq] at hq
    subst hq
    refine hpod.imp_right ?_
    intro ⟨hwt,ho⟩
    refine ⟨hwt,?_⟩
    rw [countP_set c.notUpdated c.notUpdated_none hlt,hwt]
    exact ho
  · rw [slot_set_ne replicas hij] at hq
    exact (h j q hq hcreated).imp_right fun ⟨hwt,hwi⟩ => ⟨hwt,hcnt hwi⟩

/- The state label that a creation sets may only make a pod count as not updated, by its revision.
-/
theorem notUpdated_setNormal (h : c.notUpdated (some pod)) : c.notUpdated (some (setNormal pod)) := by
  simp only [Call.notUpdated,notUpdated,Option.any_some,CloneSet.isPodUpdate,Bool.not_eq_true',
    Bool.or_eq_false_iff] at h ⊢
  refine ⟨?_,h.2⟩
  rw [Bool.and_eq_false_iff]
  exact .inr rfl

theorem NewWithinPartition.set_normal (h : NewWithinPartition c partition replicas)
    (hslot : slot replicas i=some pod) (hcreated : isCreated pod=false) :
    NewWithinPartition c partition (replicas.set i (some (setNormal pod))) := by
  have hlt:=lt_length_of_slot hslot
  have ho:=countOthers_add c.notUpdated c.notUpdated_none replicas i
  rw [hslot] at ho
  have hcnt:=countP_set c.notUpdated c.notUpdated_none hlt (some (setNormal pod))
  obtain hr | ⟨hwt,hwi⟩ := h i pod hslot hcreated
  · have hn : getPodRevision (setNormal pod)=c.updateRevision := hr
    apply h.set_slot hlt (setNormal pod) (.inl hn)
    rw [hcnt,notUpdated_of_revision c hn]
    simp only [Bool.false_eq_true,if_false]
    omega
  · have hwt':=notUpdated_setNormal hwt
    rw [hwt,if_pos rfl] at ho
    apply h.set_slot hlt (setNormal pod) (.inr ⟨hwt',by omega⟩)
    rw [hcnt,hwt',if_pos rfl]
    omega

variable (hunordered : IsUnordered c.set partition)
variable (hsame : newCountsAsUpdated c → c.currentRevision=c.updateRevision)
include hunordered hsame

theorem newReplica_within (i : Nat) (replicas : List (Option Pod)) :
    getPodRevision (newReplica c i replicas)=c.updateRevision ∨
      (c.notUpdated (some (newReplica c i replicas)) ∧ countOthers c.notUpdated i replicas<partition) := by
  rw [newReplica_unordered hunordered]
  split_ifs with hlt
  · cases hn : newCountsAsUpdated c with
    | true => exact .inl (hsame hn)
    | false => exact .inr ⟨by rw [notUpdated_newCurrentPod,hn]; rfl,hlt⟩
  · exact .inl rfl

theorem NewWithinPartition.set_new (h : NewWithinPartition c partition replicas) (hlt : i<replicas.length) :
    NewWithinPartition c partition (replicas.set i (some (newReplica c i replicas))) := by
  apply h.set_slot hlt _ (newReplica_within hunordered hsame i replicas)
  intro hwi
  have ho:=countOthers_add c.notUpdated c.notUpdated_none replicas i
  rw [countP_set c.notUpdated c.notUpdated_none hlt]
  cases hn : c.notUpdated (some (newReplica c i replicas)) with
  | false => simp only [Bool.false_eq_true,if_false]; omega
  | true =>
    rw [notUpdated_newReplica hunordered,Bool.and_eq_true,decide_eq_true_eq] at hn
    exact hn.1

theorem newWithinPartition_initialReplicas {pods : List Pod} (hcreated : ∀ pod∈pods,isCreated pod) :
    NewWithinPartition c partition (initialReplicas c pods) := by
  have hpl : NewWithinPartition c partition (placeReplicas c.set pods) := by
    intro i pod hslot hn
    rw [slot_placeReplicas] at hslot
    split_ifs at hslot
    rw [hcreated pod (podAt_mem hslot)] at hn
    cases hn
  refine (foldlRecOn (motive := fun r => NewWithinPartition c partition r ∧ r.length=replicaCountOf c.set)
    (range (replicaCountOf c.set)) (fillReplica c) ⟨hpl,length_placeReplicas c.set pods⟩ ?_).1
  rintro replicas ⟨h,hl⟩ ordinal ho
  refine ⟨?_,by rw [length_fillReplica,hl]⟩
  obtain ⟨heq,-⟩ | ⟨-,-,heq⟩ := fillReplica_cases c replicas ordinal
  · rw [heq]
    exact h
  · rw [heq]
    exact h.set_new hunordered hsame (hl ▸ mem_range.mp ho)

omit hunordered hsame in
theorem occupied_scaleWork (c : Call) (pods : List Pod) (status : Status) (scaleMaxUnavailable : Option Int) :
    Occupied c.set (scaleWork c pods status scaleMaxUnavailable).1.replicas := by
  apply scalePods_replicas c (Occupied c.set)
  · exact fun replicas i pod h hslot => h.set_slot hslot _
  · exact fun replicas i pod h hslot _ => h.set_slot hslot _
  · exact occupied_initialReplicas c pods

theorem newWithinPartition_scaleWork {pods : List Pod} (hcreated : ∀ pod∈pods,isCreated pod) (status : Status)
    (scaleMaxUnavailable : Option Int) :
    NewWithinPartition c partition (scaleWork c pods status scaleMaxUnavailable).1.replicas := by
  apply scalePods_replicas c (NewWithinPartition c partition)
  · exact fun replicas i pod h hslot => h.set_new hunordered hsame (lt_length_of_slot hslot)
  · exact fun replicas i pod h hslot => h.set_normal hslot
  · exact newWithinPartition_initialReplicas hunordered hsame hcreated

end

section

variable (c : Call) (replicas : List (Option Pod))

def Call.updated : List Nat := updatedIdxs c.env c.updateRevision replicas

def Call.waiting : List Nat := waitUpdateIdxs c.env c.updateRevision replicas

theorem nodup_presentIndexes : (presentIndexes replicas).Nodup :=
  (nodup_reverse.mpr nodup_range).filter _

theorem mem_presentIndexes {i : Nat} : i∈presentIndexes replicas ↔ (slot replicas i).isSome := by
  unfold presentIndexes
  rw [mem_filter,mem_reverse,mem_range]
  refine and_iff_right_of_imp fun hsome => ?_
  obtain ⟨pod,hpod⟩ := Option.isSome_iff_exists.mp hsome
  exact lt_length_of_slot hpod

theorem waiting_eq : c.waiting replicas=(presentIndexes replicas).filter fun i =>
    !((slot replicas i).any (countsAsUpdated c.env c.updateRevision)) := by
  apply filter_congr
  intro i hi
  obtain ⟨pod,hpod⟩ := Option.isSome_iff_exists.mp ((mem_presentIndexes replicas).mp hi)
  rw [hpod]
  rfl

theorem updated_append_waiting : (c.updated replicas++c.waiting replicas).Perm (presentIndexes replicas) := by
  rw [waiting_eq]
  exact filter_append_perm _ _

theorem length_presentIndexes {replicas : List (Option Pod)} (h : Occupied c.set replicas) :
    (presentIndexes replicas).length=(replicasOf c.set).toNat := by
  rw [← validBelow_replicaCountOf,validBelow,presentIndexes,← countP_eq_length_filter, countP_reverse,h.length]
  apply countP_congr
  intro i hi
  rw [h.present,isValidOrdinal,decide_eq_true (mem_range.mp hi),Bool.true_and]

theorem length_waiting_le : (c.waiting replicas).length≤replicas.countP c.notUpdated := by
  rw [countP_slots,Call.waiting,waitUpdateIdxs,presentIndexes,filter_filter,
    ← countP_eq_length_filter,countP_reverse]
  apply countP_mono_left
  intro i _ hi
  rw [Bool.and_eq_true] at hi
  obtain ⟨pod,hpod⟩ := Option.isSome_iff_exists.mp hi.2
  have hwt:=hi.1
  rw [hpod,Option.any_some,countsAsUpdated,Bool.not_or,Bool.and_eq_true] at hwt
  rw [hpod]
  exact hwt.2

/- First the replicas that count as updated, then those that wait, as many as there are replicas
beyond the partition. -/
theorem updateTargets_unordered (h : IsUnordered c.set partition) :
    ∃ sorted,sorted.Perm (c.waiting replicas) ∧ updateTargets c replicas =
      (c.updated replicas++sorted).take (replicasOf c.set-partition).toNat := by
  obtain ⟨-,rolling,hr,hunordered,hpart⟩ := h
  obtain ⟨unordered,hstrategy⟩ := Option.isSome_iff_exists.mp hunordered
  refine ⟨prioritySort unordered.priorityStrategy (labelsAt replicas) (c.waiting replicas),
    prioritySort_perm _ _ _,?_⟩
  unfold updateTargets sortPodsToUpdate
  simp only [hr,Option.bind_some,hstrategy,hpart,Option.getD_some]
  split_ifs with hle
  · rw [Int.toNat_of_nonpos hle,take_zero]
  · rfl

theorem untouched_waiting (h : IsUnordered c.set partition) {replicas : List (Option Pod)}
    (ho : Occupied c.set replicas) {touched : List Nat} (htch : ∀ t∈touched,t∈updateTargets c replicas) :
    min partition (c.waiting replicas).length ≤ ((c.waiting replicas).filter (· ∉ touched)).length := by
  obtain ⟨sorted,hperm,htargets⟩ := updateTargets_unordered c replicas h
  have ha : (c.updated replicas++sorted).Perm (presentIndexes replicas) :=
    (hperm.append_left _).trans (updated_append_waiting c replicas)
  have hlen : (c.updated replicas).length+sorted.length=(replicasOf c.set).toNat := by
    rw [← length_append,ha.length_eq,length_presentIndexes c ho]
  have hl:=le_length_filter_not_mem_take (ha.nodup_iff.mpr (nodup_presentIndexes replicas))
    (replicasOf c.set-partition).toNat
  rw [← htargets] at hl
  calc min partition (c.waiting replicas).length
      ≤ sorted.length-((replicasOf c.set-partition).toNat-(c.updated replicas).length) := by
        rw [← hperm.length_eq]
        omega
    _≤(sorted.filter (· ∉ updateTargets c replicas)).length := hl
    _≤(sorted.filter (· ∉ touched)).length := by
        rw [← countP_eq_length_filter,← countP_eq_length_filter]
        apply countP_mono_left
        intro t _ ht
        rw [decide_eq_true_eq] at ht ⊢
        exact fun hm => ht (htch t hm)
    _=((c.waiting replicas).filter (· ∉ touched)).length := (hperm.filter _).length_eq

theorem not_target_of_within (h : IsUnordered c.set partition) {replicas : List (Option Pod)}
    (ho : Occupied c.set replicas) (hwi : replicas.countP c.notUpdated≤partition)
    {t : Nat} (hslot : slot replicas t=some pod) (hn : countsAsUpdated c.env c.updateRevision pod=false) :
    t∉updateTargets c replicas := by
  intro hm
  obtain ⟨sorted,hperm,ht⟩ := updateTargets_unordered c replicas h
  have hw:=length_waiting_le c replicas
  have hl : (c.updated replicas).length+(c.waiting replicas).length = (replicasOf c.set).toNat := by
    rw [← length_append,(updated_append_waiting c replicas).length_eq,length_presentIndexes c ho]
  rw [ht,take_append_of_le_length (by omega)] at hm
  have hu:=(mem_filter.mp (mem_of_mem_take hm)).2
  rw [hslot,Option.any_some,hn] at hu
  cases hu

end

section

variable {c : Call} {pods : List Pod}
variable (hunordered : IsUnordered c.set partition)
variable (hsame : newCountsAsUpdated c → c.currentRevision=c.updateRevision)
variable (hcreated : ∀ pod∈pods,isCreated pod)
include hunordered hsame hcreated

theorem touched_isCreated (status : Status) (scaleMaxUnavailable : Option Int) {t : Nat}
    (ht : t∈(rollingUpdateStatefulsetPods c pods (scaleWork c pods status scaleMaxUnavailable).1.replicas).touched)
    (hslot : slot (scaleWork c pods status scaleMaxUnavailable).1.replicas t=some pod) : isCreated pod := by
  obtain ⟨htgt,q,htch⟩ := rollingUpdate_touched c pods _ t ht
  have hq : q=pod := Option.some.inj (htch.slot.symm.trans hslot)
  subst hq
  cases hn : isCreated q with
  | true => rfl
  | false =>
    obtain hr | ⟨hwt,hwi⟩ := newWithinPartition_scaleWork hunordered hsame hcreated
      status scaleMaxUnavailable t q hslot hn
    · exact absurd hr htch.revision
    · have hcnts : countsAsUpdated c.env c.updateRevision q=false := by
        rw [countsAsUpdated,htch.notTerminating,Bool.false_or]
        simpa [Call.notUpdated,notUpdated] using hwt
      exact absurd htgt (not_target_of_within c hunordered
        (occupied_scaleWork c pods status scaleMaxUnavailable) hwi hslot hcnts)

theorem rolling_touches (status : Status) (scaleMaxUnavailable : Option Int) :
    TouchesCreated (rollingUpdateStatefulsetPods c pods
      (scaleWork c pods status scaleMaxUnavailable).1.replicas).actions := by
  intro a ha pod hpod
  obtain ⟨listed,hl,state,rfl⟩ | ⟨t,ht,htch⟩ := rollingUpdate_actions c pods _ a ha
  · cases hpod
    exact hcreated pod hl
  · rw [hpod] at htch
    exact touched_isCreated hunordered hsame hcreated status scaleMaxUnavailable ht htch.symm

theorem run_touches (collisionCount : Int) (labelSelector : String) :
    TouchesCreated (c.run collisionCount labelSelector pods).actions := by
  have hn : TouchesCreated [] := fun a ha => absurd ha not_mem_nil
  have hcond : ∀ pod∈c.api.sortCondemned (condemnedPods c.set pods),isCreated pod := by
    intro pod hpod
    have hl:=(c.api.sorted (condemnedPods c.set pods)).perm.mem_iff.mp hpod
    exact hcreated pod (mem_of_mem_filter hl)
  refine run_rule c (P := fun r => TouchesCreated r.actions) hn (fun m => (After.always
    (P := fun w => TouchesCreated w.actions ∧ TouchesCreated (finishUpdate c pods w).actions)).mpr ?_)
    (fun w h => h.2) (fun w h => h.2) (fun w err h => h.1)
  have hsc : TouchesCreated
      (scaleWork c pods (initialStatus c collisionCount labelSelector) m).1.actions :=
    scalePods_touches c hcond hn
  refine ⟨hsc,?_⟩
  unfold finishUpdate
  split_ifs
  · exact hsc
  · exact hsc.append (rolling_touches hunordered hsame hcreated _ m)

end

/- New pods fill up the partition, unless they count as updated anyway; the rolling update leaves as
many of the waiting replicas as the partition says; and no replica is deleted or updated in place
before it has been created, unless the template has new pods count as updated. -/
theorem unorderedUpdate_within_partition (c : Call) (partition : Nat) (pods : List Pod)
    (hunordered : IsUnordered c.set partition) :
    ((initialReplicas c pods).countP c.notUpdated =
        if newCountsAsUpdated c then existingNotUpdated c pods
        else max (existingNotUpdated c pods) (min partition (existingNotUpdated c pods+missingReplicas c pods))) ∧
      (∀ status scaleMaxUnavailable,
        let replicas:=(scaleWork c pods status scaleMaxUnavailable).1.replicas
        min partition (c.waiting replicas).length≤((c.waiting replicas).filter
          (· ∉ (rollingUpdateStatefulsetPods c pods replicas).touched)).length) ∧
      ((newCountsAsUpdated c → c.currentRevision=c.updateRevision) →
        (∀ pod∈pods,isCreated pod) → (∀ status scaleMaxUnavailable,
            let replicas:=(scaleWork c pods status scaleMaxUnavailable).1.replicas
            ∀ t∈(rollingUpdateStatefulsetPods c pods replicas).touched,
              ∀ pod,slot replicas t=some pod → isCreated pod) ∧
          ∀ collisionCount labelSelector, TouchesCreated (c.run collisionCount labelSelector pods).actions) := by
  refine ⟨countP_initialReplicas hunordered pods,?_,?_⟩
  · intro status scaleMaxUnavailable
    apply untouched_waiting c hunordered (occupied_scaleWork c pods status scaleMaxUnavailable)
    intro t ht
    exact (rollingUpdate_touched c pods _ t ht).1
  · intro hsame hcreated
    refine ⟨?_,run_touches hunordered hsame hcreated⟩
    intro status scaleMaxUnavailable replicas t ht pod hslot
    exact touched_isCreated hunordered hsame hcreated status scaleMaxUnavailable ht hslot

def unorderedSet (replicas partition : Int)
    (scaleStrategy : Option Apis.V1beta1.StatefulSetScaleStrategy) : Sts :=
  plainSet replicas [] .parallel
    (some { partition := some partition
            maxUnavailable := none
            podUpdatePolicy := .reCreate
            paused := false
            unorderedUpdate := some ⟨none⟩
            inPlaceUpdateStrategy := none
            minReadySeconds := none}) scaleStrategy

def unorderedCall (updateRevision : String) : Call :=
  ⟨plainEnv,plainApi,0,unorderedSet 3 2 none, "web-a",updateRevision,plainTemplate,
    plainTemplate,[]⟩

theorem unorderedCall_within_partition :
    (initialReplicas (unorderedCall "web-b") [plainPod "web-1" "web-b"]).countP
        (unorderedCall "web-b").notUpdated=2 ∧
      TouchesCreated ((unorderedCall "web-b").run 0 "" [plainPod "web-1" "web-b"]).actions := by
  have h:=unorderedUpdate_within_partition (unorderedCall "web-b") 2 [plainPod "web-1" "web-b"] ⟨rfl,_,rfl,rfl,rfl⟩
  refine ⟨h.1.trans (by decide +kernel),(h.2.2 (by decide +kernel) ?_).2 0 ""⟩
  intro pod hpod
  rw [mem_singleton.mp hpod]
  rfl

/- The template carries the label of a pod that prepares for an update. -/
def preparingCall : Call :=
  {unorderedCall "web-b" with
    env := {plainEnv with preparingUpdateAsUpdate := true}
    set := unorderedSet 2 1 (some ⟨some (.int 1)⟩)
    currentTemplate := {plainTemplate with
      labels := setLabel plainTemplate.labels "lifecycle.apps.kruise.io/state" "PreparingUpdate" }}

/- Three new pods that count as updated do not fill up the partition, and the call asks to delete a
pod that it did not create. -/
theorem new_pods_count_as_updated :
    (IsUnordered (unorderedCall "web-a").set 2 ∧
        (initialReplicas (unorderedCall "web-a") []).countP (unorderedCall "web-a").notUpdated ≠
          max (existingNotUpdated (unorderedCall "web-a") [])
            (min 2 (existingNotUpdated (unorderedCall "web-a") [] + missingReplicas (unorderedCall "web-a") []))) ∧
      IsUnordered preparingCall.set 1 ∧ (preparingCall.run 0 "" []).actions.any
          (fun a => a.touched.any fun pod => !isCreated pod) :=
  ⟨⟨⟨rfl,_,rfl,rfl,rfl⟩,by decide +kernel⟩,⟨rfl,_,rfl,rfl,rfl⟩,by decide +kernel⟩

end Kruise.StatefulSet
