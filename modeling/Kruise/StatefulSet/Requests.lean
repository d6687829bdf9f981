import Kruise.StatefulSet.Replicas

/-!
# Requests of the StatefulSet controller

Which pods each part of `updateStatefulSet` asks to delete, to patch or to update in place.
-/

namespace Kruise.StatefulSet

open Lib.Loop Lib.Slots List

/- The pod that is deleted, patched or updated in place. -/
def Action.touched : Action → Option Pod
  | .delete pod | .lifecycle pod _ | .inPlaceUpdate pod => some pod
  | .create _ _ | .update _ | .updateClaims _ => none

section

variable (api : Api) (set : Sts)

variable (rolling : Apis.V1beta1.RollingUpdateStatefulSetStrategy setParts) (pod : Pod)

theorem deletePod_actions :
    (deletePod api set pod).1=[] ∨ (deletePod api set pod).1=[.delete pod] ∨
      (deletePod api set pod).1=[.lifecycle pod .preparingDelete] := by
  unfold deletePod
  dsimp only
  split_ifs
  · split
    · exact .inl rfl
    · exact .inr (.inr rfl)
    · exact .inl rfl
  · exact .inr (.inl rfl)
  · exact .inr (.inl rfl)

theorem deletePod_touched : ∀ a∈(deletePod api set pod).1,a.touched=some pod := by
  intro a ha
  obtain h | h | h := deletePod_actions api set pod
  · rw [h] at ha
    cases ha
  · rw [h,mem_singleton] at ha
    rw [ha]
    rfl
  · rw [h,mem_singleton] at ha
    rw [ha]
    rfl

theorem refreshPodState_actions (updateRevision : String) (pod : Pod) :
    (refreshPodState api set updateRevision pod).1=[] ∨
      ∃ state,(refreshPodState api set updateRevision pod).1=[.lifecycle pod state] := by
  unfold refreshPodState
  split_ifs
  · exact .inl rfl
  · exact .inl rfl
  · split
    · exact .inl rfl
    · split
      · exact .inl rfl
      · exact .inr ⟨_,rfl⟩
      · exact .inl rfl

theorem refreshPods_actions (updateRevision : String) (pods : List Pod) :
    ∀ a∈(refreshPods api set updateRevision pods).1,∃ pod∈pods,∃ state, a=.lifecycle pod state := by
  induction pods with
  | nil => intro a ha; cases ha
  | cons pod pods ih =>
    intro a ha
    have hpod : a∈(refreshPodState api set updateRevision pod).1 →
        ∃ q∈pod::pods,∃ state,a=.lifecycle q state := by
      intro hm
      obtain h | ⟨state,h⟩ := refreshPodState_actions api set updateRevision pod
      · rw [h] at hm
        cases hm
      · rw [h,mem_singleton] at hm
        exact ⟨pod,mem_cons_self,state,hm⟩
    rw [refreshPods] at ha
    rcases hr : refreshPodState api set updateRevision pod with ⟨actions,_ | refreshed⟩
    · rw [hr] at ha hpod
      exact hpod ha
    · rw [hr] at ha hpod
      obtain hm | hm := mem_append.mp ha
      · exact hpod hm
      · obtain ⟨q,hq,state,heq⟩ := ih a hm
        exact ⟨q,mem_cons_of_mem pod hq,state,heq⟩

theorem patchedTo_touched (state : CloneSet.LifecycleState) (patched : Option Bool) :
    ∀ a∈(patchedTo pod state patched).1,a.touched=some pod := by
  intro a ha
  match patched with
  | none => cases ha
  | some false => cases ha
  | some true =>
    rw [mem_singleton.mp ha]
    rfl

theorem backOff_actions : (backOff rolling).1=[] := by
  unfold backOff
  split_ifs <;> rfl

theorem updateInPlace_touched : ∀ a∈(updateInPlace api rolling pod).1,a.touched=some pod := by
  intro a ha
  unfold updateInPlace at ha
  split at ha
  · rw [mem_singleton.mp ha]
    rfl
  · rw [mem_singleton.mp ha]
    rfl
  · rw [backOff_actions] at ha
    cases ha

theorem updateInPlaceByState_touched : ∀ a∈(updateInPlaceByState api set rolling pod).1,a.touched=some pod := by
  have hu:=updateInPlace_touched api rolling pod
  intro a ha
  unfold updateInPlaceByState at ha
  dsimp only at ha
  split at ha
  · split_ifs at ha
    · exact patchedTo_touched pod _ _ a ha
    · exact hu a ha
  · split_ifs at ha
    · exact patchedTo_touched pod _ _ a ha
    · exact hu a ha
  · exact patchedTo_touched pod _ _ a ha
  · split_ifs at ha
    · cases ha
    · exact hu a ha
  · exact hu a ha
  · cases ha

theorem inPlaceUpdatePod_touched (revisions : List Revision) (pod : Pod) :
    ∀ a∈(inPlaceUpdatePod api set revisions pod).1,a.touched=some pod := by
  intro a ha
  unfold inPlaceUpdatePod at ha
  cases hr : set.spec.updateStrategy.rollingUpdate with
  | none =>
    rw [hr] at ha
    cases ha
  | some rolling =>
    rw [hr] at ha
    dsimp only at ha
    split_ifs at ha
    · cases ha
    · rw [backOff_actions] at ha
      cases ha
    · exact updateInPlaceByState_touched api set rolling pod a ha

end

section

variable (c : Call)

theorem updateTarget_touched (pod : Pod) : ∀ a∈(updateTarget c pod).1,a.touched=some pod := by
  intro a ha
  have hin:=inPlaceUpdatePod_touched c.api c.set c.revisions pod
  unfold updateTarget at ha
  rcases hr : inPlaceUpdatePod c.api c.set c.revisions pod with ⟨actions,_ | _ | _⟩
  · rw [hr] at ha hin
    exact hin a ha
  · rw [hr] at ha hin
    obtain hm | hm := mem_append.mp ha
    · exact hin a hm
    · exact deletePod_touched c.api c.set pod a hm
  · rw [hr] at ha hin
    exact hin a ha

structure IsTouched (replicas : List (Option Pod)) (target : Nat) (pod : Pod) : Prop where
  slot : slot replicas target=some pod
  revision : getPodRevision pod≠c.updateRevision
  notTerminating : isTerminating pod=false

variable (replicas : List (Option Pod))

theorem rollTargets_touched (maxUnavailable : Int) (targets : List Nat) (unavailable : List String) :
    ∀ t∈(rollTargets c replicas maxUnavailable targets unavailable).touched,
      t∈targets ∧ ∃ pod,IsTouched c replicas t pod := by
  induction targets generalizing unavailable with
  | nil => intro t ht; cases ht
  | cons target targets ih =>
    intro t ht
    have hl : ∀ names,t∈(rollTargets c replicas maxUnavailable targets names).touched →
        t∈target::targets ∧ ∃ pod,IsTouched c replicas t pod := by
      intro names hmem
      obtain ⟨hin,hpod⟩ := ih names t hmem
      exact ⟨mem_cons_of_mem target hin,hpod⟩
    rw [rollTargets] at ht
    cases hslot : slot replicas target with
    | none =>
      rw [hslot] at ht
      cases ht
    | some pod =>
      rw [hslot] at ht
      dsimp only at ht
      split_ifs at ht with hr hm hterm hok
      · exact hl _ ht
      · cases ht
      · exact hl _ ht
      · rw [mem_singleton.mp ht]
        exact ⟨mem_cons_self,pod,hslot,hr,by simpa using hterm⟩
      · obtain rfl | hmem := mem_cons.mp ht
        · exact ⟨mem_cons_self,pod,hslot,hr,by simpa using hterm⟩
        · exact hl _ hmem

theorem rollTargets_actions (maxUnavailable : Int) (targets : List Nat) (unavailable : List String) :
    ∀ a∈(rollTargets c replicas maxUnavailable targets unavailable).actions,
      ∃ t∈(rollTargets c replicas maxUnavailable targets unavailable).touched, a.touched=slot replicas t := by
  induction targets generalizing unavailable with
  | nil => intro a ha; cases ha
  | cons target targets ih =>
    intro a ha
    rw [rollTargets] at ha ⊢
    cases hslot : slot replicas target with
    | none =>
      rw [hslot] at ha
      cases ha
    | some pod =>
      rw [hslot] at ha
      dsimp only at ha ⊢
      split_ifs at ha ⊢ with hr hm hterm hok
      · exact ih unavailable a ha
      · cases ha
      · exact ih unavailable a ha
      · exact ⟨target,mem_cons_self,by rw [hslot]; exact updateTarget_touched c pod a ha⟩
      · obtain hmem | hmem := mem_append.mp ha
        · exact ⟨target,mem_cons_self,by
            rw [hslot]; exact updateTarget_touched c pod a hmem⟩
        · obtain ⟨t,ht,heq⟩ := ih _ a hmem
          exact ⟨t,mem_cons_of_mem target ht,heq⟩

def updateTargets (replicas : List (Option Pod)) : List Nat :=
  sortPodsToUpdate c.env c.updateRevision replicas c.set.spec.updateStrategy.rollingUpdate
    (replicasOf c.set)

theorem rollReplicas_touched :
    ∀ t∈(rollReplicas c replicas).touched, t∈updateTargets c replicas ∧ ∃ pod,IsTouched c replicas t pod := by
  intro t ht
  unfold rollReplicas at ht
  dsimp only at ht
  split_ifs at ht
  · cases ht
  · split at ht
    · cases ht
    · exact rollTargets_touched c replicas _ _ _ t ht

theorem rollReplicas_actions :
    ∀ a∈(rollReplicas c replicas).actions, ∃ t∈(rollReplicas c replicas).touched,a.touched=slot replicas t := by
  unfold rollReplicas
  dsimp only
  split_ifs
  · intro a ha; cases ha
  · split
    · intro a ha; cases ha
    · exact rollTargets_actions c replicas _ _ _

theorem rollingUpdate_touched (pods : List Pod) (replicas : List (Option Pod)) :
    ∀ t∈(rollingUpdateStatefulsetPods c pods replicas).touched,
      t∈updateTargets c replicas ∧ ∃ pod,IsTouched c replicas t pod := by
  intro t ht
  unfold rollingUpdateStatefulsetPods at ht
  split_ifs at ht
  · cases ht
  · split at ht
    · cases ht
    · cases ht
    · exact rollReplicas_touched c replicas t ht

theorem rollingUpdate_actions (pods : List Pod) (replicas : List (Option Pod)) :
    ∀ a∈(rollingUpdateStatefulsetPods c pods replicas).actions, (∃ pod∈pods,∃ state,a=.lifecycle pod state) ∨
        ∃ t∈(rollingUpdateStatefulsetPods c pods replicas).touched, a.touched=slot replicas t := by
  intro a ha
  have href:=refreshPods_actions c.api c.set c.updateRevision pods a
  unfold rollingUpdateStatefulsetPods at ha ⊢
  split_ifs at ha ⊢
  · cases ha
  · rcases hr : refreshPods c.api c.set c.updateRevision pods with ⟨actions,_ | _ | _⟩
    · rw [hr] at ha href
      exact .inl (href ha)
    · rw [hr] at ha href
      obtain hm | hm := mem_append.mp ha
      · exact .inl (href hm)
      · exact .inr (rollReplicas_actions c replicas a hm)
    · rw [hr] at ha href
      exact .inl (href ha)

end

section

variable (c : Call) (w : Work)

@[simp] theorem Work.request_actions (actions : List Action) :
    (w.request actions).actions=w.actions++actions := rfl

@[simp] theorem Work.request_replicas (actions : List Action) :
    (w.request actions).replicas=w.replicas := rfl

@[simp] theorem Work.setReplica_actions (i : Nat) (pod : Pod) :
    (w.setReplica i pod).actions=w.actions := rfl

@[simp] theorem Work.setReplica_replicas (i : Nat) (pod : Pod) :
    (w.setReplica i pod).replicas=w.replicas.set i (some pod) := rfl

@[simp] theorem Work.count_actions (sign : Int) (pod : Pod) :
    (w.count c sign pod).actions=w.actions := rfl

@[simp] theorem Work.count_replicas (sign : Int) (pod : Pod) :
    (w.count c sign pod).replicas=w.replicas := rfl

@[simp] theorem Work.countReplica_actions (n : Int) : (w.countReplica n).actions=w.actions := rfl

@[simp] theorem Work.countReplica_replicas (n : Int) : (w.countReplica n).replicas=w.replicas := rfl

@[simp] theorem Work.setCondition_actions (condition : Condition) :
    (w.setCondition condition).actions=w.actions := by
  unfold Work.setCondition
  split
  · split_ifs <;> rfl
  · rfl

@[simp] theorem Work.setCondition_replicas (condition : Condition) :
    (w.setCondition condition).replicas=w.replicas := by
  unfold Work.setCondition
  split
  · split_ifs <;> rfl
  · rfl

@[simp] theorem Work.decreaseAndCheck_actions (condition : Bool) :
    (w.decreaseAndCheck condition).1.actions=w.actions := by
  unfold Work.decreaseAndCheck
  split <;> rfl

@[simp] theorem Work.decreaseAndCheck_replicas (condition : Bool) :
    (w.decreaseAndCheck condition).1.replicas=w.replicas := by
  unfold Work.decreaseAndCheck
  split <;> rfl

end

section

variable (c : Call)

variable (i : Nat) (pod : Pod) (w : Work)

theorem enforceInvariants_effect :
    (enforceInvariants c pod w).1.replicas=w.replicas ∧ ((enforceInvariants c pod w).1.actions=w.actions ∨
        (enforceInvariants c pod w).1.actions=w.actions++[.update pod]) := by
  unfold enforceInvariants
  dsimp only
  split_ifs
  · exact ⟨rfl,.inl rfl⟩
  · split
    · exact ⟨by simp,.inr (by simp)⟩
    · exact ⟨rfl,.inr rfl⟩

theorem keepReplica_effect :
    (keepReplica c pod w).1.replicas=w.replicas ∧ ((keepReplica c pod w).1.actions=w.actions ∨
        (keepReplica c pod w).1.actions=w.actions++[.update pod]) := by
  unfold keepReplica
  dsimp only
  split_ifs
  · exact ⟨rfl,.inl rfl⟩
  · exact ⟨by simp,.inl (by simp)⟩
  · exact ⟨by simp,.inl (by simp)⟩
  · exact ⟨by simp,.inl (by simp)⟩
  · exact ⟨by simp,.inl (by simp)⟩
  · have h:=enforceInvariants_effect c pod ((w.decreaseAndCheck (isTerminating pod)).1.decreaseAndCheck
        (!isRunningAndAvailable c.now pod c.minReadySeconds)).1
    simpa using h

theorem requestCreation_effect :
    (requestCreation c i pod w).1.replicas=w.replicas.set i (some (setNormal pod)) ∧
      (requestCreation c i pod w).1.actions=w.actions++[.create i (setNormal pod)] := by
  unfold requestCreation
  dsimp only
  split
  · exact ⟨by simp,by simp⟩
  · split_ifs
    · exact ⟨rfl,rfl⟩
    · exact ⟨by simp,by simp⟩
    · exact ⟨by simp,by simp⟩

theorem createReplica_effect :
    (createReplica c i pod w).1=w ∨ ((createReplica c i pod w).1.replicas=w.replicas.set i (some (setNormal pod)) ∧
        (createReplica c i pod w).1.actions=w.actions++[.create i (setNormal pod)]) := by
  unfold createReplica
  split_ifs
  · split
    · exact .inl rfl
    · exact .inl rfl
    · exact .inr (requestCreation_effect c i pod w)
  · exact .inr (requestCreation_effect c i pod w)

theorem matchClaims_effect :
    (matchClaims c pod w).1.replicas=w.replicas ∧ ((matchClaims c pod w).1.actions=w.actions ∨
        (matchClaims c pod w).1.actions=w.actions++[.updateClaims pod]) := by
  unfold matchClaims
  split
  · exact ⟨rfl,.inl rfl⟩
  · exact ⟨rfl,.inl rfl⟩
  · exact ⟨rfl,.inr rfl⟩

theorem processCondemned_effect (first : Option Pod) (pod : Pod) (w : Work) :
    (processCondemned c first pod w).1.replicas=w.replicas ∧ ((processCondemned c first pod w).1.actions=w.actions ∨
        (processCondemned c first pod w).1.actions = w.actions++(deletePod c.api c.set pod).1) := by
  unfold processCondemned
  dsimp only
  split_ifs
  · exact ⟨rfl,.inl rfl⟩
  · exact ⟨rfl,.inl rfl⟩
  · split <;> exact ⟨rfl,.inr rfl⟩

/- What is left to do with a failed pod once it is deleted. -/
def recreated : Work :=
  (((w.request (deletePod c.api c.set pod).1).count c (-1) pod).countReplica (-1)).setReplica i
    (newReplica c i w.replicas)

variable {pod} in
theorem recreateFailed_healthy (h : isFailed pod=false) : recreateFailed c i pod w=(w,some pod) := by
  rw [recreateFailed,h]
  rfl

variable {w i} in
@[elab_as_elim]
theorem processReplica_elim {P : Work × Flow Bool → Prop} (empty : slot w.replicas i=none → P (w,.go))
    (deleteFails : ∀ pod,slot w.replicas i=some pod → isFailed pod →
      P (w.request (deletePod c.api c.set pod).1,.done true))
    (recreate : ∀ pod,slot w.replicas i=some pod → isFailed pod →
      P (createReplica c i (newReplica c i w.replicas) (recreated c i pod w)))
    (create : ∀ pod,slot w.replicas i=some pod → isFailed pod=false → isCreated pod=false →
      P (createReplica c i pod w))
    (keep : ∀ pod,slot w.replicas i=some pod → isFailed pod=false → isCreated pod →
      P (keepReplica c pod w)) : P (processReplica c i w) := by
  unfold processReplica
  cases hslot : slot w.replicas i with
  | none => exact empty hslot
  | some pod =>
    dsimp only
    cases hf : isFailed pod with
    | true =>
      cases hd : (deletePod c.api c.set pod).2 with
      | none =>
        simp only [recreateFailed,hf,if_true,hd]
        exact deleteFails pod hslot hf
      | some modified =>
        simp only [recreateFailed,hf,if_true,hd,(isNew_newReplica c i w.replicas).notCreated,Bool.not_false]
        exact recreate pod hslot hf
    | false =>
      rw [recreateFailed_healthy c i w hf]
      dsimp only
      cases hcreated : isCreated pod with
      | true => exact keep pod hslot hf hcreated
      | false => exact create pod hslot hf hcreated

variable {w} (P : List (Option Pod) → Prop)
  (hnew : ∀ replicas i pod,P replicas → slot replicas i=some pod →
    P (replicas.set i (some (newReplica c i replicas))))
  (hn : ∀ replicas i pod,P replicas → slot replicas i=some pod → isCreated pod=false →
    P (replicas.set i (some (setNormal pod))))

include hnew hn in
theorem processReplica_replicas (i : Nat) (h : P w.replicas) : P (processReplica c i w).1.replicas := by
  have hcre : ∀ pod w',P w'.replicas → slot w'.replicas i=some pod →
      isCreated pod=false → P (createReplica c i pod w').1.replicas := by
    intro pod w' hP hslot hcreated
    obtain heq | ⟨heq,-⟩ := createReplica_effect c i pod w'
    · rw [heq]
      exact hP
    · rw [heq]
      exact hn w'.replicas i pod hP hslot hcreated
  refine processReplica_elim c ?_ ?_ ?_ ?_ ?_
  · exact fun _ => h
  · exact fun _ _ _ => h
  · intro pod hslot _
    exact hcre _ _ (hnew w.replicas i pod h hslot) (slot_set_self (lt_length_of_slot hslot) _)
      (isNew_newReplica c i w.replicas).notCreated
  · exact fun pod hslot _ hcreated => hcre pod w h hslot hcreated
  · intro pod _ _ _
    rw [(keepReplica_effect c pod w).1]
    exact h

def TouchesCreated (actions : List Action) : Prop :=
  ∀ a∈actions,∀ pod,a.touched=some pod → isCreated pod

theorem TouchesCreated.append {actions more : List Action} (h : TouchesCreated actions)
    (hm : TouchesCreated more) : TouchesCreated (actions++more) := by
  intro a ha
  obtain hmem | hmem := mem_append.mp ha
  · exact h a hmem
  · exact hm a hmem

theorem TouchesCreated.concat {actions : List Action} (h : TouchesCreated actions) {a : Action}
    (ha : a.touched=none) : TouchesCreated (actions++[a]) := by
  apply h.append
  intro b hb pod hpod
  rw [mem_singleton.mp hb,ha] at hpod
  cases hpod

theorem TouchesCreated.deletePod {actions : List Action} (h : TouchesCreated actions) (api : Api)
    (set : Sts) {pod : Pod} (hcreated : isCreated pod) : TouchesCreated (actions++(deletePod api set pod).1) := by
  apply h.append
  intro a ha q hq
  rw [deletePod_touched api set pod a ha,Option.some.injEq] at hq
  rw [← hq]
  exact hcreated

theorem createReplica_touches (h : TouchesCreated w.actions) :
    TouchesCreated (createReplica c i pod w).1.actions := by
  obtain heq | ⟨-,heq⟩ := createReplica_effect c i pod w
  · rw [heq]
    exact h
  · rw [heq]
    exact h.concat rfl

theorem processReplica_touches (h : TouchesCreated w.actions) :
    TouchesCreated (processReplica c i w).1.actions := by
  have hfl : ∀ pod,isFailed pod → TouchesCreated (w.actions++(deletePod c.api c.set pod).1) := by
    intro pod hf
    rw [isFailed,Bool.and_eq_true] at hf
    exact h.deletePod c.api c.set hf.1
  refine processReplica_elim c ?_ ?_ ?_ ?_ ?_
  · exact fun _ => h
  · exact fun pod _ hf => hfl pod hf
  · exact fun pod _ hf => createReplica_touches c i _ (hfl pod hf)
  · exact fun pod _ _ _ => createReplica_touches c i pod h
  · intro pod _ _ _
    obtain ⟨-,heq | heq⟩ := keepReplica_effect c pod w
    · rw [heq]
      exact h
    · rw [heq]
      exact h.concat rfl

theorem processReplica_delete {i : Nat} {gone : Pod} (h : .delete gone∈(processReplica c i w).1.actions) :
    .delete gone∈w.actions ∨ (slot w.replicas i=some gone ∧ isFailed gone) := by
  have hfl : ∀ pod,slot w.replicas i=some pod → isFailed pod →
      .delete gone∈w.actions++(deletePod c.api c.set pod).1 →
      .delete gone∈w.actions ∨ (slot w.replicas i=some gone ∧ isFailed gone) := by
    intro pod hslot hf hm
    obtain hm | hm := mem_append.mp hm
    · exact .inl hm
    · have ht:=deletePod_touched c.api c.set pod _ hm
      obtain rfl : gone=pod := Option.some.inj ht
      exact .inr ⟨hslot,hf⟩
  have hcre : ∀ (pod : Pod) (w' : Work),
      .delete gone∈(createReplica c i pod w').1.actions → .delete gone∈w'.actions := by
    intro pod w' hm
    obtain heq | ⟨-,heq⟩ := createReplica_effect c i pod w'
    · rwa [heq] at hm
    · rw [heq] at hm
      obtain hm | hm := mem_append.mp hm
      · exact hm
      · cases mem_singleton.mp hm
  revert h
  refine processReplica_elim c ?_ ?_ ?_ ?_ ?_
  · exact fun _ => .inl
  · exact hfl
  · exact fun pod hslot hf h => hfl pod hslot hf (hcre _ _ h)
  · exact fun pod _ _ _ h => .inl (hcre pod w h)
  · intro pod _ _ _ h
    obtain ⟨-,heq | heq⟩ := keepReplica_effect c pod w
    · rw [heq] at h
      exact .inl h
    · rw [heq] at h
      obtain hm | hm := mem_append.mp h
      · exact .inl hm
      · cases mem_singleton.mp hm

theorem matchClaims_touches (h : TouchesCreated w.actions) : TouchesCreated (matchClaims c pod w).1.actions := by
  obtain ⟨-,heq | heq⟩ := matchClaims_effect c pod w
  · rw [heq]
    exact h
  · rw [heq]
    exact h.concat rfl

theorem processCondemned_touches (first : Option Pod) {pod : Pod}
    (hcreated : isCreated pod) (h : TouchesCreated w.actions) :
    TouchesCreated (processCondemned c first pod w).1.actions := by
  obtain ⟨-,heq | heq⟩ := processCondemned_effect c first pod w
  · rw [heq]
    exact h
  · rw [heq]
    exact h.deletePod c.api c.set hcreated

theorem scalePods_keeps (P : Work → Prop) {condemned : List Pod} (hi : P w)
    (hr : ∀ i w,P w → P (processReplica c i w).1) (hcl : ∀ pod w,P w → P (matchClaims c pod w).1)
    (hcond : ∀ first,∀ pod∈condemned,∀ w,P w → P (processCondemned c first pod w).1) :
    P (scalePods c condemned w).1 := by
  unfold scalePods replicaLoop
  split_ifs
  · exact hi
  · apply After.always.mp
    refine (runLoop_keeps P hi fun i _ => hr i).andThen (fun _ h => h) (fun _ _ h => h) ?_
    intro w₁ h₁
    refine (runLoop_keeps P h₁ fun pod _ => hcl pod).andThen (fun _ h => h) (fun _ _ h => h) ?_
    intro w₂ h₂
    exact runLoop_keeps P h₂ fun pod hpod => hcond _ pod (mem_reverse.mp hpod)

include hnew hn in
theorem scalePods_replicas (condemned : List Pod) (h : P w.replicas) : P (scalePods c condemned w).1.replicas := by
  refine scalePods_keeps c (fun w => P w.replicas) h ?_ ?_ ?_
  · exact fun i w => processReplica_replicas c P hnew hn i
  · intro pod w hP
    rw [(matchClaims_effect c pod w).1]
    exact hP
  · intro first pod _ w hP
    rw [(processCondemned_effect c first pod w).1]
    exact hP

theorem scalePods_touches {condemned : List Pod}
    (hcreated : ∀ pod∈condemned,isCreated pod) (h : TouchesCreated w.actions) :
    TouchesCreated (scalePods c condemned w).1.actions := by
  refine scalePods_keeps c (fun w => TouchesCreated w.actions) h ?_ ?_ ?_
  · exact fun i w => processReplica_touches c i
  · exact fun pod w => matchClaims_touches c pod
  · exact fun first pod hpod w => processCondemned_touches c first (hcreated pod hpod)

end

/-! ## How a turn of the loop over the replicas ends -/

section

variable (c : Call) (pod : Pod)

def Call.isAvailable : Bool := isRunningAndAvailable c.now pod c.minReadySeconds

/- A pod that is missing, terminating or not available. -/
def Call.takesBudget : Bool := isTerminating pod||!c.isAvailable pod

def Call.claimIsStale : Bool :=
  c.env.statefulSetAutoDeletePVC&&c.api.podClaimIsStale pod=some true

/- The budget is found used up after the first or after the second unit that is taken. -/
def usesUp (first second : Bool) (budget : Option Int) : Bool :=
  (first&&budget.any fun n => decide (n-1≤0)) ||
    (second&&(budget.map (· - (first.toNat : Int))).any fun n => decide (n-1≤0))

/- Without an error it ends the call, ends the loop or leaves the rest of the budget. -/
def Takes (ends first second : Bool) (w : Work) (r : Work × Flow Bool) : Prop :=
  r.2=.done true ∨
    r.2=(if ends then .done false else if usesUp first second w.scaleMaxUnavailable then .leave else .go) ∧
    (r.2=.go → r.1.scaleMaxUnavailable=w.scaleMaxUnavailable.map (· - ((first.toNat : Int)+second.toNat)))

variable {first second : Bool} {w : Work} {r : Work × Flow Bool}

theorem Takes.ends (h : Takes true first second w r) : ∃ err,r.2=.done err :=
  h.elim (⟨true,·⟩) fun h => ⟨false,h.1⟩

theorem Takes.ne_done (h : Takes false first second w r) : r.2≠.done false := by
  obtain h | ⟨h,-⟩ := h
  · simp [h]
  · rw [h]
    cases usesUp first second w.scaleMaxUnavailable <;> simp

theorem Work.setCondition_scaleMaxUnavailable (w : Work) (condition : Condition) :
    (w.setCondition condition).scaleMaxUnavailable=w.scaleMaxUnavailable := by
  unfold Work.setCondition
  split
  · split_ifs <;> rfl
  · rfl

theorem Work.decreaseAndCheck_budget (w : Work) (condition : Bool) :
    (w.decreaseAndCheck condition).1.scaleMaxUnavailable =
        w.scaleMaxUnavailable.map (· - (condition.toNat : Int)) ∧
      (w.decreaseAndCheck condition).2=(condition&&w.scaleMaxUnavailable.any fun n => decide (n-1≤0)) := by
  unfold Work.decreaseAndCheck
  cases condition <;> cases hbud : w.scaleMaxUnavailable <;> simp [hbud]

theorem enforceInvariants_budget (w : Work) :
    (enforceInvariants c pod w).1.scaleMaxUnavailable=w.scaleMaxUnavailable ∧
      ((enforceInvariants c pod w).2=.go ∨ (enforceInvariants c pod w).2=.done true) := by
  unfold enforceInvariants
  dsimp only
  split_ifs
  · exact ⟨rfl,.inl rfl⟩
  · split
    · exact ⟨Work.setCondition_scaleMaxUnavailable _ _,.inr rfl⟩
    · exact ⟨rfl,.inl rfl⟩

theorem keepReplica_takes (w : Work) :
    Takes (c.monotonic&&c.takesBudget pod) (isTerminating pod) (!c.isAvailable pod) w (keepReplica c pod w) := by
  obtain ⟨hf,hstop⟩ := w.decreaseAndCheck_budget (isTerminating pod)
  have hav : isRunningAndAvailable c.now pod c.minReadySeconds=c.isAvailable pod := rfl
  unfold keepReplica Takes Call.takesBudget usesUp
  rw [hav]
  generalize w.decreaseAndCheck (isTerminating pod)=first at hf hstop ⊢
  obtain ⟨w₁,stop⟩ := first
  obtain ⟨hsnd,hstop'⟩ := w₁.decreaseAndCheck_budget (!c.isAvailable pod)
  obtain ⟨hinv,hflow⟩ := enforceInvariants_budget c pod (w₁.decreaseAndCheck (!c.isAvailable pod)).1
  dsimp only at hf hstop ⊢
  rw [hf] at hsnd hstop'
  rw [← hstop,← hstop']
  cases hends : c.monotonic&&(isTerminating pod||!c.isAvailable pod) with
  | true =>
    obtain ⟨hm,htk⟩ := Bool.and_eq_true_iff.mp hends
    rw [hm,if_pos rfl]
    cases ht : isTerminating pod with
    | true => simp
    | false =>
      rw [ht,Bool.false_or] at htk
      rw [ht,Bool.false_and] at hstop
      rw [hstop,htk]
      cases c.api.refreshOk 0 pod <;> simp
  | false =>
    rw [Bool.and_or_distrib_left,Bool.or_eq_false_iff] at hends
    rw [Bool.and_comm (isTerminating pod),hends.1,Bool.and_comm (!c.isAvailable pod),hends.2]
    cases stop with
    | true => simp
    | false =>
      cases c.api.refreshOk 0 pod with
      | false => simp
      | true =>
        cases (w₁.decreaseAndCheck (!c.isAvailable pod)).2 with
        | true => simp
        | false =>
          obtain hgo | herr := hflow
          · refine .inr ⟨hgo,fun _ => ?_⟩
            have hsum : ((· - ((!c.isAvailable pod).toNat : Int)) ∘ (· - ((isTerminating pod).toNat : Int))) =
                (· - (((isTerminating pod).toNat : Int)+(!c.isAvailable pod).toNat)) := by
              funext n
              exact Int.sub_sub _ _ _
            rw [← hsum,← Option.map_map,← hsnd]
            exact hinv
          · exact .inl herr

theorem requestCreation_takes (i : Nat) (pod : Pod) (w : Work) :
    Takes c.monotonic false true w (requestCreation c i pod w) := by
  unfold requestCreation Takes usesUp
  dsimp only
  split
  · exact .inl rfl
  · right
    cases c.monotonic with
    | true => simp
    | false =>
      have hbud:=Work.decreaseAndCheck_budget
        ((((w.setReplica i (setNormal pod)).request [.create i (setNormal pod)]).countReplica
          1).count c 1 (setNormal pod)) true
      change _=w.scaleMaxUnavailable.map _ ∧ _=(true&&w.scaleMaxUnavailable.any _) at hbud
      rw [Bool.true_and] at hbud
      simp only [Bool.false_eq_true,if_false,hbud]
      cases w.scaleMaxUnavailable <;> simp

theorem createReplica_eq {i : Nat} {pod : Pod} {w : Work} (h : (createReplica c i pod w).2≠.done true) :
    createReplica c i pod w=if c.claimIsStale pod then (w,.done false) else requestCreation c i pod w := by
  unfold createReplica Call.claimIsStale at *
  cases hauto : c.env.statefulSetAutoDeletePVC with
  | false => rfl
  | true =>
    rw [hauto,if_pos rfl] at h
    cases hstl : c.api.podClaimIsStale pod with
    | none =>
      rw [hstl] at h
      exact absurd rfl h
    | some stale => cases stale <;> rfl

theorem createReplica_takes (i : Nat) (pod : Pod) (w : Work) :
    Takes (c.monotonic||c.claimIsStale pod) false true w (createReplica c i pod w) := by
  by_cases herr : (createReplica c i pod w).2=.done true
  · exact .inl herr
  · rw [createReplica_eq c herr]
    cases c.claimIsStale pod with
    | true => exact .inr ⟨by simp,by simp⟩
    | false => simpa using requestCreation_takes c i pod w

/- What a call answers, from what the stages before the rolling update give. -/
theorem run_rule {collisionCount : Int} {labelSelector : String} {pods : List Pod} {P : Result → Prop}
    {next : Work → Prop} {ended : Work → Flow Bool → Prop}
    (hnone : P ⟨initialStatus c collisionCount labelSelector,true,[]⟩)
    (hsc : ∀ scaleMaxUnavailable,After next ended
      (scaleWork c pods (initialStatus c collisionCount labelSelector) scaleMaxUnavailable))
    (hgo : ∀ w,next w → P (finishUpdate c pods w)) (hlv : ∀ w,ended w .leave → P (finishUpdate c pods w))
    (hdone : ∀ w err,ended w (.done err) → P ⟨w.status,err,w.actions⟩) :
    P (c.run collisionCount labelSelector pods) := by
  unfold Call.run
  cases scaleMaxUnavailableOf c with
  | none => exact hnone
  | some scaleMaxUnavailable =>
    have h:=hsc scaleMaxUnavailable
    dsimp only
    rcases hr : scaleWork c pods (initialStatus c collisionCount labelSelector)
      scaleMaxUnavailable with ⟨w,_ | _ | err⟩ <;> rw [hr] at h
    · exact hgo w h
    · exact hlv w h
    · exact hdone w err h

end

end Kruise.StatefulSet
