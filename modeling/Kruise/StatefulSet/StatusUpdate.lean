import Kruise.StatefulSet.Control

/-!
# Writing the status of a StatefulSet

`updateStatefulSetStatus` (`stateful_set_control.go` 1021-1041) with `completeRollingUpdate` and
`inconsistentStatus` (`stateful_set_utils.go` 593-619), and the five attempts of
`UpdateStatefulSetStatus`. Four fields of the status are not compared.
-/

namespace Kruise.StatefulSet

def completeRollingUpdate (set : Sts) (status : Status) : Status :=
  if set.spec.updateStrategy.type=.rollingUpdate ∧ status.updatedReplicas=status.replicas ∧
      status.readyReplicas=status.replicas then
    {status with
      currentReplicas := status.updatedReplicas
      currentRevision := status.updateRevision}
  else status

def inconsistentStatus (set : Sts) (status : Status) : Bool :=
  status.observedGeneration>set.status.observedGeneration ||
    status.replicas≠set.status.replicas ||
    status.currentReplicas≠set.status.currentReplicas ||
    status.readyReplicas≠set.status.readyReplicas ||
    status.availableReplicas≠set.status.availableReplicas ||
    status.updatedReplicas≠set.status.updatedReplicas ||
    status.currentRevision≠set.status.currentRevision ||
    status.updateRevision≠set.status.updateRevision ||
    status.labelSelector≠set.status.labelSelector

inductive UpdateAnswer
  | ok
  | conflict
  | failed

/-- `RetryOnConflict`: every attempt puts the same status on the copy it has. -/
def retriedUpdate (answer : Nat → UpdateAnswer) : Nat → Bool
  | 0 => false
  | steps+1 =>
    match answer steps with
    | .ok => true
    | .conflict => retriedUpdate answer steps
    | .failed => false

/-- The status stored after a call that returns no error. -/
def updateStatefulSetStatus (answer : Nat → UpdateAnswer) (set : Sts) (status : Status) : Option Status :=
  let status:=completeRollingUpdate set status
  if inconsistentStatus set status then if retriedUpdate answer 5 then some status else none
  else some set.status

structure Agrees (stored status : Status) : Prop where
  replicas : stored.replicas=status.replicas
  readyReplicas : stored.readyReplicas=status.readyReplicas
  availableReplicas : stored.availableReplicas=status.availableReplicas
  currentReplicas : stored.currentReplicas=status.currentReplicas
  updatedReplicas : stored.updatedReplicas=status.updatedReplicas
  updatedReadyReplicas : stored.updatedReadyReplicas=status.updatedReadyReplicas
  updatedAvailableReplicas : stored.updatedAvailableReplicas=status.updatedAvailableReplicas
  currentRevision : stored.currentRevision=status.currentRevision
  updateRevision : stored.updateRevision=status.updateRevision
  collisionCount : stored.collisionCount=status.collisionCount
  conditions : stored.conditions=status.conditions

def sameUncompared (old status : Status) : Prop :=
  old.updatedReadyReplicas=status.updatedReadyReplicas ∧
    old.updatedAvailableReplicas=status.updatedAvailableReplicas ∧
    old.collisionCount=status.collisionCount ∧ old.conditions=status.conditions

variable (answer : Nat → UpdateAnswer) (set : Sts) (status : Status)

theorem agrees_iff (h : inconsistentStatus set status=false) :
    Agrees set.status status ↔ sameUncompared set.status status := by
  constructor
  · exact fun h => ⟨h.updatedReadyReplicas,h.updatedAvailableReplicas,h.collisionCount,h.conditions⟩
  · rintro ⟨h₁,h₂,h₃,h₄⟩
    simp only [inconsistentStatus,Bool.or_eq_false_iff,decide_eq_false_iff_not,not_not] at h
    obtain ⟨⟨⟨⟨⟨⟨⟨⟨-,hr⟩,hc⟩,hy⟩,ha⟩,hu⟩,hcr⟩,hur⟩,-⟩ := h
    exact ⟨hr.symm,hy.symm,ha.symm,hc.symm,hu.symm,h₁,h₂,hcr.symm,hur.symm,h₃,h₄⟩

/-- A call without an error leaves the computed status stored exactly when the status differs in a
field that is compared or is the same in those that are not. -/
theorem updateStatefulSetStatus_written_iff :
    (∀ stored,updateStatefulSetStatus answer set status=some stored →
      Agrees stored (completeRollingUpdate set status)) ↔
    inconsistentStatus set (completeRollingUpdate set status) ∨
      sameUncompared set.status (completeRollingUpdate set status) := by
  unfold updateStatefulSetStatus
  dsimp only
  generalize completeRollingUpdate set status=new
  cases h : inconsistentStatus set new with
  | true =>
    refine ⟨fun _ => .inl rfl,fun _ stored hs => ?_⟩
    rw [if_pos rfl] at hs
    split_ifs at hs
    cases hs
    exact ⟨rfl,rfl,rfl,rfl,rfl,rfl,rfl,rfl,rfl,rfl,rfl⟩
  | false => simp [agrees_iff set new h]

/-- The pod of the new revision has become ready and the other one has not stayed so. -/
theorem swapped_readiness_not_written :
    let status : Status := ⟨1,2,1,1,1,1,1,1, "web-a", "web-b",some 0,[], ""⟩
    let set : Sts := {plainSet 2 [] .orderedReady none none with
      status := ⟨1,2,1,1,1,1,0,0, "web-a", "web-b",some 0,[], ""⟩}
    updateStatefulSetStatus (fun _ => .ok) set status=some set.status ∧
      set.status.updatedReadyReplicas=0 ∧
      (completeRollingUpdate set status).updatedReadyReplicas=1 :=
  ⟨rfl,rfl,rfl⟩

end Kruise.StatefulSet
