import Kruise.Util.IntStr

/-!
# StatefulSets in two API versions

`ConvertTo` and `ConvertFrom` (`apis/apps/v1alpha1/statefulset_conversion.go`) between the served
`v1alpha1` and the stored `v1beta1`. Parts that no version looks into are type parameters.
-/

namespace Kruise.Apis

open Util.IntStr

structure Parts where
  ObjectMeta : Type
  LabelSelector : Type
  PodTemplateSpec : Type
  PersistentVolumeClaim : Type
  InPlaceUpdateStrategy : Type
  UpdatePriorityStrategy : Type
  Lifecycle : Type
  StatefulSetCondition : Type

inductive StatefulSetUpdateStrategyType
  | unset | rollingUpdate | onDelete
  | other (type : String)
  deriving DecidableEq,Repr

inductive PodManagementPolicyType
  | unset | orderedReady | parallel
  | other (policy : String)
  deriving DecidableEq,Repr

inductive PodUpdateStrategyType
  | unset | reCreate | inPlaceIfPossible | inPlaceOnly
  | other (type : String)
  deriving DecidableEq,Repr

inductive PersistentVolumeClaimRetentionPolicyType
  | unset | retain | delete
  | other (type : String)
  deriving DecidableEq,Repr

namespace V1beta1

variable (P : Parts)

structure UnorderedUpdateStrategy where
  priorityStrategy : Option P.UpdatePriorityStrategy

structure RollingUpdateStatefulSetStrategy where
  partition : Option Int
  maxUnavailable : Option IntOrString
  podUpdatePolicy : PodUpdateStrategyType
  paused : Bool
  unorderedUpdate : Option (UnorderedUpdateStrategy P)
  inPlaceUpdateStrategy : Option P.InPlaceUpdateStrategy
  minReadySeconds : Option Int

structure StatefulSetUpdateStrategy where
  type : StatefulSetUpdateStrategyType
  rollingUpdate : Option (RollingUpdateStatefulSetStrategy P)

structure StatefulSetPersistentVolumeClaimRetentionPolicy where
  whenDeleted : PersistentVolumeClaimRetentionPolicyType
  whenScaled : PersistentVolumeClaimRetentionPolicyType

structure StatefulSetScaleStrategy where
  maxUnavailable : Option IntOrString

structure StatefulSetSpec where
  replicas : Option Int
  selector : Option P.LabelSelector
  template : P.PodTemplateSpec
  volumeClaimTemplates : List P.PersistentVolumeClaim
  serviceName : String
  podManagementPolicy : PodManagementPolicyType
  updateStrategy : StatefulSetUpdateStrategy P
  revisionHistoryLimit : Option Int
  reserveOrdinals : List Int
  lifecycle : Option P.Lifecycle
  scaleStrategy : Option StatefulSetScaleStrategy
  persistentVolumeClaimRetentionPolicy : Option StatefulSetPersistentVolumeClaimRetentionPolicy

structure StatefulSetStatus where
  observedGeneration : Int
  replicas : Int
  readyReplicas : Int
  availableReplicas : Int
  currentReplicas : Int
  updatedReplicas : Int
  updatedReadyReplicas : Int
  updatedAvailableReplicas : Int
  currentRevision : String
  updateRevision : String
  collisionCount : Option Int
  conditions : List P.StatefulSetCondition
  labelSelector : String

structure StatefulSet where
  objectMeta : P.ObjectMeta
  spec : StatefulSetSpec P
  status : StatefulSetStatus P

end V1beta1

namespace V1alpha1

variable (P : Parts)

structure UnorderedUpdateStrategy where
  priorityStrategy : Option P.UpdatePriorityStrategy

structure RollingUpdateStatefulSetStrategy where
  partition : Option Int
  maxUnavailable : Option IntOrString
  podUpdatePolicy : PodUpdateStrategyType
  paused : Bool
  unorderedUpdate : Option (UnorderedUpdateStrategy P)
  inPlaceUpdateStrategy : Option P.InPlaceUpdateStrategy
  minReadySeconds : Option Int

structure StatefulSetUpdateStrategy where
  type : StatefulSetUpdateStrategyType
  rollingUpdate : Option (RollingUpdateStatefulSetStrategy P)

structure StatefulSetSpec where
  replicas : Option Int
  selector : Option P.LabelSelector
  template : P.PodTemplateSpec
  volumeClaimTemplates : List P.PersistentVolumeClaim
  serviceName : String
  podManagementPolicy : PodManagementPolicyType
  updateStrategy : StatefulSetUpdateStrategy P
  revisionHistoryLimit : Option Int

structure StatefulSetStatus where
  observedGeneration : Int
  replicas : Int
  readyReplicas : Int
  availableReplicas : Int
  currentReplicas : Int
  updatedReplicas : Int
  currentRevision : String
  updateRevision : String
  collisionCount : Option Int
  conditions : List P.StatefulSetCondition
  labelSelector : String

structure StatefulSet where
  objectMeta : P.ObjectMeta
  spec : StatefulSetSpec P
  status : StatefulSetStatus P

end V1alpha1

variable {P : Parts} (spec : V1beta1.StatefulSetSpec P)

/- The objects that may stand on the side of the hub. -/
inductive Hub (P : Parts)
  | statefulSet (sts : V1beta1.StatefulSet P)
  | other (type : String)

/- A field that a composite literal does not name has its zero value. -/
def rollingUpdateTo (r : V1alpha1.RollingUpdateStatefulSetStrategy P) :
    V1beta1.RollingUpdateStatefulSetStrategy P :=
  { partition := r.partition
    maxUnavailable := r.maxUnavailable
    podUpdatePolicy := r.podUpdatePolicy
    paused := r.paused
    unorderedUpdate := r.unorderedUpdate.map fun u => {priorityStrategy := u.priorityStrategy}
    inPlaceUpdateStrategy := r.inPlaceUpdateStrategy
    minReadySeconds := r.minReadySeconds}

def specTo (spec : V1alpha1.StatefulSetSpec P) : V1beta1.StatefulSetSpec P :=
  { replicas := spec.replicas
    selector := spec.selector
    template := spec.template
    volumeClaimTemplates := spec.volumeClaimTemplates
    serviceName := spec.serviceName
    podManagementPolicy := spec.podManagementPolicy
    updateStrategy :=
      { type := spec.updateStrategy.type
        rollingUpdate := spec.updateStrategy.rollingUpdate.map rollingUpdateTo}
    revisionHistoryLimit := spec.revisionHistoryLimit
    reserveOrdinals := []
    lifecycle := none
    scaleStrategy := none
    persistentVolumeClaimRetentionPolicy := none}

def statusTo (status : V1alpha1.StatefulSetStatus P) : V1beta1.StatefulSetStatus P :=
  { observedGeneration := status.observedGeneration
    replicas := status.replicas
    readyReplicas := status.readyReplicas
    availableReplicas := status.availableReplicas
    currentReplicas := status.currentReplicas
    updatedReplicas := status.updatedReplicas
    updatedReadyReplicas := 0
    updatedAvailableReplicas := 0
    currentRevision := status.currentRevision
    updateRevision := status.updateRevision
    collisionCount := status.collisionCount
    conditions := status.conditions
    labelSelector := status.labelSelector}

/-- `ConvertTo`, which overwrites an object of the stored version. -/
def convertTo (sts : V1alpha1.StatefulSet P) : Hub P → Except String (Hub P)
  | .statefulSet _ => .ok (.statefulSet
      {objectMeta := sts.objectMeta,spec := specTo sts.spec,status := statusTo sts.status})
  | .other type => .error ("unsupported type " ++ type)

def rollingUpdateFrom (r : V1beta1.RollingUpdateStatefulSetStrategy P) :
    V1alpha1.RollingUpdateStatefulSetStrategy P :=
  { partition := r.partition
    maxUnavailable := r.maxUnavailable
    podUpdatePolicy := r.podUpdatePolicy
    paused := r.paused
    unorderedUpdate := r.unorderedUpdate.map fun u => {priorityStrategy := u.priorityStrategy}
    inPlaceUpdateStrategy := r.inPlaceUpdateStrategy
    minReadySeconds := r.minReadySeconds}

def specFrom : V1alpha1.StatefulSetSpec P :=
  { replicas := spec.replicas
    selector := spec.selector
    template := spec.template
    volumeClaimTemplates := spec.volumeClaimTemplates
    serviceName := spec.serviceName
    podManagementPolicy := spec.podManagementPolicy
    updateStrategy :=
      { type := spec.updateStrategy.type
        rollingUpdate := spec.updateStrategy.rollingUpdate.map rollingUpdateFrom}
    revisionHistoryLimit := spec.revisionHistoryLimit}

def statusFrom (status : V1beta1.StatefulSetStatus P) : V1alpha1.StatefulSetStatus P :=
  { observedGeneration := status.observedGeneration
    replicas := status.replicas
    readyReplicas := status.readyReplicas
    availableReplicas := status.availableReplicas
    currentReplicas := status.currentReplicas
    updatedReplicas := status.updatedReplicas
    currentRevision := status.currentRevision
    updateRevision := status.updateRevision
    collisionCount := status.collisionCount
    conditions := status.conditions
    labelSelector := status.labelSelector}

def convertFrom : Hub P → Except String (V1alpha1.StatefulSet P)
  | .statefulSet sts => .ok
      {objectMeta := sts.objectMeta,spec := specFrom sts.spec,status := statusFrom sts.status}
  | .other type => .error ("unsupported type " ++ type)

theorem rollingUpdateTo_from (r : V1beta1.RollingUpdateStatefulSetStrategy P) :
    rollingUpdateTo (rollingUpdateFrom r)=r := by
  obtain ⟨_,_,_,_,unordered,_,_⟩ := r
  cases unordered <;> rfl

theorem rollingUpdateFrom_to (r : V1alpha1.RollingUpdateStatefulSetStrategy P) :
    rollingUpdateFrom (rollingUpdateTo r)=r := by
  obtain ⟨_,_,_,_,unordered,_,_⟩ := r
  cases unordered <;> rfl

/- What `v1alpha1` has no field for. -/
def eraseSpec : V1beta1.StatefulSetSpec P :=
  {spec with
    reserveOrdinals := []
    lifecycle := none
    scaleStrategy := none
    persistentVolumeClaimRetentionPolicy := none}

def eraseStatus (status : V1beta1.StatefulSetStatus P) : V1beta1.StatefulSetStatus P :=
  {status with updatedReadyReplicas := 0,updatedAvailableReplicas := 0}

theorem specTo_from : specTo (specFrom spec)=eraseSpec spec := by
  obtain ⟨_,_,_,_,_,_,⟨_,rolling⟩,_,_,_,_,_⟩ := spec
  cases rolling with
  | none => rfl
  | some r => simp only [specTo,specFrom,eraseSpec,Option.map_some,rollingUpdateTo_from]

theorem specFrom_to (spec : V1alpha1.StatefulSetSpec P) : specFrom (specTo spec)=spec := by
  obtain ⟨_,_,_,_,_,_,⟨_,rolling⟩,_⟩ := spec
  cases rolling with
  | none => rfl
  | some r => simp only [specTo,specFrom,Option.map_some,rollingUpdateFrom_to]

structure NewFieldsUnset (sts : V1beta1.StatefulSet P) : Prop where
  reserveOrdinals : sts.spec.reserveOrdinals=[]
  lifecycle : sts.spec.lifecycle=none
  scaleStrategy : sts.spec.scaleStrategy=none
  retentionPolicy : sts.spec.persistentVolumeClaimRetentionPolicy=none
  updatedReadyReplicas : sts.status.updatedReadyReplicas=0
  updatedAvailableReplicas : sts.status.updatedAvailableReplicas=0

theorem erase_eq_iff (sts : V1beta1.StatefulSet P) :
    eraseSpec sts.spec=sts.spec ∧ eraseStatus sts.status=sts.status ↔ NewFieldsUnset sts := by
  constructor
  · rintro ⟨hspec,hsts⟩
    exact ⟨(congrArg (·.reserveOrdinals) hspec).symm,(congrArg (·.lifecycle) hspec).symm,
      (congrArg (·.scaleStrategy) hspec).symm,
      (congrArg (·.persistentVolumeClaimRetentionPolicy) hspec).symm,
      (congrArg (·.updatedReadyReplicas) hsts).symm,
      (congrArg (·.updatedAvailableReplicas) hsts).symm⟩
  · rintro ⟨hr,hlc,hsc,hpol,hrdy,hav⟩
    obtain ⟨_,spec,status⟩ := sts
    cases spec
    cases status
    subst hr hlc hsc hpol hrdy hav
    exact ⟨rfl,rfl⟩

/-- Through `v1alpha1` and back, a stored object loses the six fields that `v1alpha1` does not have
and nothing else. The other way round nothing is lost. -/
theorem conversion_round_trips (P : Parts) :
    (∀ sts dst : V1beta1.StatefulSet P,∃ result : V1beta1.StatefulSet P,
      (convertFrom (.statefulSet sts)).bind (convertTo · (.statefulSet dst))=.ok (.statefulSet result) ∧
        result.objectMeta=sts.objectMeta ∧
        result.spec=eraseSpec sts.spec ∧ result.status=eraseStatus sts.status ∧
        (result.spec=sts.spec ∧ result.status=sts.status ↔ NewFieldsUnset sts)) ∧
      ∀ (sts : V1alpha1.StatefulSet P) (dst : V1beta1.StatefulSet P),
        (convertTo sts (.statefulSet dst)).bind convertFrom=.ok sts := by
  constructor
  · intro sts dst
    refine ⟨⟨sts.objectMeta,specTo (specFrom sts.spec),statusTo (statusFrom sts.status)⟩,rfl,
      rfl,specTo_from sts.spec,rfl,?_⟩
    rw [specTo_from]
    exact erase_eq_iff sts
  · intro sts dst
    change Except.ok _=Except.ok _
    rw [specFrom_to]
    rfl

def trivialParts : Parts := ⟨Unit,Unit,Unit,Unit,Unit,Unit,Unit,Unit⟩

def reservingSet : V1beta1.StatefulSet trivialParts :=
  { objectMeta := ()
    spec :=
      { replicas := some 1
        selector := some ()
        template := ()
        volumeClaimTemplates := []
        serviceName := "web"
        podManagementPolicy := .orderedReady
        updateStrategy := ⟨.rollingUpdate,none⟩
        revisionHistoryLimit := some 10
        reserveOrdinals := [1]
        lifecycle := none
        scaleStrategy := none
        persistentVolumeClaimRetentionPolicy := none}
    status :=
      { observedGeneration := 1
        replicas := 1
        readyReplicas := 1
        availableReplicas := 1
        currentReplicas := 1
        updatedReplicas := 1
        updatedReadyReplicas := 0
        updatedAvailableReplicas := 0
        currentRevision := "web-1"
        updateRevision := "web-1"
        collisionCount := none
        conditions := []
        labelSelector := "" }}

/-- The reserved ordinal is gone. -/
theorem conversion_erases_reserveOrdinals :
    ∃ result : V1beta1.StatefulSet trivialParts,
      (convertFrom (.statefulSet reservingSet)).bind (convertTo · (.statefulSet reservingSet)) =
          .ok (.statefulSet result) ∧
        reservingSet.spec.reserveOrdinals=[1] ∧ result.spec.reserveOrdinals=[] ∧
        result.spec≠reservingSet.spec := by
  refine ⟨_,rfl,rfl,rfl,?_⟩
  intro h
  exact absurd (congrArg (·.reserveOrdinals) h) (by decide)

end Kruise.Apis
