import Kruise.Lib.Keyed
import Kruise.Util.Selector
import Mathlib.Data.Finmap
import Mathlib.Data.List.Sort

/-!
# One reconcile of a ResourceDistribution

`doReconcile`, `distributeResource`, `cleanResource` and `handleErrors`
(`resourcedistribution_controller.go` 191-369) with their helpers (`utils.go` 116-348). Calls to the
API server succeed, and `server` is what it makes of the fields of an object. The calls of one batch
each touch the object of their own namespace only, so they are taken in some order.
-/

namespace Kruise.ResourceDistribution

open Lib.Keyed Util.Selector

inductive Kind
  | secret
  | configMap
  deriving DecidableEq,Repr

structure ResourceKey where
  namespaceName : String
  kind : Kind
  name : String
  deriving DecidableEq,Repr

structure OwnerReference where
  apiVersion : String
  kind : String
  name : String
  uid : String
  controller : Bool
  deriving DecidableEq,Repr

abbrev Values := Finmap fun _ : String => String

/- What an object has besides its metadata and its status. -/
structure Content where
  data : Option Values
  binaryData : Option Values
  stringData : Option Values
  type : Option String
  immutable : Option Bool
  deriving DecidableEq

structure Resource where
  labels : Labels
  annotations : Labels
  finalizers : List String
  owners : List OwnerReference
  deleting : Bool
  content : Content

structure Namespace where
  name : String
  labels : Labels
  terminating : Bool

structure Cluster where
  namespaces : List Namespace
  nodup : (namespaces.map Namespace.name).Nodup

def Cluster.names (c : Cluster) : List String := c.namespaces.map Namespace.name

structure Targets where
  allNamespaces : Bool
  excludedNamespaces : List String
  includedNamespaces : List String
  namespaceLabelSelector : LabelSelector

structure Template where
  kind : Kind
  name : String
  labels : Labels
  annotations : Labels
  finalizers : List String
  owners : List OwnerReference
  content : Content

inductive ConditionID
  | get
  | create
  | update
  | delete
  | conflict
  | notExist
  deriving DecidableEq,Repr

def conditionIDs : List ConditionID := [.get,.create,.update,.delete,.conflict,.notExist]

structure UnexpectedError where
  err : String
  namespaceName : String
  conditionID : ConditionID
  deriving DecidableEq,Repr

structure Condition where
  conditionID : ConditionID
  status : Bool
  lastTransitionTime : Int
  reason : String
  failedNamespaces : List String
  deriving DecidableEq,Repr

structure Status where
  desired : Int
  succeeded : Int
  failed : Int
  observedGeneration : Int
  conditions : List Condition
  deriving DecidableEq,Repr

/- `hashCode` is the hash of the raw resource. -/
structure Distributor where
  apiVersion : String
  kind : String
  name : String
  uid : String
  generation : Int
  resource : Template
  hashCode : String
  targets : Targets
  status : Status

variable (d : Distributor)

def Distributor.key (ns : String) : ResourceKey :=
  ⟨ns,d.resource.kind,d.resource.name⟩

def setCondition (c : Condition) (e : UnexpectedError) : Condition :=
  {c with reason := e.err,failedNamespaces := c.failedNamespaces++[e.namespaceName]}

/- Conflicts and missing namespaces are recorded, but are not returned as errors. -/
def handleErrors (errs : List UnexpectedError) : List Condition × List ConditionID :=
  let conditions:=conditionIDs.map fun id =>
    (errs.filter fun e => e.conditionID=id).foldl setCondition ⟨id,false,0, "",[]⟩
  let failing:=conditions.filter fun c =>
    c.failedNamespaces≠[] ∧ c.conditionID≠.conflict ∧ c.conditionID≠.notExist
  (conditions,failing.map Condition.conditionID)

def newCondition (now : Int) (old : List Condition) (c : Condition) : Condition :=
  let status:=!c.failedNamespaces.isEmpty
  {c with
    reason := if c.failedNamespaces.isEmpty then "Succeeded" else c.reason
    status := status
    lastTransitionTime :=
      match findKey Condition.conditionID c.conditionID old with
      | none => now
      | some o => if o.status≠status then now else o.lastTransitionTime}

def calculateNewStatus (now : Int) (d : Distributor) (conditions : List Condition)
    (desired succeeded : Int) : Status where
  desired := desired
  succeeded := succeeded
  failed := desired-succeeded
  observedGeneration := d.generation
  conditions := conditions.map (newCondition now d.status.conditions)

/- `sets.String` and its `List`. -/
def sortedSet (xs : List String) : List String := xs.dedup.insertionSort fun a b => ¬b<a

def listNamespacesForDistributor (c : Cluster) (targets : Targets) : List String × List String :=
  let base:=if targets.allNamespaces then c.names else targets.includedNamespaces
  let selected :=
    if !targets.allNamespaces&&!targets.namespaceLabelSelector.isEmpty then
      (c.namespaces.filter fun n => targets.namespaceLabelSelector.matches n.labels).map
        Namespace.name
    else []
  let matched:=(base++selected).filter fun ns => ns∉targets.excludedNamespaces
  (sortedSet matched,sortedSet (c.names.filter fun ns => ns∉matched))

def needToUpdate (old : Resource) (new : Template) : Bool := decide (old.content≠new.content)

def isControlledByDistributor (r : Resource) (d : Distributor) : Bool :=
  match r.owners.find? OwnerReference.controller with
  | none => false
  | some c => decide (d.apiVersion=c.apiVersion ∧ d.kind=c.kind ∧ d.name=c.name)

def resourceHashCodeAnnotation : String := "kruise.io/resourcedistribution.resource.hashcode"

def sourceResourceDistributionOfResource : String := "kruise.io/resourcedistribution.resource.from"

/- Values that only the old object has are kept. -/
def mergeValues (new old : Labels) : Labels := fun k => (new k).or (old k)

def mergeMetadata (new : Template) (old : Resource) : Template :=
  {new with
    labels := mergeValues new.labels old.labels
    annotations := mergeValues new.annotations old.annotations
    finalizers := sortedSet (new.finalizers++old.finalizers)}

def newControllerRef : OwnerReference :=
  ⟨d.apiVersion,d.kind,d.name,d.uid,true⟩

def makeResourceObject (oldResource : Option Resource) : Resource :=
  let new:=match oldResource with
    | none => d.resource
    | some old => mergeMetadata d.resource old
  { labels := new.labels
    annotations := Function.update (Function.update new.annotations resourceHashCodeAnnotation
      (some d.hashCode)) sourceResourceDistributionOfResource (some d.name)
    finalizers := new.finalizers
    owners :=
      if new.owners.any fun o => o.uid=d.uid then new.owners
      else new.owners++[newControllerRef d]
    deleting := false
    content := new.content}

inductive Action
  | leave
  | create (r : Resource)
  | update (r : Resource)
  | delete
  | fail (e : UnexpectedError)

def liveNamespace (c : Cluster) (ns : String) : Bool :=
  match findKey Namespace.name ns c.namespaces with
  | none => false
  | some n => !n.terminating

def conflictText : String :=
  "conflict with existing resources because of the same namespace, group, version, kind and name"

def distributeTo (c : Cluster) (ns : String) (oldResource : Option Resource) : Action :=
  if !liveNamespace c ns then
    .fail ⟨"namespace not found or is terminating",ns,.notExist⟩
  else
    match oldResource with
    | none => .create (makeResourceObject d none)
    | some old =>
      if !isControlledByDistributor old d then
        .fail ⟨conflictText,ns,.conflict⟩
      else if needToUpdate old d.resource then .update (makeResourceObject d (some old))
      else .leave

def cleanIn (c : Cluster) (ns : String) (oldResource : Option Resource) : Action :=
  if !liveNamespace c ns then .leave
  else
    match oldResource with
    | none => .leave
    | some old => if !isControlledByDistributor old d then .leave else .delete

inductive Verb
  | create
  | update
  | delete
  deriving DecidableEq,Repr

structure Store where
  resources : ResourceKey → Option Resource
  writes : List (Verb × ResourceKey)

def Action.error : Action → Option UnexpectedError
  | .fail e => some e
  | _ => none

def Action.verb : Action → Option Verb
  | .create _ => some .create
  | .update _ => some .update
  | .delete => some .delete
  | _ => none

variable (server : Content → Content)

/- An object with finalizers stays until they are gone. -/
def Action.effect (old : Option Resource) : Action → Option Resource
  | .leave => old
  | .fail _ => old
  | .create r => some {r with content := server r.content,deleting := false}
  | .update r =>
    some {r with
      content := server r.content
      deleting := (old.map Resource.deleting).getD false}
  | .delete =>
    old.bind fun r => if r.finalizers=[] then none else some {r with deleting := true}

def Store.perform (s : Store) (key : ResourceKey) (a : Action) : Store where
  resources := Function.update s.resources key (a.effect server (s.resources key))
  writes := s.writes++(a.verb.map fun verb => (verb,key)).toList

def turn (d : Distributor) (action : String → Option Resource → Action) (acc : Store × List UnexpectedError)
    (ns : String) : Store × List UnexpectedError :=
  let a:=action ns (acc.1.resources (d.key ns))
  (acc.1.perform server (d.key ns) a,acc.2++a.error.toList)

structure Schedule where
  order : List String → List String
  perm : ∀ batch,(order batch).Perm batch

def syncBatches (schedule : Schedule)
    (run : Store × List UnexpectedError → String → Store × List UnexpectedError) :
    Nat → Nat → List String → Int × Store × List UnexpectedError →
      Int × Store × List UnexpectedError
  | 0,_,_,acc => acc
  | fuel+1,batchSize,remaining,(successes,acc) =>
    if batchSize=0 then (successes,acc)
    else
      let acc' := (schedule.order (remaining.take batchSize)).foldl run acc
      let errCount:=acc'.2.length-acc.2.length
      let rest:=remaining.drop batchSize
      syncBatches schedule run fuel (min (2*batchSize) rest.length) rest
        (successes+(batchSize-errCount),acc')

/- A batch takes at least one namespace, so there are no more batches than namespaces. -/
def syncItSlowly (schedule : Schedule)
    (run : Store × List UnexpectedError → String → Store × List UnexpectedError)
    (namespaces : List String) (initialBatchSize : Nat) (s : Store) : Int × Store × List UnexpectedError :=
  syncBatches schedule run namespaces.length (min namespaces.length initialBatchSize) namespaces
    (0,s,[])

structure Outcome where
  store : Store
  status : Status
  errors : List ConditionID

def doReconcile (schedule : Schedule) (now : Int) (d : Distributor) (c : Cluster) (s : Store) : Outcome :=
  let namespaces:=listNamespacesForDistributor c d.targets
  let distributed:=syncItSlowly schedule (turn server d (distributeTo d c)) namespaces.1 1 s
  let cleaned:=syncItSlowly schedule (turn server d (cleanIn d c)) namespaces.2 1 distributed.2.1
  let handled:=handleErrors (distributed.2.2++cleaned.2.2)
  { store := cleaned.2.1
    status := calculateNewStatus now d handled.1 namespaces.1.length distributed.1
    errors := handled.2}

end Kruise.ResourceDistribution
