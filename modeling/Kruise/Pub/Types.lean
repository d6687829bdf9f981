import Kruise.Util.IntStr
import Kruise.Util.Records

/-!
# PodUnavailableBudgets and the functions on one copy of them

The two record maps (`DisruptedPods` for deletions and evictions, `UnavailablePods` for updates),
what the webhook does to a copy (`pub_control_utils.go:193-255`) and what the controller computes
(`podunavailablebudget_controller.go:362-505`).
-/

namespace Kruise.Pub

open Util Util.IntStr

inductive Operation
  | delete | update | evict
  deriving DecidableEq,Repr

def Operation.text : Operation → String
  | .delete => "DELETE"
  | .update => "UPDATE"
  | .evict => "EVICT"

structure Status where
  unavailableAllowed : Int
  currentAvailable : Int
  desiredAvailable : Int
  totalReplicas : Int
  observedGeneration : Int
  disruptedPods : Records
  unavailablePods : Records

/- `protectOperations` is the annotation `kruise.io/pub-protect-operations`. -/
structure PodUnavailableBudget where
  generation : Int
  maxUnavailable : Option IntOrString
  minAvailable : Option IntOrString
  protectOperations : Option String
  status : Status

/- What the webhook and the controller look at in a pod: `IsPodReady`,
`IsPodStateConsistent` and `IsPodActive`, and the `pub-no-protect` annotation. -/
structure PodState where
  ready : Bool
  consistent : Bool
  active : Bool
  noProtect : Bool
  deriving DecidableEq,Repr

def maxUnavailablePodSize : Nat := 2000

def splitComma : List Char → List (List Char)
  | [] => [[]]
  | c::cs =>
    if c = ',' then []::splitComma cs
    else match splitComma cs with
      | [] => [[c]]
      | part::parts => (c::part)::parts

def isNeedPubProtection (pub : PodUnavailableBudget) (op : Operation) : Bool :=
  match pub.protectOperations with
  | none => true
  | some value => value = "" || op.text.toList∈splitComma value.toList

def isPodRecordedInPub (name : String) (status : Status) : Bool :=
  name∈status.unavailablePods||name∈status.disruptedPods

/- `none` is the Forbidden error: no budget, or too many records unconfirmed. -/
def checkAndDecrement (name : String) (status : Status) (op : Operation) (now : Int) : Option Status :=
  if status.unavailableAllowed≤0 then none
  else if status.disruptedPods.keys.length+status.unavailablePods.keys.length >
      maxUnavailablePodSize then none
  else
    let status:={status with unavailableAllowed := status.unavailableAllowed-1}
    if op=.update then
      some {status with unavailablePods := status.unavailablePods.insert name now}
    else
      some {status with disruptedPods := status.disruptedPods.insert name now}

def deletionTimeout : Int := 20*1000000000

def updatedDelayCheckTime : Int := 10*1000000000

structure ObservedPod where
  name : String
  state : PodState

/- One map of `buildDisruptedAndUnavailablePods`: the records of active pods that have
not timed out. -/
def keepRecord (timeout now : Int) (records kept : Records) (p : ObservedPod) : Records :=
  if !p.state.active then kept
  else match records.lookup p.name with
    | none => kept
    | some t => if expired timeout now t then kept else kept.insert p.name t

def keepRecords (timeout now : Int) (records : Records) (pods : List ObservedPod) : Records :=
  pods.foldl (keepRecord timeout now records) ∅

def buildDisruptedPods (status : Status) (pods : List ObservedPod) (now : Int) : Records :=
  keepRecords deletionTimeout now status.disruptedPods pods

def buildUnavailablePods (status : Status) (pods : List ObservedPod) (now : Int) : Records :=
  keepRecords updatedDelayCheckTime now status.unavailablePods pods

def countAvailablePods (pods : List ObservedPod) (disrupted unavailable : Records) : Nat :=
  pods.countP fun p =>
    p.state.active&&!(p.name∈disrupted||p.name∈unavailable) &&
      (p.state.consistent&&p.state.ready)

def getDesiredAvailableForPub (pub : PodUnavailableBudget) (expectedCount : Int) : Option Int :=
  match pub.maxUnavailable with
  | some v => (getScaledIntOrPercent v expectedCount true).map fun n => max (expectedCount-n) 0
  | none =>
    match pub.minAvailable with
    | none => some 0
    | some (.int i) => some i
    | some (.str s) => getScaledIntOrPercent (.str s) expectedCount true

/- The status that `updatePubStatus` computes from the records of `status`. -/
def recount (generation : Int) (status : Status) (pods : List ObservedPod)
    (desiredAvailable expectedCount now : Int) : Status :=
  let disrupted:=buildDisruptedPods status pods now
  let unavailable:=buildUnavailablePods status pods now
  let available : Int := countAvailablePods pods disrupted unavailable
  { unavailableAllowed :=
      if available-desiredAvailable≤0 then 0 else available-desiredAvailable
    currentAvailable := available
    desiredAvailable := desiredAvailable
    totalReplicas := expectedCount
    observedGeneration := generation
    disruptedPods := disrupted
    unavailablePods := unavailable}

/- `updatePubStatus` writes nothing when the status would stay the same. -/
def sameStatus (a b : Status) : Bool :=
  a.currentAvailable=b.currentAvailable&&a.desiredAvailable=b.desiredAvailable &&
    a.totalReplicas=b.totalReplicas&&a.unavailableAllowed=b.unavailableAllowed &&
    a.observedGeneration=b.observedGeneration &&
    a.disruptedPods.entries.Perm b.disruptedPods.entries &&
    a.unavailablePods.entries.Perm b.unavailablePods.entries

end Kruise.Pub
