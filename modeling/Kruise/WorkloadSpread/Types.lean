import Kruise.Util.IntStr
import Kruise.Util.Records

/-!
# WorkloadSpread statuses, as the webhook and the controller change them

The statuses of the subsets for one pod version. The webhook (`workloadspread.go:477-580`,
`656-688`, `792-810`) charges a creation to the first subset with room and credits a deletion to
the pod's subset, each with a record; the controller (`workloadspread_controller.go:512-742`)
counts anew. An empty list is a version without an entry.
-/

namespace Kruise.WorkloadSpread

open Util Util.IntStr

structure SubsetSpec where
  name : String
  maxReplicas : Option IntOrString

/- `unschedulable` is the condition `SubsetSchedulable` with status `False`. -/
structure SubsetStatus where
  name : String
  unschedulable : Bool
  missingReplicas : Int
  creatingPods : Records
  deletingPods : Records
  replicas : Int

/- `serial` tells pods apart that had one name after the other. `uid` and `subset` are
what the annotation `apps.kruise.io/matched-workloadspread` holds; `inSubset` and
`deletionAdmitted` are what the API server has let through. -/
structure Pod where
  serial : Nat
  name : String
  uid : String
  subset : Option String
  active : Bool
  inSubset : Option String
  deletionAdmitted : Bool
  deriving DecidableEq,Repr

/- The key of the pod's creation record: webhooks see no full name of a pod with a
generated name and make up a uid. -/
def Pod.key (p : Pod) : String := if p.uid ≠ "" then p.uid else p.name

def initializedSubsetStatus (replicas : Int) (s : SubsetSpec) : SubsetStatus :=
  { name := s.name
    unschedulable := false
    missingReplicas := match s.maxReplicas with
      | none => -1
      | some v => (getScaledIntOrPercent v replicas true).getD 0
    creatingPods := ∅
    deletingPods := ∅
    replicas := 0}

def initializedSubsetStatuses (spec : List SubsetSpec) (replicas : Int) : List SubsetStatus :=
  spec.map (initializedSubsetStatus replicas)

def isRecordedIn (podName : String) (s : SubsetStatus) : Bool :=
  podName∈s.creatingPods||podName∈s.deletingPods

variable (statuses : List SubsetStatus)

def isPodRecordedInSubset (podName : String) : Option SubsetStatus :=
  statuses.find? (isRecordedIn podName)

def hasRoom (s : SubsetStatus) : Bool :=
  !s.unschedulable&&(s.missingReplicas > 0||s.missingReplicas = -1)

def getSuitableSubset : Option SubsetStatus := statuses.find? hasRoom

def getSpecificSubset (name : String) : Option SubsetStatus :=
  statuses.find? fun s => s.name=name

def replaceSubset (s : SubsetStatus) : List SubsetStatus → List SubsetStatus
  | [] => []
  | t::ts => if t.name=s.name then s::ts else t::replaceSubset s ts

def charge (s : SubsetStatus) (key : String) (now : Int) : SubsetStatus :=
  {s with
    creatingPods := s.creatingPods.insert key now
    missingReplicas := if s.missingReplicas > 0 then s.missingReplicas-1 else s.missingReplicas}

def credit (s : SubsetStatus) (podName : String) (now : Int) : SubsetStatus :=
  {s with
    deletingPods := s.deletingPods.insert podName now
    missingReplicas := if s.missingReplicas ≥ 0 then s.missingReplicas+1 else s.missingReplicas}

/- A creation carries the uid that would be generated if the pod has no full name yet. -/
inductive Operation
  | create (podName uid : String)
  | delete (podName subset : String)

inductive Outcome
  | same (subset : Option String)
  | changed (statuses : List SubsetStatus) (subset : String) (uid : String)

def createInSubset (podName uid : String) (now : Int) : Outcome :=
  match getSuitableSubset statuses with
  | none => .same none
  | some s =>
    if s.missingReplicas = -1 then .same (some s.name)
    else if podName ≠ "" then
      .changed (replaceSubset (charge s podName now) statuses) s.name ""
    else .changed (replaceSubset (charge s uid now) statuses) s.name uid

def deleteInSubset (podName subset : String) (now : Int) : Outcome :=
  match getSpecificSubset statuses subset with
  | none => .same none
  | some s =>
    if s.missingReplicas = -1 then .same (some s.name)
    else .changed (replaceSubset (credit s podName now) statuses) s.name ""

/- The statuses a webhook works on: those of the version, or fresh ones. -/
def statusesFor (spec : List SubsetSpec) (replicas : Int) (stored : List SubsetStatus) : List SubsetStatus :=
  if stored.length=0 then initializedSubsetStatuses spec replicas else stored

def updateSubsetForPod (spec : List SubsetSpec) (replicas : Int) (stored : List SubsetStatus)
    (now : Int) : Operation → Outcome
  | .create podName uid =>
    let statuses:=statusesFor spec replicas stored
    match if podName ≠ "" then isPodRecordedInSubset statuses podName else none with
    | some s => .same (some s.name)
    | none => createInSubset statuses podName uid now
  | .delete podName subset =>
    let statuses:=statusesFor spec replicas stored
    match isPodRecordedInSubset statuses podName with
    | some _ => .same none
    | none => deleteInSubset statuses podName subset now

def creatPodTimeout : Int := 30*1000000000

def deletePodTimeout : Int := 15*1000000000

structure Tally where
  creating : Records
  deleting : Records
  missing : Int
  active : Int

def tallyPod (now maxReplicas : Int) (oldDeleting : Records) (t : Tally) (p : Pod) : Tally :=
  let t:={t with creating := t.creating.erase p.key}
  if !p.active then t
  else
    let t:={t with
      active := t.active+1
      missing := if t.missing > 0 then t.missing-1 else t.missing}
    match oldDeleting.lookup p.name with
    | none => t
    | some time =>
      if expired deletePodTimeout now time then t
      else {t with
        deleting := t.deleting.insert p.name time
        missing := if t.missing < maxReplicas then t.missing+1 else t.missing}

def tallyCreating (now : Int) (acc : Records × Int) (e : Sigma fun _ : String => Int) : Records × Int :=
  if expired creatPodTimeout now e.2 then acc
  else (acc.1.insert e.1 e.2,if acc.2 > 0 then acc.2-1 else acc.2)

/- `-1` stands for no limit. -/
def subsetMaxReplicas (s : SubsetSpec) (workloadReplicas : Int) : Option Int :=
  match s.maxReplicas with
  | none => some (-1)
  | some v => (getValueFromIntOrPercent v workloadReplicas true).filter fun n => 0≤n

def calculateWorkloadSpreadSubsetStatus (now : Int) (pods : List Pod) (s : SubsetSpec)
    (old : Option SubsetStatus) (workloadReplicas : Int) : Option SubsetStatus :=
  (subsetMaxReplicas s workloadReplicas).map fun maxReplicas =>
    let oldCreating:=(old.map SubsetStatus.creatingPods).getD ∅
    let oldDeleting:=(old.map SubsetStatus.deletingPods).getD ∅
    let t:=pods.foldl (tallyPod now maxReplicas oldDeleting) ⟨oldCreating,∅,maxReplicas,0⟩
    let rest:=t.creating.entries.foldl (tallyCreating now) (∅,t.missing)
    { name := s.name
      unschedulable := false
      missingReplicas := rest.2
      creatingPods := rest.1
      deletingPods := t.deleting
      replicas := t.active}

/- `unschedulable` is what `rescheduleSubset` decides for each subset. -/
def calculateWorkloadSpreadSubsetStatuses (now : Int) (old : List SubsetStatus) (pods : List Pod)
    (workloadReplicas : Int) (unschedulable : String → Bool) :
    List SubsetSpec → Option (List SubsetStatus)
  | [] => some []
  | s::rest =>
    (calculateWorkloadSpreadSubsetStatus now (pods.filter fun p => p.subset=some s.name) s
        (old.find? fun o => o.name=s.name) workloadReplicas).bind fun st =>
      (calculateWorkloadSpreadSubsetStatuses now old pods workloadReplicas unschedulable rest).map
        fun sts => {st with unschedulable := unschedulable s.name}::sts

def isEmptySubsetStatuses : Bool :=
  (statuses.map fun s => s.replicas +
    ((s.creatingPods.keys.length : Int)+(s.deletingPods.keys.length : Int))).sum=0

/- `calculateWorkloadSpreadStatus` for one version. A version without pods keeps its entry
only for its records. -/
def calculateWorkloadSpreadStatus (now : Int) (spec : List SubsetSpec) (old : List SubsetStatus)
    (pods : List Pod) (workloadReplicas : Int) (unschedulable : String → Bool) : List SubsetStatus :=
  let statuses:=(calculateWorkloadSpreadSubsetStatuses now old pods workloadReplicas
    unschedulable spec).getD []
  if pods.isEmpty&&(old.isEmpty||isEmptySubsetStatuses statuses) then [] else statuses

end Kruise.WorkloadSpread
