import Kruise.Lib.Transition
import Kruise.Lib.Versioned
import Kruise.WorkloadSpread.Recount

/-!
# Webhook requests, pods and reconciles around one WorkloadSpread

A request (`workloadspread.go:322-427`) reads its clone and writes, and may meet a version
conflict. A reconcile reads a copy, lists the pods as they are, and writes once. All pods have one
version and the workload is not a StatefulSet. A pod is pending from its admission until it
appears, and goes only after its deletion was admitted. No two objects have one name at a time.
-/

namespace Kruise.WorkloadSpread

open Util Util.IntStr Lib.Versioned Lib.Transition

abbrev Statuses := List SubsetStatus

/- Nothing that identifies `a` identifies `b`. A pod with a generated name has no name
before it appears. -/
@[mk_iff] structure Apart (a b : Pod) : Prop where
  uids : a.uid ≠ "" → a.uid≠b.uid
  uidName : a.uid ≠ "" → a.uid≠b.name
  nameUid : b.uid ≠ "" → b.uid≠a.name
  names : a.name ≠ "" → a.name≠b.name

/- The subset under study is `target`, with at most `limit` replicas. The rest of the spec is
what the validating webhook lets through, and the pods are those at the start. -/
structure Config where
  spec : List SubsetSpec
  distinct : (spec.map SubsetSpec.name).Nodup
  valid : ∀ s∈spec,∀ v,s.maxReplicas=some v →
    ∃ k,getValueFromIntOrPercent v 100 true=some k ∧ 0≤k
  target : String
  limit : Nat
  targetSpec : (⟨target,some (.int limit)⟩ : SubsetSpec)∈spec
  pods : List Pod
  apart : pods.Pairwise Apart
  running : ∀ p∈pods,p.name ≠ "" ∧ p.active ∧ p.deletionAdmitted=false ∧
    p.inSubset=p.subset
  fits : (pods.countP fun p => p.subset=some target)≤limit
  workloadReplicas : Int
  replicasNonneg : 0≤workloadReplicas
  syncTime : Int

inductive Request
  | create (podName : String)
  | delete (serial : Nat) (podName subset : String)

structure Change where
  statuses : Statuses
  subset : String
  uid : String

structure Flight where
  req : Request
  ws : Stored Statuses
  phase : Phase Statuses Change

structure Reconcile where
  base : Stored Statuses
  statuses : Statuses

structure World where
  store : Store Statuses
  flights : Nat → Option Flight
  reconcile : Option Reconcile
  pods : List Pod
  pending : List Pod
  nextSerial : Nat

def Config.firstStatuses (c : Config) : Statuses :=
  calculateWorkloadSpreadStatus c.syncTime c.spec [] c.pods c.workloadReplicas fun _ => false

def Config.start (c : Config) : World :=
  { store := Store.start c.firstStatuses
    flights := fun _ => none
    reconcile := none
    pods := c.pods
    pending := []
    nextSerial := (c.pods.map Pod.serial).foldr max 0+1}

inductive Label
  | createStart (id : Nat) (podName : String) (ws : Nat)
  | deleteStart (id : Nat) (serial : Nat) (ws : Nat)
  | read (id : Nat) (cached informer : Option Nat) (uid : String) (replicas now : Int)
  | write (id : Nat)
  | abandon (id : Nat)
  | appear (serial : Nat) (name : String)
  | terminate (serial : Nat)
  | disappear (serial : Nat)
  | reconcileStart (listed : List Pod) (adopt : Nat → Option String) (ws : Nat) (replicas : Int)
      (unschedulable : String → Bool) (now : Int)
  | reconcileWrite
  | reconcileAbandon

def retrySteps : Nat := 4

variable (w : World) (serial : Nat)

def World.setFlight (id : Nat) (f : Option Flight) : World :=
  {w with flights := Function.update w.flights id f}

/- The API server can store the pod: its name is free and its uid new. -/
def World.canCreate (podName uid : String) : Prop :=
  (∀ p∈w.pods,podName ≠ "" → p.name≠podName) ∧
    ∀ p∈w.pods++w.pending,(podName ≠ "" → p.uid≠podName) ∧
      (uid ≠ "" → p.uid≠uid ∧ p.name≠uid)
  deriving Decidable

/- A second admission under the name of a pending pod is for the same pod. -/
def World.isPending (podName : String) : Bool :=
  podName ≠ "" && w.pending.any fun p => p.name=podName

def World.created (podName uid : String) (subset : Option String) : World :=
  if w.isPending podName then w
  else {w with
    pending := w.pending++[⟨w.nextSerial,podName,uid,subset,true,subset,false⟩]
    nextSerial := w.nextSerial+1}

def markDeletion (p : Pod) : Pod :=
  if p.serial=serial then {p with deletionAdmitted := true} else p

def World.deleted : World :=
  {w with pods := w.pods.map (markDeletion serial)}

/- The request is admitted; a pod that is created gets the subset. -/
def World.finish (req : Request) (subset : Option String) (uid : String) : Option World :=
  match req with
  | .create podName => if w.canCreate podName uid then some (w.created podName uid subset) else none
  | .delete serial _ _ => some (w.deleted serial)

def Request.operation (req : Request) (uid : String) : Operation :=
  match req with
  | .create podName => .create podName uid
  | .delete _ podName subset => .delete podName subset

def World.read (spec : List SubsetSpec) (id : Nat) (f : Flight) (tries : Nat)
    (clone : Stored Statuses) (uid : String) (replicas now : Int) : Option World :=
  match updateSubsetForPod spec replicas clone.obj now (f.req.operation uid) with
  | .same subset => (w.finish f.req subset "").map fun w => w.setFlight id none
  | .changed statuses subset uid =>
    some (w.setFlight id (some {f with phase := .writing tries clone ⟨statuses,subset,uid⟩}))

def World.write (id : Nat) (f : Flight) (tries : Nat) (base : Stored Statuses) (change : Change) : Option World :=
  match w.store.update base change.statuses with
  | some store =>
    (({w with store := store} : World).finish f.req (some change.subset) change.uid).map
      fun w => w.setFlight id none
  | none => some (w.setFlight id (some {f with phase := .reading tries true}))

def World.deleteStart (id : Nat) (p : Pod) (ws : Stored Statuses) : World :=
  match p.active,p.subset with
  | true,some subset =>
    w.setFlight id (some ⟨.delete p.serial p.name subset,ws,.reading retrySteps false⟩)
  | _,_ => w.deleted p.serial

/- The name is the pod's own if it has one, and nobody else's. -/
def World.canAppear (p : Pod) (name : String) : Prop :=
  name ≠ "" ∧ (p.name ≠ "" → name=p.name) ∧ (∀ q∈w.pods,q.name≠name ∧ q.uid≠name) ∧
    ∀ q∈w.pending,q.serial≠p.serial → q.name≠name ∧ q.uid≠name
  deriving Decidable

def World.appear (p : Pod) (name : String) : World :=
  {w with
    pods := w.pods++[{p with name := name}]
    pending := w.pending.filter fun q => q.serial≠p.serial}

def terminatePod (p : Pod) : Pod :=
  if p.serial=serial&&p.deletionAdmitted then {p with active := false} else p

def World.terminate : World :=
  {w with pods := w.pods.map (terminatePod serial)}

def World.disappear : World :=
  {w with pods := w.pods.filter fun p => !(p.serial=serial&&!p.active)}

/- `getSuitableSubsetNameForPod` gives a pod without the annotation the subset that fits its
node best, if any. -/
def adoptPod (adopt : Nat → Option String) (p : Pod) : Pod :=
  if p.subset=none then {p with subset := adopt p.serial} else p

def unexpiredStatuses (now : Int) (statuses : Statuses) : Bool :=
  statuses.all fun s => noneExpired creatPodTimeout now s.creatingPods &&
    noneExpired deletePodTimeout now s.deletingPods

def World.reconcileStart (spec : List SubsetSpec) (listed : List Pod)
    (adopt : Nat → Option String) (base : Stored Statuses) (replicas : Int)
    (unschedulable : String → Bool) (now : Int) : World :=
  {w with
    pods := w.pods.map (adoptPod adopt)
    reconcile := some ⟨base,calculateWorkloadSpreadStatus now spec base.obj
      (listed.map (adoptPod adopt)) replicas unschedulable⟩}

def World.reconcileWrite (r : Reconcile) : World :=
  match w.store.update r.base r.statuses with
  | some store => {w with store := store,reconcile := none}
  | none => {w with reconcile := none}

def Config.next (c : Config) (w : World) : Label → Option World
  | .createStart id podName ws =>
    if (w.flights id).isNone then
      (w.store.at ws).map fun copy =>
        w.setFlight id (some ⟨.create podName,copy,.reading retrySteps false⟩)
    else none
  | .deleteStart id serial ws =>
    if (w.flights id).isNone then
      (w.pods.find? fun p => p.serial=serial).bind fun p =>
        (w.store.at ws).map fun copy => w.deleteStart id p copy
    else none
  | .read id cached informer uid replicas now =>
    if uid ≠ "" ∧ 0≤replicas then
      (w.flights id).bind fun f =>
        match f.phase with
        | .reading (tries+1) refresh =>
          w.read c.spec id f tries (w.store.clone f.ws refresh cached informer) uid replicas now
        | _ => none
    else none
  | .write id =>
    (w.flights id).bind fun f =>
      match f.phase with
      | .writing tries base change => w.write id f tries base change
      | _ => none
  | .abandon id => some (w.setFlight id none)
  | .appear serial name =>
    (w.pending.find? fun p => p.serial=serial).bind fun p =>
      if w.canAppear p name then some (w.appear p name) else none
  | .terminate serial => some (w.terminate serial)
  | .disappear serial => some (w.disappear serial)
  | .reconcileStart listed adopt ws replicas unschedulable now =>
    if w.reconcile.isNone ∧ listed.Perm w.pods ∧ 0≤replicas then
      (w.store.at ws).bind fun base =>
        if unexpiredStatuses now base.obj then
          some (w.reconcileStart c.spec listed adopt base replicas unschedulable now)
        else none
    else none
  | .reconcileWrite => w.reconcile.map w.reconcileWrite
  | .reconcileAbandon => some {w with reconcile := none}

def Config.step (c : Config) (w : World) (l : Label) (w' : World) : Prop := c.next w l=some w'

def Config.Reaches (c : Config) (w : World) : Prop := Reachable (· = c.start) c.step w

def Config.inTarget (c : Config) (p : Pod) : Bool := p.inSubset=some c.target

/-- Pods admitted into the subset for which no deletion has been admitted. -/
def Config.undeleted (c : Config) (w : World) : Nat :=
  (w.pods++w.pending).countP fun p => c.inTarget p&&!p.deletionAdmitted

end Kruise.WorkloadSpread
