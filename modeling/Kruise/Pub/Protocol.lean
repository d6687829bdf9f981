import Kruise.Lib.Transition
import Kruise.Pub.Recount
import Kruise.Pub.Validate

/-!
# Webhook requests and controller syncs on one PUB

A request is split where others can come between: when it arrives (`pub_control_utils.go:61-99`),
when an attempt of the retry loop has read its clone and checked the budget, and when it writes. A
sync (`podunavailablebudget_controller.go:250-339`) is split the same way. Every read of the PUB
may return any version. Pods keep their state until an operation on them is admitted; the states
are kept, so that a reader can see an old one.
-/

namespace Kruise.Pub

open Util Lib.Versioned Lib.Transition

/- The matched pods and the PUB, with what the first sync saw. -/
structure Cluster where
  names : List String
  distinct : names.Nodup
  initial : String → PodState
  protects : ∀ n∈names,(initial n).noProtect=false
  pub : PodUnavailableBudget
  allOperations : ∀ op,isNeedPubProtection pub op
  expected : Int
  desired : Int
  desiredOfPub : getDesiredAvailableForPub pub expected=some desired
  desiredPos : 1≤desired
  syncTime : Int

def noRecords : Status := ⟨0,0,0,0,0,∅,∅⟩

variable (c : Cluster)

def Cluster.firstPods : List ObservedPod := c.names.map fun n => ⟨n,c.initial n⟩

def Cluster.firstPub : PodUnavailableBudget :=
  {c.pub with
    status := recount c.pub.generation noRecords c.firstPods c.desired c.expected c.syncTime}

structure Flight where
  req : Request
  pub : Stored PodUnavailableBudget
  phase : Phase PodUnavailableBudget Status

structure Sync where
  pods : List ObservedPod
  pub : Stored PodUnavailableBudget
  expected : Int
  desired : Int
  now : Int
  phase : Phase PodUnavailableBudget Status

/- `history` lists the states of a pod, oldest first; `lastSeen` is the position of the
one that the last sync saw. -/
structure World where
  store : Store PodUnavailableBudget
  flights : Nat → Option Flight
  sync : Option Sync
  history : String → List PodState
  lastSeen : String → Nat
  admitted : String → Bool

def Cluster.start : World :=
  { store := Store.start c.firstPub
    flights := fun _ => none
    sync := none
    history := fun n => [c.initial n]
    lastSeen := fun _ => 0
    admitted := fun _ => false}

inductive Label
  | podChanges (name : String) (state : PodState)
  | receive (id : Nat) (name : String) (seen : Nat) (op : Operation) (dryRun : Bool) (pub : Nat)
  | read (id : Nat) (cached informer : Option Nat) (now : Int)
  | write (id : Nat)
  | abandon (id : Nat)
  | syncStart (listed : List String) (seen : String → Nat) (pub : Nat) (expected now : Int)
  | syncRead (cached informer : Option Nat)
  | syncWrite
  | syncAbandon

variable (w : World)

def World.setFlight (id : Nat) (f : Option Flight) : World :=
  {w with flights := Function.update w.flights id f}

def World.grant (req : Request) : World :=
  if req.dryRun then w else {w with admitted := Function.update w.admitted req.name true}

/- A pod that is terminating or has finished stays so. -/
def World.mayBecome (name : String) (state : PodState) : Bool :=
  w.admitted name&&!state.noProtect &&
    ((w.history name).all fun old => old.active||!state.active)

def World.podChanges (name : String) (state : PodState) : World :=
  {w with history := Function.update w.history name (w.history name++[state])}

def World.receive (id : Nat) (req : Request) (pub : Stored PodUnavailableBudget) : World :=
  if unprotected req.pod||passesOn pub.obj req then w.grant req
  else w.setFlight id (some ⟨req,pub,.reading conflictRetrySteps false⟩)

def World.read (id : Nat) (f : Flight) (tries : Nat) (clone : Stored PodUnavailableBudget) (now : Int) : World :=
  match attempt clone.obj f.req now with
  | .denied => w.setFlight id none
  | .admitted => (w.setFlight id none).grant f.req
  | .write status => w.setFlight id (some {f with phase := .writing tries clone status})

def World.write (id : Nat) (f : Flight) (tries : Nat)
    (base : Stored PodUnavailableBudget) (status : Status) : World :=
  match w.store.update base {base.obj with status := status} with
  | some store => (({w with store := store} : World).setFlight id none).grant f.req
  | none => w.setFlight id (some {f with phase := .reading tries true})

/- The pods a sync lists. Pods that are not active may be left out, as `GetPodsForPub`
does for a selector, or be gone. -/
def World.observe (listed : List String) (seen : String → Nat) : List ObservedPod :=
  listed.filterMap fun n => (w.history n)[seen n]?.map fun s => ⟨n,s⟩

def World.maySee (names listed : List String) (seen : String → Nat) : Prop :=
  listed.Nodup ∧ (∀ n∈listed,n∈names) ∧
    ∀ n∈names,w.lastSeen n ≤ seen n ∧ seen n<(w.history n).length ∧
      (n∈listed ∨ ∀ s∈(w.history n)[seen n]?,s.active=false)

def World.syncStart (listed : List String) (seen : String → Nat)
    (pub : Stored PodUnavailableBudget) (desired expected now : Int) : World :=
  {w with
    lastSeen := seen
    sync := some ⟨w.observe listed seen,pub,expected,desired,now,
      .reading conflictRetrySteps false⟩}

def World.syncRead (s : Sync) (tries : Nat) (clone : Stored PodUnavailableBudget) : World :=
  let status:=recount clone.obj.generation clone.obj.status s.pods s.desired s.expected s.now
  if sameStatus clone.obj.status status then {w with sync := none}
  else {w with sync := some {s with phase := .writing tries clone status}}

def World.syncWrite (s : Sync) (tries : Nat) (base : Stored PodUnavailableBudget) (status : Status) : World :=
  match w.store.update base {base.obj with status := status} with
  | some store => {w with store := store,sync := none}
  | none => {w with sync := some {s with phase := .reading tries true}}

instance (w : World) (names listed : List String) (seen : String → Nat) :
    Decidable (w.maySee names listed seen) :=
  inferInstanceAs (Decidable (_ ∧ _ ∧ ∀ n∈names,_ ∧ _ ∧ (_ ∨ ∀ s∈(w.history n)[seen n]?,_)))

/-- One step, if it is possible. `receive` needs the pod's state and the copy of the PUB that
the request works on, `syncStart` also that the desired number is still the same, and
`syncRead` that no record of the clone has timed out. -/
def Cluster.next (c : Cluster) (w : World) : Label → Option World
  | .podChanges name state =>
    if name∈c.names ∧ w.mayBecome name state then some (w.podChanges name state) else none
  | .receive id name seen op dryRun pub =>
    if name∈c.names ∧ (w.flights id).isNone then
      (w.history name)[seen]?.bind fun pod =>
        (w.store.at pub).map fun copy => w.receive id ⟨name,pod,op,dryRun⟩ copy
    else none
  | .read id cached informer now =>
    (w.flights id).bind fun f =>
      match f.phase with
      | .reading (tries+1) refresh =>
        some (w.read id f tries (w.store.clone f.pub refresh cached informer) now)
      | _ => none
  | .write id =>
    (w.flights id).bind fun f =>
      match f.phase with
      | .writing tries base status => some (w.write id f tries base status)
      | _ => none
  | .abandon id => some (w.setFlight id none)
  | .syncStart listed seen pub expected now =>
    if w.sync.isNone ∧ w.maySee c.names listed seen then
      (w.store.at pub).bind fun copy =>
        if getDesiredAvailableForPub copy.obj expected=some c.desired then
          some (w.syncStart listed seen copy c.desired expected now)
        else none
    else none
  | .syncRead cached informer =>
    w.sync.bind fun s =>
      match s.phase with
      | .reading (tries+1) refresh =>
        let clone:=w.store.clone s.pub refresh cached informer
        if unexpired clone.obj.status s.now then some (w.syncRead s tries clone) else none
      | _ => none
  | .syncWrite =>
    w.sync.bind fun s =>
      match s.phase with
      | .writing tries base status => some (w.syncWrite s tries base status)
      | _ => none
  | .syncAbandon => some {w with sync := none}

def Cluster.step (c : Cluster) (w : World) (l : Label) (w' : World) : Prop := c.next w l=some w'

def Cluster.Reaches (c : Cluster) (w : World) : Prop := Reachable (· = c.start) c.step w

def World.dryRunStep : Label → Prop
  | .receive _ _ _ _ dryRun _ => dryRun
  | .read id _ _ _ => ∃ f,w.flights id=some f ∧ f.req.dryRun
  | .write id => ∃ f,w.flights id=some f ∧ f.req.dryRun
  | .abandon id => ∃ f,w.flights id=some f ∧ f.req.dryRun
  | _ => False

def Cluster.initiallyAvailable (n : String) : Bool := available (c.initial n)

def Cluster.availableAtStart : Nat := c.names.countP c.initiallyAvailable

/- Initially available pods with an admitted operation. -/
def Cluster.admittedAvailable (c : Cluster) (w : World) : Nat :=
  c.names.countP fun n => w.admitted n&&c.initiallyAvailable n

/- Pods that were not available at the start and have become available since. -/
def Cluster.madeAvailable (c : Cluster) (w : World) : Nat :=
  c.names.countP fun n => !c.initiallyAvailable n&&(w.history n).any available

def Cluster.limit (c : Cluster) (w : World) : Int :=
  max 0 (c.availableAtStart+c.madeAvailable w-c.desired)

end Kruise.Pub
