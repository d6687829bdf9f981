import Kruise.Lib.Feed
import Kruise.Lib.Transition
import Kruise.Util.PodReadiness

/-!
# The controller of a ContainerRecreateRequest

`Reconcile` with `acquirePodNotReady` and `releasePodNotReady` (`crr_controller.go` 136-334). The
controller reads through a cache that lags behind and then makes one API call after the other;
between the calls anything else may happen, and it may crash. An update inside `RetryOnConflict` is
one step, a lost reply a call followed by a crash.
-/

namespace Kruise.ContainerRecreateRequest

open Lib Util.PodReadiness

/- `ContainerRecreateRequestUnreadyAcquiredKey`: the finalizer, and the annotation of this name. -/
def unreadyAcquiredKey : String := "crr.apps.kruise.io/unready-acquired"

def kruisePodReady : String := "KruisePodReady"

structure ContainerStatus where
  name : String
  ready : Bool
  restartCount : Nat
  containerID : String
  runningSince : Option Int
  deriving DecidableEq

structure Pod where
  uid : String
  deleting : Bool
  readinessGates : List String
  condition : Option ReadyCondition
  containerStatuses : List ContainerStatus
  deriving DecidableEq

structure SyncContainerStatus where
  name : String
  ready : Bool
  restartCount : Nat
  containerID : String
  deriving DecidableEq

inductive Phase
  | unset
  | pending
  | recreating
  | succeeded
  | failed
  | completed
  deriving DecidableEq

/- `active` is a label, `unreadyAcquired` and `syncContainerStatuses` are annotations. -/
structure CRR where
  deleting : Bool
  finalizers : List String
  active : Bool
  unreadyAcquired : Bool
  syncContainerStatuses : Option (List SyncContainerStatus)
  phase : Phase
  completionTime : Option Int
  message : String
  deriving DecidableEq

structure Request where
  ns : String
  name : String
  podUID : String
  creationTimestamp : Int
  containers : List String
  unreadyGracePeriodSeconds : Option Int
  activeDeadlineSeconds : Option Int
  ttlSecondsAfterFinished : Option Int

variable (req : Request) (crr : CRR)

def getReadinessMessage : Message :=
  ⟨"ContainerRecreateRequest",req.ns ++ "/" ++ req.name⟩

def responseTimeout : Int := 60

def containsReadinessGate (pod : Pod) : Bool := decide (kruisePodReady∈pod.readinessGates)

inductive Call
  | completeCRR (crr : CRR) (now : Int) (msg : String)
  | patchStatuses (crr : CRR) (pod : Pod)
  | addFinalizer (pod : Pod)
  | addNotReadyKey
  | patchAcquired
  | removeNotReadyKey (crr : CRR) (now : Int)
  | removeFinalizer (crr : CRR) (now : Int)
  | patchActive
  | deleteCRR
  deriving DecidableEq

def acquired (pod : Pod) : Call :=
  if alreadyHasKey pod.condition (getReadinessMessage req) then .patchAcquired else .addNotReadyKey

def acquirePodNotReady (pod : Pod) : Call :=
  if containsReadinessGate pod then
    if unreadyAcquiredKey∈crr.finalizers then acquired req pod else .addFinalizer pod
  else .patchAcquired

/- A pod that is not found has no readiness gate. -/
def releasePodNotReady (pod : Option Pod) (now : Int) : Call :=
  if pod.any fun p => !p.deleting&&containsReadinessGate p then .removeNotReadyKey crr now
  else .removeFinalizer crr now

/- What is left to do for a request that is deleted or complete, once it is released. -/
def finish (now : Int) : Option Call :=
  if crr.deleting then none
  else if crr.active then some .patchActive
  else match req.ttlSecondsAfterFinished,crr.completionTime with
    | some ttl,some completion => if ttl-(now-completion)≤0 then some .deleteCRR else none
    | _,_ => none

def syncContainerStatuses (pod : Pod) : List SyncContainerStatus :=
  req.containers.filterMap fun name =>
    (pod.containerStatuses.find? fun s => s.name=name).bind fun s =>
      if s.runningSince.any fun startedAt => req.creationTimestamp ≤ startedAt then
        some ⟨s.name,s.ready,s.restartCount,s.containerID⟩
      else none

def makeNotReady (pod : Pod) : Option Call :=
  if req.unreadyGracePeriodSeconds.isSome&&!crr.unreadyAcquired then
    some (acquirePodNotReady req crr pod)
  else none

def reconcile (now : Int) (crr : Option CRR) (pod : Option Pod) : Option Call :=
  match crr with
  | none => none
  | some crr =>
    if crr.deleting||crr.completionTime.isSome then
      if unreadyAcquiredKey∈crr.finalizers then some (releasePodNotReady crr pod now)
      else finish req crr now
    else match pod with
      | none => some (.completeCRR crr now "pod has gone")
      | some pod =>
        if pod.deleting||decide (pod.uid≠req.podUID) then
          some (.completeCRR crr now "pod has gone")
        else if decide (crr.phase=.unset) &&
            decide (responseTimeout-(now-req.creationTimestamp)≤0) then
          some (.completeCRR crr now "daemon has not responded for a long time")
        else if req.activeDeadlineSeconds.any fun s => s-(now-req.creationTimestamp)≤0 then
          some (.completeCRR crr now "recreating has exceeded the activeDeadlineSeconds")
        else if crr.phase≠.recreating then none
        else if crr.syncContainerStatuses≠some (syncContainerStatuses req pod) then
          some (.patchStatuses crr pod)
        else makeNotReady req crr pod

/- The API server drops an object that is deleted once it has no finalizer. -/
def persist : Option CRR :=
  if crr.deleting&&crr.finalizers.isEmpty then none else some crr

/- The reply to a patch is decoded into the copy at hand: what the reply has not keeps its value. -/
def decodeInto (old reply : CRR) : CRR :=
  {reply with
    deleting := reply.deleting||old.deleting
    active := reply.active||old.active
    phase := if reply.phase=.unset then old.phase else reply.phase
    message := if reply.message = "" then old.message else reply.message
    finalizers := if reply.finalizers=[] then old.finalizers else reply.finalizers
    unreadyAcquired := reply.unreadyAcquired||old.unreadyAcquired
    completionTime := reply.completionTime.or old.completionTime}

structure World where
  crr : Feed (Option CRR)
  pod : Feed (Option Pod)
  call : Option Call
  deriving DecidableEq

variable (w : World)

def World.writeCRR (crr : Option CRR) (call : Option Call) : World :=
  {w with crr := w.crr.write crr,call := call}

def World.writePod (pod : Pod) (call : Option Call) : World :=
  {w with pod := w.pod.write (some pod),call := call}

/- A call on an object that is gone fails, and with it the reconcile. -/
def World.onCRR (f : CRR → World) : World :=
  match w.crr.stored with
  | none => {w with call := none}
  | some crr => f crr

def World.onPod (f : Pod → World) : World :=
  match w.pod.stored with
  | none => {w with call := none}
  | some pod => f pod

def perform : Call → World
  | .completeCRR copy now msg => w.onCRR fun crr =>
    -- the status is written from the copy, which must not be outdated
    if crr=copy then
      w.writeCRR (some {crr with
        phase := .completed,completionTime := some now,message := msg}) none
    else {w with call := none}
  | .patchStatuses copy pod => w.onCRR fun crr =>
    let reply:={crr with syncContainerStatuses := some (syncContainerStatuses req pod)}
    w.writeCRR (some reply) (makeNotReady req (decodeInto copy reply) pod)
  | .addFinalizer pod => w.onCRR fun crr =>
    -- an object that is being deleted accepts no new finalizer
    if crr.deleting&&decide (unreadyAcquiredKey∉crr.finalizers) then {w with call := none}
    else w.writeCRR (some {crr with finalizers := crr.finalizers++[unreadyAcquiredKey]})
      (some (acquired req pod))
  | .addNotReadyKey => w.onPod fun pod =>
    w.writePod {pod with
      condition := addNotReadyKey pod.condition (getReadinessMessage req)} (some .patchAcquired)
  | .patchAcquired => w.onCRR fun crr =>
    w.writeCRR (some {crr with unreadyAcquired := true}) none
  | .removeNotReadyKey copy now => w.onPod fun pod =>
    w.writePod {pod with
      condition := removeNotReadyKey pod.condition (getReadinessMessage req)}
      (some (.removeFinalizer copy now))
  | .removeFinalizer copy now => w.onCRR fun crr =>
    w.writeCRR (persist {crr with
      finalizers := crr.finalizers.filter fun f => f≠unreadyAcquiredKey}) (finish req copy now)
  | .patchActive => w.onCRR fun crr => w.writeCRR (some {crr with active := false}) none
  | .deleteCRR => w.onCRR fun crr => w.writeCRR (persist {crr with deleting := true}) none

/- What anybody else may make of a request: the finalizer is the controller's, and a completion is
not taken back. -/
def CRR.Edits (crr crr' : CRR) : Prop :=
  crr'.deleting=crr.deleting ∧
    (unreadyAcquiredKey∈crr'.finalizers ↔ unreadyAcquiredKey∈crr.finalizers) ∧
    (crr.completionTime.isSome → crr'.completionTime.isSome)
  deriving Decidable

/- What anybody else may make of a pod: the key of the request is left alone. -/
def Pod.Edits (pod pod' : Pod) : Prop :=
  pod'.uid=pod.uid ∧ pod'.deleting=pod.deleting ∧ pod'.readinessGates=pod.readinessGates ∧
    hasKey pod'.condition (getReadinessMessage req)=hasKey pod.condition (getReadinessMessage req)
  deriving Decidable

inductive Label
  | deliverCRR
  | deliverPod
  | reconcile (now : Int)
  | call
  | crash
  | deleteCRR
  | editCRR (crr : CRR)
  | editPod (pod : Pod)
  | deletePod
  | podGone
  | createPod (pod : Pod)

def next : Label → Option World
  | .deliverCRR => some {w with crr := w.crr.deliver}
  | .deliverPod => some {w with pod := w.pod.deliver}
  | .reconcile now =>
    if w.call.isSome then none
    else some {w with call := reconcile req now w.crr.cached w.pod.cached}
  | .call => w.call.map (perform req w)
  | .crash => some {w with call := none}
  | .deleteCRR =>
    w.crr.stored.map fun crr => w.writeCRR (persist {crr with deleting := true}) w.call
  | .editCRR crr' => w.crr.stored.bind fun crr =>
    if crr.Edits crr' then some (w.writeCRR (persist crr') w.call) else none
  | .editPod pod' => w.pod.stored.bind fun pod =>
    if pod.Edits req pod' then some (w.writePod pod' w.call) else none
  | .deletePod => w.pod.stored.map fun pod => w.writePod {pod with deleting := true} w.call
  | .podGone => w.pod.stored.map fun _ => {w with pod := w.pod.write none}
  | .createPod pod =>
    -- another pod under the same name: UIDs are not used twice, and a new pod has no conditions
    if w.pod.stored=none ∧ pod.uid≠req.podUID ∧ pod.deleting=false ∧ pod.condition=none then
      some (w.writePod pod w.call)
    else none

def step (l : Label) (w' : World) : Prop := next req w l=some w'

/- The status changes of the daemon (`crr_daemon_controller.go` 400-425) are such edits. -/
def updateCRRPhase (phase : Phase) : CRR := {crr with phase := phase}

def completeCRRStatus (now : Int) (msg : String) : CRR :=
  {crr with phase := .completed,completionTime := some now,message := msg}

theorem edits_updateCRRPhase (phase : Phase) : crr.Edits (updateCRRPhase crr phase) :=
  ⟨rfl,Iff.rfl,id⟩

theorem edits_completeCRRStatus (now : Int) (msg : String) : crr.Edits (completeCRRStatus crr now msg) :=
  ⟨rfl,Iff.rfl,fun _ => rfl⟩

end Kruise.ContainerRecreateRequest
