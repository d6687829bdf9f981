import Kruise.CloneSet.Types
import Kruise.Lib.Counting

/-!
# The BroadcastJob controller

`Reconcile` (`broadcastjob_controller.go` 150-337) with `filterPods` (`broadcastjob_utils.go`
45-64), `getNodesToRunPod` and `deleteJobPods` (516-678) and the slow start of `reconcilePods`
(389-474). The scheduler's predicates and the answers of the API server stay abstract.
-/

namespace Kruise.BroadcastJob

open Util.IntStr
open CloneSet (PodPhase)

/- `node` is what `getAssignedNode` finds, the empty name when it finds none; `restartCounts` are
those of the init containers and the containers. -/
structure Pod where
  name : String
  node : String
  phase : PodPhase
  terminating : Bool
  restartOnFailure : Bool
  restartCounts : List Int
  deriving DecidableEq

structure Node where
  name : String
  deriving DecidableEq

inductive FailurePolicy
  | pause
  | failFast
  | continue
  deriving DecidableEq

inductive CompletionPolicy
  | always
  | never
  deriving DecidableEq

inductive JobPhase
  | completed
  | running
  | paused
  | failed
  deriving DecidableEq

/- `finished` says that a condition `Complete` or `Failed` is true. -/
structure JobStatus where
  phase : Option JobPhase
  finished : Bool
  startTime : Option Int
  completionTime : Option Int
  active : Int
  failed : Int
  succeeded : Int
  desired : Int

structure Job where
  parallelism : Option IntOrString
  templateRestartOnFailure : Bool
  paused : Bool
  failurePolicy : FailurePolicy
  restartLimit : Int
  completionPolicy : CompletionPolicy
  activeDeadlineSeconds : Option Int
  ttlSecondsAfterFinished : Option Int
  deleting : Bool
  status : JobStatus

inductive CreateResult
  | created
  | timeout
  | failed
  deriving DecidableEq

/- Whether its last requests have been observed, the scheduler's predicates (for a pod, or for one
of the template), and the API server. -/
structure Env where
  satisfied : Bool
  checkNodeFitness : Option Pod → Node → Bool
  generateName : String → String
  deletePod : String → Bool
  createPod : String → CreateResult

/- Names are unique, and no more than the int32 counters can hold. -/
structure Cluster where
  nodes : List Node
  pods : List Pod
  nodeNames : (nodes.map Node.name).Nodup
  podNames : (pods.map Pod.name).Nodup
  countable : nodes.length+pods.length<2^31

variable (restartLimit : Int) (pod : Pod)

def isPodFailed : Bool :=
  pod.restartOnFailure&&decide (int32 pod.restartCounts.sum > restartLimit)

def isSucceeded : Bool := decide (pod.phase=.succeeded)

def isFailed : Bool :=
  decide (pod.phase=.failed) ||
    (decide (pod.phase≠.succeeded)&&!pod.terminating&&isPodFailed restartLimit pod)

def isActive : Bool :=
  decide (pod.phase≠.succeeded)&&decide (pod.phase≠.failed)&&!pod.terminating &&
    !isPodFailed restartLimit pod

def filterPods (pods : List Pod) : List Pod × List Pod × List Pod :=
  (pods.filter (isActive restartLimit),pods.filter (isFailed restartLimit),
    pods.filter isSucceeded)

/- When several pods run on one node, the last one counts. -/
def getNodeToPodMap (pods : List Pod) (node : String) : Option Pod :=
  (pods.filter fun p => p.node=node).getLast?

inductive NodeFit
  | unfit
  | delete (pod : Pod)
  | runs (pod : Pod)
  | rest

variable (env : Env) (job : Job)

def nodeFit (pods : List Pod) (node : Node) : NodeFit :=
  match getNodeToPodMap pods node.name with
  | some pod =>
    if !env.checkNodeFitness (some pod) node&&!pod.terminating then .delete pod else .runs pod
  | none => if !env.checkNodeFitness none node then .unfit else .rest

structure NodesToRunPod where
  desiredNodes : List (Option Pod)
  restNodesToRunPod : List String
  podsToDelete : List Pod

def getNodesToRunPod (nodes : List Node) (pods : List Pod) : NodesToRunPod where
  desiredNodes := nodes.filterMap fun node => match nodeFit env pods node with
    | .runs pod => some (some pod)
    | .rest => some none
    | _ => none
  restNodesToRunPod := nodes.filterMap fun node => match nodeFit env pods node with
    | .rest => some node.name
    | _ => none
  podsToDelete := nodes.filterMap fun node => match nodeFit env pods node with
    | .delete pod => some pod
    | _ => none

def deleteJobPods (pods : List Pod) (failed active : Int) : List String × Int × Int :=
  let deleted:=(pods.map Pod.name).filter env.deletePod
  (deleted,failed+deleted.length,active-deleted.length)

def parallelism (desired : Int) : Option Int :=
  (getValueFromIntOrPercent (job.parallelism.getD (.int (2^31-1))) desired true).map int32

/- The batches of the slow start: each twice as large as the one before, until one of them fails. -/
def createBatches (env : Env) : Nat → Nat → List String → List String
  | 0,_,_ => []
  | fuel+1,batchSize,nodes =>
    let batch:=nodes.take batchSize
    let rest:=nodes.drop batchSize
    batch++if batch.any (fun n => decide (env.createPod n=.failed))&&!rest.isEmpty then []
      else createBatches env fuel (min (2*batchSize) rest.length) rest

/- The nodes that were tried and the new number of active pods, in which a pod counts unless its
creation timed out. The channel for the errors cannot be made with a negative size: `none` is the
panic. -/
def reconcilePods (restNodesToRunPod : List String) (active desired : Int) : Option (List String × Int) :=
  match parallelism job desired with
  | none => some ([],active)
  | some parallelism =>
    if active<parallelism then
      let diff:=min (int32 (parallelism-active)) restNodesToRunPod.length
      if diff<0 then none
      else
        let tried:=createBatches env diff.toNat (min diff.toNat 1)
          (restNodesToRunPod.take diff.toNat)
        some (tried,active+tried.countP fun n => decide (env.createPod n≠.timeout))
    else some ([],active)

def isPodActive : Bool :=
  decide (pod.phase≠.succeeded)&&decide (pod.phase≠.failed)&&!pod.terminating

def isJobFinished : Bool :=
  decide (job.completionPolicy≠.never)&&job.status.finished

def pastTTLDeadline (now : Int) : Bool :=
  match job.ttlSecondsAfterFinished,job.status.completionTime with
  | some ttl,some finish => decide (now-finish ≥ ttl)
  | _,_ => false

def isJobComplete (desiredNodes : List (Option Pod)) : Bool :=
  decide (job.completionPolicy≠.never)&&!desiredNodes.isEmpty &&
    desiredNodes.all fun pod => pod.any fun p => !isPodActive p

def pastActiveDeadline (startTime now : Int) : Bool :=
  job.activeDeadlineSeconds.any fun deadline => decide (now-startTime ≥ deadline)

def isJobFailed (startTime now : Int) : Bool :=
  decide (job.completionPolicy≠.never)&&pastActiveDeadline job startTime now

structure Outcome where
  status : JobStatus
  jobDeleted : Bool
  deleted : List String
  created : List String

/- A reconcile only writes a phase, gives the job up, or deletes and creates pods. -/
inductive Course
  | stop (phase : JobPhase)
  | giveUp
  | run (phase : JobPhase)

def course (failed startTime now : Int) : Course :=
  let phase:=job.status.phase.getD .running
  if phase=.failed then .stop .failed
  else if job.paused&&(decide (phase=.running)||decide (phase=.paused)) then .stop .paused
  else
    let phase:=if !job.paused&&decide (phase=.paused) then .running else phase
    if decide (failed > 0)&&decide (job.failurePolicy=.pause) then .stop .paused
    else if decide (failed > 0)&&decide (job.failurePolicy=.failFast) then .giveUp
    else if isJobFailed job startTime now then .giveUp
    else .run phase

def finishJob (status : JobStatus) (phase : JobPhase) (now : Int) : JobStatus :=
  {status with phase := some phase,finished := true,completionTime := some now}

def runJob (toRun : NodesToRunPod) (status : JobStatus) (now : Int) : Outcome :=
  let (deleted,failed,active) := deleteJobPods env toRun.podsToDelete status.failed status.active
  let creation:=if !job.deleting&&!toRun.restNodesToRunPod.isEmpty then
      reconcilePods env job toRun.restNodesToRunPod active status.desired
    else some ([],active)
  match creation with
  | none => ⟨job.status,false,deleted,[]⟩
  | some (tried,active) =>
    let status:={status with failed := failed,active := active}
    let status:=if isJobComplete job toRun.desiredNodes then finishJob status .completed now
      else status
    ⟨status,false,deleted,tried.filter fun n => decide (env.createPod n≠.failed)⟩

def reconcile (cluster : Cluster) (now : Int) : Outcome :=
  if !env.satisfied then ⟨job.status,false,[],[]⟩
  else if isJobFinished job then ⟨job.status,pastTTLDeadline job now,[],[]⟩
  else
    let startTime:=job.status.startTime.getD now
    let (activePods,failedPods,succeededPods) := filterPods job.restartLimit cluster.pods
    let toRun:=getNodesToRunPod env cluster.nodes cluster.pods
    let status : JobStatus :=
      {job.status with
        startTime := some startTime
        active := activePods.length
        failed := failedPods.length
        succeeded := succeededPods.length
        desired := toRun.desiredNodes.length}
    match course job failedPods.length startTime now with
    | .stop phase => ⟨{status with phase := some phase},false,[],[]⟩
    | .giveUp =>
      let (deleted,failed,active) := deleteJobPods env activePods status.failed status.active
      ⟨finishJob {status with failed := failed,active := active} .failed now,false,deleted,[]⟩
    | .run phase => runJob env job toRun {status with phase := some phase} now

/- A pod that is deleted stays until the kubelet has stopped it; a new pod has not been started. -/
def newPod (node : String) : Pod :=
  { name := env.generateName node
    node := node
    phase := .pending
    terminating := false
    restartOnFailure := job.templateRestartOnFailure
    restartCounts := []}

def Outcome.pods (o : Outcome) (pods : List Pod) : List Pod :=
  (pods.map fun p => if p.name∈o.deleted then {p with terminating := true} else p) ++
    o.created.map (newPod env job)

end Kruise.BroadcastJob
