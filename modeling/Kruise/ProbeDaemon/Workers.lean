import Kruise.Lib.Keyed

/-!
# The probe workers of a node

`doProbe`, `updateProbeSpec` and the end of `run` (`worker.go` 75-210), the result cache
(`results_manager.go` 28-74), `sync`, `syncUpdateNodePodProbeStatus`, `fetchLatestPodContainer` and
`updateNodePodProbeStatus` (`pod_probe_controller.go` 240-443). An execution of a probe, a sync and
the exit of a worker are single steps. The world records the result that each worker has set last.
-/

namespace Kruise.ProbeDaemon

open Lib.Keyed

inductive ProbeState
  | succeeded
  | failed
  | unknown
  deriving DecidableEq,Repr

structure ProbeKey where
  podNs : String
  podName : String
  podUID : String
  podIP : String
  containerName : String
  probeName : String
  deriving DecidableEq,Repr

structure ContainerProbeSpec where
  handler : String
  initialDelaySeconds : Int
  successThreshold : Int
  failureThreshold : Int
  deriving DecidableEq,Repr

structure ContainerProbe where
  name : String
  containerName : String
  probe : ContainerProbeSpec

structure PodProbe where
  ns : String
  name : String
  uid : String
  ip : String
  probes : List ContainerProbe

def probesOf (spec : List PodProbe) : List (ProbeKey × ContainerProbeSpec) :=
  spec.flatMap fun pod => pod.probes.map fun p =>
    (⟨pod.ns,pod.name,pod.uid,pod.ip,p.containerName,p.name⟩,p.probe)

structure Update where
  containerID : String
  key : ProbeKey
  state : ProbeState
  msg : String
  lastProbeTime : Int
  deriving DecidableEq,Repr

abbrev Cache := AList fun _ : String => Update

/- Compared with a duration, this is in nanoseconds. -/
def maxSyncProbeTime : Int := 600

def Cache.set (cache : Cache) (u : Update) : Cache :=
  match cache.lookup u.containerID with
  | none => cache.insert u.containerID u
  | some prev =>
    if prev.state≠u.state ∨ u.lastProbeTime-prev.lastProbeTime ≥ maxSyncProbeTime then
      cache.insert u.containerID u
    else cache

/- Times are in nanoseconds. -/
structure RuntimeContainer where
  id : String
  podUID : String
  name : String
  createdAt : Int
  running : Bool
  startedAt : Int

def laterContainer (latest : Option RuntimeContainer) (c : RuntimeContainer) : Option RuntimeContainer :=
  match latest with
  | none => some c
  | some l => if c.createdAt > l.createdAt then some c else some l

def fetchLatestPodContainer (runtime : List RuntimeContainer) (podUID name : String) : Option RuntimeContainer :=
  (runtime.filter fun c => c.podUID=podUID ∧ c.name=name).foldl laterContainer none

/- `stopping` is that the stop channel has been written to. -/
structure Worker where
  spec : ContainerProbeSpec
  containerID : String
  lastResult : Option ProbeState
  resultRun : Int
  stopping : Bool
  deriving DecidableEq

def newWorker (spec : ContainerProbeSpec) : Worker := ⟨spec, "",none,0,false⟩

/- `setBy` is not part of the object: it is the probe whose result this is. -/
structure ContainerProbeState where
  name : String
  state : ProbeState
  lastProbeTime : Int
  lastTransitionTime : Int
  message : String
  setBy : ProbeKey

structure PodProbeStatus where
  ns : String
  name : String
  uid : String
  probeStates : List ContainerProbeState

variable (now : Int) (valid : List (String × String)) (u : Update) (pods : List PodProbeStatus)

def changeState (s : ContainerProbeState) : ContainerProbeState :=
  {s with
    state := u.state
    message := u.msg
    lastProbeTime := u.lastProbeTime
    lastTransitionTime := if s.state≠u.state then now else s.lastTransitionTime
    setBy := u.key}

def newState : ContainerProbeState :=
  ⟨u.key.probeName,u.state,u.lastProbeTime,now,u.msg,u.key⟩

def setState : List ContainerProbeState → List ContainerProbeState :=
  upsert ContainerProbeState.name u.key.probeName (changeState now u) (newState now u)

def changePod (s : PodProbeStatus) : PodProbeStatus :=
  {s with probeStates := setState now u s.probeStates}

def updateNodePodProbeStatus : List PodProbeStatus → List PodProbeStatus :=
  upsert PodProbeStatus.uid u.key.podUID (changePod now u)
    (changePod now u ⟨u.key.podNs,u.key.podName,u.key.podUID,[]⟩)

def validSets (spec : List PodProbe) : List (String × String) :=
  (probesOf spec).map fun p => (p.1.podUID,p.1.probeName)

def keepValid (s : PodProbeStatus) : PodProbeStatus :=
  {s with probeStates := s.probeStates.filter fun state => (s.uid,state.name)∈valid}

def keptStatus : List PodProbeStatus :=
  (pods.map (keepValid valid)).filter fun s => !s.probeStates.isEmpty

def addResult (u : Update) : List PodProbeStatus :=
  if (u.key.podUID,u.key.probeName)∈valid then updateNodePodProbeStatus now u pods else pods

/- `results` is what `listResults` has found, in any order. -/
def syncUpdateNodePodProbeStatus (spec : List PodProbe) (results : List Update)
    (pods : List PodProbeStatus) : List PodProbeStatus :=
  results.foldl (addResult now (validSets spec)) (keptStatus (validSets spec) pods)

structure World where
  spec : List PodProbe
  runtime : List RuntimeContainer
  workers : ProbeKey → Option Worker
  cache : Cache
  status : List PodProbeStatus
  lastSet : ProbeKey → Option ProbeState

variable (w : World) (owner : String → String × String)

def World.setWorker (k : ProbeKey) (worker : Option Worker) : World :=
  {w with workers := Function.update w.workers k worker}

def World.set (now : Int) (k : ProbeKey) (id : String) (state : ProbeState) (msg : String) : World :=
  {w with
    cache := Cache.set w.cache ⟨id,k,state,msg,now⟩
    lastSet := Function.update w.lastSet k (some state)}

def World.remove (id : String) : World :=
  {w with cache := if id = "" then w.cache else w.cache.erase id}

def World.follow (now : Int) (k : ProbeKey) (worker : Worker) (c : RuntimeContainer) : World :=
  if worker.containerID=c.id then w
  else ((w.remove worker.containerID).setWorker k (some {worker with containerID := c.id})).set
    now k c.id .unknown ""

def World.noteRunning (now : Int) (k : ProbeKey) (c : RuntimeContainer) : World :=
  if c.running then w
  else w.set now k c.id .failed ("Container(" ++ k.containerName ++ ") is Non-running")

def atLeastOne (n : Int) : Int := if n<1 then 1 else n

def tooEarly (spec : ContainerProbeSpec) (c : RuntimeContainer) : Bool :=
  decide ((now-c.startedAt).tdiv 1000000000<atLeastOne spec.initialDelaySeconds)

def belowThreshold (spec : ContainerProbeSpec) (result : ProbeState) (resultRun : Int) : Bool :=
  match result with
  | .failed => decide (resultRun<atLeastOne spec.failureThreshold)
  | .succeeded => decide (resultRun<atLeastOne spec.successThreshold)
  | .unknown => false

def Worker.answered (worker : Worker) (id : String) (result : ProbeState) : Worker :=
  {worker with
    containerID := id
    lastResult := some result
    resultRun := if worker.lastResult=some result then worker.resultRun+1 else 1}

/- What the prober has answered; without an answer there was an error. -/
def World.record (now : Int) (k : ProbeKey) (worker : Worker) (id : String)
    (answer : Option (ProbeState × String)) : World :=
  match answer with
  | none => w
  | some (result,msg) =>
    let answered:=worker.answered id result
    let recorded:=w.setWorker k (some answered)
    if belowThreshold worker.spec result answered.resultRun then recorded
    else recorded.set now k id result msg

def World.doProbe (now : Int) (k : ProbeKey) (worker : Worker) (answer : Option (ProbeState × String)) : World :=
  match fetchLatestPodContainer w.runtime k.podUID k.containerName with
  | none => w
  | some c =>
    let noted:=(w.follow now k worker c).noteRunning now k c
    if tooEarly now worker.spec c then noted else noted.record now k worker c.id answer

def World.startWorker (k : ProbeKey) (spec : ContainerProbeSpec) : World :=
  {w.setWorker k (some (newWorker spec)) with lastSet := Function.update w.lastSet k none}

def World.updateProbeSpec (now : Int) (k : ProbeKey) (worker : Worker) (spec : ContainerProbeSpec) : World :=
  let reset :=
    if worker.spec.handler≠spec.handler ∧ worker.containerID ≠ "" then
      w.set now k worker.containerID .unknown ""
    else w
  reset.setWorker k (some {worker with spec := spec})

def syncProbe (now : Int) (w : World) (p : ProbeKey × ContainerProbeSpec) : World :=
  match w.workers p.1 with
  | some worker => w.updateProbeSpec now p.1 worker p.2
  | none => w.startWorker p.1 p.2

def stopUnless (valid : Bool) (worker : Worker) : Worker :=
  if valid then worker else {worker with stopping := true}

def World.sync (now : Int) : World :=
  let started:=(probesOf w.spec).foldl (syncProbe now) w
  {started with
    workers := fun k =>
      (started.workers k).map (stopUnless (decide (k∈(probesOf w.spec).map Prod.fst)))}

def World.exit (k : ProbeKey) (worker : Worker) : World :=
  (w.remove worker.containerID).setWorker k none

inductive Label
  | setSpec (spec : List PodProbe)
  | setRuntime (runtime : List RuntimeContainer)
  | sync (now : Int)
  | probe (now : Int) (k : ProbeKey) (answer : Option (ProbeState × String))
  | exit (k : ProbeKey)
  | statusSync (now : Int) (results : List Update)

/- The ID of a container belongs to one container of one pod, which `owner` tells. -/
def owned (c : RuntimeContainer) : Bool :=
  decide (owner c.id=(c.podUID,c.name) ∧ c.id ≠ "")

def next (w : World) : Label → Option World
  | .setSpec spec => some {w with spec := spec}
  | .setRuntime runtime =>
    if runtime.all (owned owner) then some {w with runtime := runtime} else none
  | .sync now => some (w.sync now)
  | .probe now k answer => (w.workers k).map fun worker => w.doProbe now k worker answer
  | .exit k =>
    match w.workers k with
    | some worker => if worker.stopping then some (w.exit k worker) else none
    | none => none
  | .statusSync now results =>
    if results.Perm (w.cache.entries.map Sigma.snd) then
      some {w with status := syncUpdateNodePodProbeStatus now w.spec results w.status}
    else none

def Step (w : World) (l : Label) (w' : World) : Prop :=
  next owner w l=some w'

/- A status has one entry for each pod and in it one state for each name. -/
structure Once (pods : List PodProbeStatus) : Prop where
  uids : (pods.map PodProbeStatus.uid).Nodup
  names : ∀ s∈pods,(s.probeStates.map ContainerProbeState.name).Nodup

/- The daemon starts without workers and with the status that is there. -/
structure Init (owner : String → String × String) (w : World) : Prop where
  workers : ∀ k,w.workers k=none
  cache : w.cache = ∅
  runtime : w.runtime.all (owned owner)
  status : Once w.status

def resultsIn (states : List ContainerProbeState) (name : String) : List (ProbeKey × ProbeState) :=
  (states.filter fun state => state.name=name).map fun state => (state.setBy,state.state)

def resultsFor (uid name : String) : List (ProbeKey × ProbeState) :=
  (pods.filter fun s => s.uid=uid).flatMap fun s => resultsIn s.probeStates name

end Kruise.ProbeDaemon
