import Mathlib.Data.List.Dedup
import Mathlib.Data.List.TakeDrop

/-!
# Starting ephemeral containers

`syncTargetPods` (`ephemeraljob_controller.go` 312-370), with the pods of `filterPods` (252-290) and
the status counts of `ephemeraljob_utils.go` 95-239. No call fails, so that every pod handed to
`DoItSlowly` is patched.
-/

namespace Kruise.EphemeralJob

open List

structure EphemeralContainer where
  name : String
  env : List (String × String)

structure Terminated where
  finished : Bool
  exitCode : Int

structure ContainerStatus where
  name : String
  terminated : Option Terminated
  running : Bool
  waitingReason : Option String

structure Pod where
  name : String
  active : Bool
  containers : List EphemeralContainer
  statuses : List ContainerStatus

structure Job where
  uid : String
  template : List EphemeralContainer
  parallelism : Option Int
  replicas : Option Int

inductive ContainerState where
  | succeeded
  | failed
  | waiting
  | running
  | unknown
deriving DecidableEq

def parseEphemeralContainerStatus (status : ContainerStatus) : ContainerState :=
  let alive : ContainerState :=
    if status.running then .running
    else
      match status.waitingReason with
      | some reason => if reason = "RunContainerError" then .failed else .waiting
      | none => .unknown
  match status.terminated with
  | some t =>
    if t.finished ∧ t.exitCode=0 then .succeeded else if t.exitCode≠0 then .failed else alive
  | none => alive

def envKey : String := "KRUISE_EJOB_ID"

def isCreatedByEJob (uid : String) (c : EphemeralContainer) : Bool :=
  c.env.any fun e => decide (e=(envKey,uid))

namespace Job

variable (job : Job)

def names : List String := job.template.map EphemeralContainer.name

/- The error for an empty template is `none`. -/
def parseEphemeralPodStatus (statuses : List ContainerStatus) : Option ContainerState :=
  let states:=(statuses.filter fun s => s.name∈job.names).map parseEphemeralContainerStatus
  let size:=job.names.dedup.length
  if job.template=[] then none
  else if .failed∈states then some .failed
  else if 0<states.count .succeeded ∧ states.count .succeeded=size then some .succeeded
  else if 0<states.count .running ∧ states.count .running ≤ size then some .running
  else if 0<states.count .waiting ∧ states.count .waiting ≤ size then some .waiting
  else some .unknown

/- A map of the containers keeps the last one of a name. -/
def ephemeralContainer (pod : Pod) (name : String) : Option EphemeralContainer :=
  pod.containers.reverse.find? fun c => c.name=name

def existDuplicatedEphemeralContainer (pod : Pod) : Bool :=
  job.names.any fun name => (ephemeralContainer pod name).any fun c => !isCreatedByEJob job.uid c

def containsEphemeralContainer (pod : Pod) : Bool :=
  job.names.any fun name => (ephemeralContainer pod name).isSome

def filterPods (podList : List Pod) : List Pod :=
  let pods:=podList.filter fun p => p.active&&!job.existDuplicatedEphemeralContainer p
  match job.replicas with
  | some replicas => pods.take replicas.toNat
  | none => pods

def isAddToPod (pod : Pod) : Bool :=
  pod.containers.all fun c => !(decide (c.name∈job.names)&&isCreatedByEJob job.uid c)

def getSyncPods (pods : List Pod) : List Pod :=
  if job.template=[] then [] else pods.filter job.isAddToPod

def statusRunning (pods : List Pod) : Nat :=
  pods.countP fun p => job.parseEphemeralPodStatus p.statuses=some .running

def slots (pods : List Pod) : Nat :=
  (min (job.parallelism.getD 1) (job.getSyncPods pods).length-job.statusRunning pods).toNat

def startedPods (pods : List Pod) : List Pod :=
  ((job.getSyncPods pods).take (job.slots pods)).filter fun p => !job.containsEphemeralContainer p

def createEphemeralContainer (pod : Pod) : Pod :=
  {pod with containers := pod.containers ++
      job.template.map fun c => {c with env := c.env++[(envKey,job.uid)]}}

def createFirst : Nat → List Pod → List Pod
  | 0,pods => pods
  | _+1,[] => []
  | n+1,p::pods =>
    if job.isAddToPod p then
      (if job.containsEphemeralContainer p then p else job.createEphemeralContainer p) ::
        createFirst n pods
    else p::createFirst (n+1) pods

def syncTargetPods (pods : List Pod) : List Pod :=
  if job.template=[] then pods else job.createFirst (job.slots pods) pods

def isUnfinished (pod : Pod) : Bool :=
  !job.isAddToPod pod&&decide (job.parseEphemeralPodStatus pod.statuses≠some .succeeded) &&
    decide (job.parseEphemeralPodStatus pod.statuses≠some .failed)

def unfinished (pods : List Pod) : Nat := pods.countP job.isUnfinished

end Job

variable {job : Job} {pod : Pod} {pods podList : List Pod}

theorem not_duplicated_of_mem_filterPods (h : pod∈job.filterPods podList) :
    job.existDuplicatedEphemeralContainer pod=false := by
  have hm : pod∈podList.filter fun p => p.active&&!job.existDuplicatedEphemeralContainer p := by
    unfold Job.filterPods at h
    split at h
    · exact mem_of_mem_take h
    · exact h
  simp only [mem_filter,Bool.and_eq_true,Bool.not_eq_true'] at hm
  exact hm.2.2

theorem not_contains_of_isAddToPod (hd : job.existDuplicatedEphemeralContainer pod=false)
    (ha : job.isAddToPod pod) : job.containsEphemeralContainer pod=false := by
  rw [Job.containsEphemeralContainer,any_eq_false]
  intro name hn hsome
  obtain ⟨c,hc⟩ := Option.isSome_iff_exists.mp hsome
  have hm : isCreatedByEJob job.uid c := by
    simpa [hc] using any_eq_false.mp hd name hn
  have hcn : c.name=name := by simpa using find?_some hc
  have hmem:=all_eq_true.mp ha c (mem_reverse.mp (mem_of_find?_eq_some hc))
  simp [hcn,hn,hm] at hmem

theorem startedPods_filterPods :
    job.startedPods (job.filterPods podList) =
      (job.getSyncPods (job.filterPods podList)).take (job.slots (job.filterPods podList)) := by
  refine filter_eq_self.mpr fun p hp => ?_
  have hm:=mem_of_mem_take hp
  unfold Job.getSyncPods at hm
  split_ifs at hm
  · cases hm
  · obtain ⟨hin,ha⟩ := mem_filter.mp hm
    rw [not_contains_of_isAddToPod (not_duplicated_of_mem_filterPods hin) ha]
    rfl

theorem unfinished_createFirst_le (n : Nat) (pods : List Pod) :
    job.unfinished (job.createFirst n pods)≤job.unfinished pods+n := by
  unfold Job.unfinished
  induction pods generalizing n with
  | nil => cases n <;> exact Nat.zero_le _
  | cons p pods ih =>
    cases n with
    | zero => exact Nat.le_refl _
    | succ n =>
      unfold Job.createFirst
      have h1:=ih n
      have h2:=ih (n+1)
      split_ifs <;> simp only [countP_cons] <;> split_ifs <;> omega

/-- A call starts as many pods as the parallelism leaves exactly when nothing is to be created; or
the pods to create are as many as the parallelism, and all unfinished pods run or as many as the
parallelism run; or they are fewer, and the running pods taken off them make up for the slots
beyond them. -/
theorem syncTargetPods_fills_iff (job : Job) (podList : List Pod) :
    let pods:=job.filterPods podList
    let p:=job.parallelism.getD 1
    let toCreate:=(job.getSyncPods pods).length
    let running:=job.statusRunning pods
    let unfinished:=job.unfinished pods
    (job.startedPods pods=(job.getSyncPods pods).take (min toCreate (p-unfinished).toNat) ∧
        (job.unfinished (job.syncTargetPods pods) : Int) ≤ max (unfinished : Int) p) ↔
      toCreate=0 ∨ (p≤toCreate ∧ (running=unfinished ∨ (p≤running ∧ p≤unfinished))) ∨
        (toCreate<p ∧ ((running=0 ∧ toCreate+unfinished≤p) ∨
          toCreate+unfinished=p+running ∨ (toCreate≤running ∧ p≤unfinished))) := by
  intro pods p toCreate running unfinished
  have hslots : job.slots pods=(min p toCreate-running).toNat := rfl
  rw [startedPods_filterPods,take_eq_take_iff]
  have hu : job.unfinished (job.syncTargetPods pods)≤unfinished+job.slots pods := by
    unfold Job.syncTargetPods
    split_ifs
    · exact Nat.le_add_right _ _
    · exact unfinished_createFirst_le _ _
  change min (job.slots pods) toCreate=min (min toCreate _) toCreate ∧ _ ↔ _
  omega

def oneAtATime : Job := ⟨"job",[⟨"debug",[]⟩],none,none⟩

def waitingPod : Pod :=
  ⟨"a",true,[⟨"debug",[(envKey, "job")]⟩],[⟨"debug",none,false,some "PodInitializing"⟩]⟩

/-- A waiting pod takes no slot: with the parallelism 1 a second pod is started beside it. -/
theorem waiting_pod_takes_no_slot :
    let pods:=oneAtATime.filterPods [waitingPod,⟨"b",true,[],[]⟩]
    oneAtATime.unfinished pods=1 ∧ (oneAtATime.startedPods pods).map Pod.name=["b"] ∧
      oneAtATime.unfinished (oneAtATime.syncTargetPods pods)=2 := by
  decide +kernel

end Kruise.EphemeralJob
