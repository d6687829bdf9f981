import Kruise.Lib.Transition
import Kruise.Util.IntStr
import Mathlib.Data.List.Perm.Basic

/-!
# The AdvancedCronJob controller

`reconcileJob` (`advancedcronjob_job_controller.go` 51-388) for a Job template. A reconcile finds
the last run from the annotations of the children, deletes finished ones beyond the limits, and
creates a job for the last missed time. Scheduled times are whole seconds, the clock counts
nanoseconds.
-/

namespace Kruise.AdvancedCronJob

open Lib.Transition Util.IntStr

def second : Int := 1000000000

theorem mul_second_lt {a b : Int} : a*second<b*second ↔ a<b := by
  unfold second
  omega

theorem mul_second_le {a b : Int} : a*second≤b*second ↔ a≤b := by
  unfold second
  omega

structure Schedule where
  times : Nat → Int
  increasing : ∀ i j,i<j → times i<times j

def Schedule.firstAfter (sched : Schedule) (t : Int) : Nat → Nat → Int
  | 0,i => sched.times i
  | fuel+1,i =>
    if t<sched.times i*second then sched.times i else sched.firstAfter t fuel (i+1)

def Schedule.next (sched : Schedule) (t : Int) : Int :=
  sched.firstAfter t ((t / second-sched.times 0).toNat+1) 0

variable (sched : Schedule)

theorem Schedule.le_times (i : Nat) : sched.times 0+i ≤ sched.times i := by
  induction i with
  | zero => simp
  | succ i ih =>
    have := sched.increasing i (i+1) (Nat.lt_succ_self i)
    omega

theorem Schedule.firstAfter_spec {t : Int} {fuel i : Nat}
    (hf : t<sched.times (i+fuel)*second) (hl : ∀ j < i,sched.times j*second≤t) :
    t<sched.firstAfter t fuel i*second ∧ ∀ j,t<sched.times j*second → sched.firstAfter t fuel i ≤ sched.times j := by
  have hfnd : ∀ k,t<sched.times k*second → (∀ j<k,sched.times j*second≤t) →
      ∀ j,t<sched.times j*second → sched.times k ≤ sched.times j := by
    intro k _ hbef j hj
    have hle : k≤j := by
      by_contra hlt
      have := hbef j (by omega)
      omega
    rcases Nat.lt_or_eq_of_le hle with hlt | rfl
    · exact Int.le_of_lt (sched.increasing k j hlt)
    · exact Int.le_refl _
  induction fuel generalizing i with
  | zero => exact ⟨hf,hfnd i hf hl⟩
  | succ fuel ih =>
    unfold Schedule.firstAfter
    split_ifs with hi
    · exact ⟨hi,hfnd i hi hl⟩
    · refine ih ?_ ?_
      · rwa [Nat.add_right_comm]
      · intro j hj
        rcases Nat.lt_succ_iff_lt_or_eq.mp hj with hlt | rfl
        · exact hl j hlt
        · omega

/-- The next time lies after `t`, and no scheduled time lies between. -/
theorem Schedule.next_spec (t : Int) :
    t<sched.next t*second ∧ ∀ j,t<sched.times j*second → sched.next t ≤ sched.times j := by
  refine sched.firstAfter_spec ?_ (fun j hj => absurd hj (Nat.not_lt_zero j))
  have hle:=sched.le_times (0+((t / second-sched.times 0).toNat+1))
  unfold second at hle ⊢
  omega

theorem Schedule.firstAfter_mem (t : Int) (fuel i : Nat) : ∃ j,sched.firstAfter t fuel i=sched.times j := by
  induction fuel generalizing i with
  | zero => exact ⟨i,rfl⟩
  | succ fuel ih =>
    unfold Schedule.firstAfter
    split_ifs
    · exact ⟨i,rfl⟩
    · exact ih (i+1)

inductive ConcurrencyPolicy
  | allow
  | forbid
  | replace
  deriving DecidableEq

inductive JobOutcome
  | complete
  | failed
  deriving DecidableEq

/- `scheduledAt` is the annotation with the scheduled time, if it is there and parses. -/
structure Child where
  name : String
  scheduledAt : Option Int
  startTime : Option Int
  finished : Option JobOutcome
  deriving DecidableEq

/- The webhook accepts no negative limit or deadline. -/
structure CronJob where
  name : String
  creationTimestamp : Int
  startingDeadlineSeconds : Option Nat
  concurrencyPolicy : ConcurrencyPolicy
  paused : Bool
  successfulJobsHistoryLimit : Option Nat
  failedJobsHistoryLimit : Option Nat

variable (cron : CronJob)

def CronJob.historyLimit : JobOutcome → Option Nat
  | .complete => cron.successfulJobsHistoryLimit
  | .failed => cron.failedJobsHistoryLimit

/- Children that have not started come first. -/
def startedBefore (a b : Child) : Bool :=
  match a.startTime,b.startTime with
  | none,s => s.isSome
  | some _,none => false
  | some s,some u => decide (s<u)

/- `sort.Slice` keeps no order among equal elements. -/
structure Sorter where
  sort : List Child → List Child
  perm : ∀ jobs,(sort jobs).Perm jobs
  sorted : ∀ jobs,(sort jobs).Pairwise fun a b => startedBefore b a=false

def later (a b : Option Int) : Option Int :=
  match a,b with
  | none,t => t
  | a,none => a
  | some s,some t => if s<t then some t else some s

def mostRecentTime (children : List Child) : Option Int :=
  children.foldl (fun m c => later m c.scheduledAt) none

/- The missed times after `earliest`; more than a hundred of them are an error. -/
def missedLoop (sched : Schedule) (now : Int) : Nat → Int → Option Int → Option (Option Int)
  | 0,t,lastMissed => if t*second≤now then none else some lastMissed
  | fuel+1,t,lastMissed =>
    if t*second≤now then missedLoop sched now fuel (sched.next (t*second)) (some t)
    else some lastMissed

def earliestTime (lastScheduleTime : Option Int) (now : Int) : Int :=
  let earliest:=match lastScheduleTime with
    | some t => t*second
    | none => cron.creationTimestamp
  match cron.startingDeadlineSeconds with
  | none => earliest
  | some deadline =>
    let schedulingDeadline:=now+int64 (-second*deadline)
    if schedulingDeadline > earliest then schedulingDeadline else earliest

def getNextSchedule (sched : Schedule) (cron : CronJob) (lastScheduleTime : Option Int)
    (now : Int) : Option (Option Int) :=
  let earliest:=earliestTime cron lastScheduleTime now
  if earliest > now then some none else missedLoop sched now 100 (sched.next earliest) none

def tooLate (missedRun now : Int) : Bool :=
  cron.startingDeadlineSeconds.any fun deadline =>
    decide (missedRun*second+int64 (deadline*second)<now)

/- The finished children beyond the limit, of which `deletes` are really deleted. -/
def cleanUp (sorter : Sorter) (cron : CronJob) (deletes : String → Bool) (children : List Child)
    (outcome : JobOutcome) : List String :=
  match cron.historyLimit outcome with
  | none => []
  | some limit =>
    let jobs:=sorter.sort (children.filter fun c => c.finished=some outcome)
    ((jobs.take (jobs.length-limit)).map Child.name).filter deletes

def replaceActive (deletes : String → Bool) : List String → List String × Bool
  | [] => ([],true)
  | name::names =>
    if deletes name then
      let rest:=replaceActive deletes names
      (name::rest.1,rest.2)
    else ([],false)

def jobName (scheduledTime : Int) : String :=
  cron.name ++ "-" ++ toString scheduledTime

structure Outcome where
  lastScheduleTime : Option Int
  active : List String
  deleted : List String
  create : Option Int

def reconcileJob (sched : Schedule) (sorter : Sorter) (cron : CronJob) (now : Int)
    (deletes : String → Bool) (children : List Child) : Outcome :=
  let active:=(children.filter fun c => c.finished=none).map Child.name
  let last:=mostRecentTime children
  let history:=cleanUp sorter cron deletes children .failed ++
    cleanUp sorter cron deletes children .complete
  if cron.paused then ⟨last,active,history,none⟩
  else match getNextSchedule sched cron last now with
    | some (some missedRun) =>
      if tooLate cron missedRun now then ⟨last,active,history,none⟩
      else if cron.concurrencyPolicy=.forbid ∧ active≠[] then ⟨last,active,history,none⟩
      else if cron.concurrencyPolicy=.replace then
        let replaced:=replaceActive deletes active
        ⟨last,active,history++replaced.1,if replaced.2 then some missedRun else none⟩
      else ⟨last,active,history,some missedRun⟩
    | _ => ⟨last,active,history,none⟩

/- `created` records the scheduled time of every job that was created. -/
structure World where
  clock : Int
  children : List Child
  lastScheduleTime : Option Int
  active : List String
  created : List Int
  deriving DecidableEq

/- A reconcile sees the children in some order; some of its deletions and its creation may fail.
A child reports its status at any time. -/
inductive Label
  | reconcile (now : Int) (listed : List Child) (deletes : String → Bool) (creates : Bool)
  | report (name : String) (startTime : Option Int) (finished : Option JobOutcome)

/- A name can be taken once. -/
def createJob (t : Int) (creates : Bool) (w : World) : World :=
  if creates&&!decide (jobName cron t∈w.children.map Child.name) then
    {w with
      children := w.children++[⟨jobName cron t,some t,none,none⟩]
      created := t::w.created}
  else w

def applyOutcome (now : Int) (creates : Bool) (o : Outcome) (w : World) : World :=
  let w' : World :=
    { clock := now
      children := w.children.filter fun c => c.name∉o.deleted
      lastScheduleTime := o.lastScheduleTime
      active := o.active
      created := w.created}
  match o.create with
  | none => w'
  | some t => createJob cron t creates w'

def next (sched : Schedule) (sorter : Sorter) (cron : CronJob) (w : World) : Label → Option World
  | .reconcile now listed deletes creates =>
    if w.clock≤now ∧ listed.Perm w.children then
      some (applyOutcome cron now creates (reconcileJob sched sorter cron now deletes listed) w)
    else none
  | .report name startTime finished =>
    some {w with children := w.children.map fun c =>
      if c.name=name then {c with startTime := startTime,finished := finished} else c}

def step (sched : Schedule) (sorter : Sorter) (cron : CronJob) (w : World) (l : Label) (w' : World) : Prop :=
  next sched sorter cron w l=some w'

/- Nothing has been created yet; there may be other children already. -/
def Init (w : World) : Prop := w.created=[] ∧ (w.children.map Child.name).Nodup

end Kruise.AdvancedCronJob
