import Kruise.Lib.Versioned
import Kruise.Pub.Types

/-!
# One webhook request

`PodUnavailableBudgetValidatePod` (`pub_control_utils.go:61-191`) for a request that runs alone.
Whether the pod is recorded already is decided on the informer's copy; the budget is taken from
the copy that the retry loop reads.
-/

namespace Kruise.Pub

open Util Lib.Versioned

inductive Verdict
  | admitted | denied | failed
  deriving DecidableEq,Repr

structure Request where
  name : String
  pod : PodState
  op : Operation
  dryRun : Bool

def unprotected (pod : PodState) : Bool := pod.noProtect||!pod.ready||!pod.consistent

/- The checks on the informer's copy, lines 80-99: the request passes without a look at
the budget. -/
def passesOn (pub : PodUnavailableBudget) (req : Request) : Bool :=
  pub.status.desiredAvailable=0||!isNeedPubProtection pub req.op ||
    isPodRecordedInPub req.name pub.status

/- What the API server and the caches answer to one request. `getPub` is the first read
of the informer: an error, no such PUB, or a copy. `cached` is the copy in the process-wide
cache, `informer` the read of the informer inside the loop. -/
structure Answers where
  getPub : Option (Option (Stored PodUnavailableBudget))
  cached : Option (Stored PodUnavailableBudget)
  informer : Option (Stored PodUnavailableBudget)
  refreshOk : Nat → Bool
  writeOk : Nat → Bool

inductive Attempt
  | denied
  | admitted
  | write (status : Status)

def attempt (clone : PodUnavailableBudget) (req : Request) (now : Int) : Attempt :=
  match checkAndDecrement req.name clone.status req.op now with
  | none => .denied
  | some status => if req.dryRun then .admitted else .write status

def conflictRetrySteps : Nat := 4

/- The retry loop with `tries` attempts left (lines 101-175). Only a version conflict is tried
again, on a copy read from the API server. -/
def validateLoop (ans : Answers) (store : Store PodUnavailableBudget) (req : Request) (now : Int)
    (pub : Stored PodUnavailableBudget) :
    Nat → Bool → Store PodUnavailableBudget × Verdict
  | 0,_ => (store,.denied)
  | tries+1,refresh =>
    if refresh&&!ans.refreshOk tries then (store,.denied)
    else
      let clone:=if refresh then store.current else newest ans.cached ans.informer pub
      match attempt clone.obj req now with
      | .denied => (store,.denied)
      | .admitted => (store,.admitted)
      | .write status =>
        if !ans.writeOk tries then (store,.denied)
        else match store.update clone {clone.obj with status := status} with
          | some store' => (store',.admitted)
          | none => validateLoop ans store req now pub tries true

def validatePod (ans : Answers) (store : Store PodUnavailableBudget) (req : Request) (now : Int) :
    Store PodUnavailableBudget × Verdict :=
  if unprotected req.pod then (store,.admitted)
  else match ans.getPub with
    | none => (store,.failed)
    | some none => (store,.admitted)
    | some (some pub) =>
      if passesOn pub.obj req then (store,.admitted)
      else validateLoop ans store req now pub conflictRetrySteps false

def hasUnexpiredRecord (name : String) (status : Status) (now : Int) : Bool :=
  (status.disruptedPods.lookup name).any (fun t => !expired deletionTimeout now t) ||
    (status.unavailablePods.lookup name).any fun t => !expired updatedDelayCheckTime now t

variable {now : Int}

theorem checkAndDecrement_some {name : String} {status status' : Status} {op : Operation}
    (h : checkAndDecrement name status op now=some status') :
    0<status.unavailableAllowed ∧ status'.unavailableAllowed=status.unavailableAllowed-1 ∧
      hasUnexpiredRecord name status' now := by
  unfold checkAndDecrement at h
  split_ifs at h with ha hsize hop
  · cases Option.some.inj h
    refine ⟨by omega,rfl,?_⟩
    simp [hasUnexpiredRecord,expired,updatedDelayCheckTime]
  · cases Option.some.inj h
    refine ⟨by omega,rfl,?_⟩
    simp [hasUnexpiredRecord,expired,deletionTimeout]

variable {clone : PodUnavailableBudget} {req : Request}

theorem attempt_admitted (h : attempt clone req now=.admitted) : req.dryRun := by
  unfold attempt at h
  split at h
  · cases h
  · split_ifs at h with hd
    exact hd

theorem attempt_write {status : Status} (h : attempt clone req now=.write status) :
    req.dryRun=false ∧ checkAndDecrement req.name clone.status req.op now=some status := by
  unfold attempt at h
  split at h
  · cases h
  · rename_i status' hchk
    split_ifs at h with hd
    cases h
    exact ⟨Bool.eq_false_iff.mpr hd,hchk⟩

structure Answers.OfStore (ans : Answers) (store : Store PodUnavailableBudget) : Prop where
  getPub : ∀ c,ans.getPub=some (some c) → store.Copy c
  cached : ∀ c,ans.cached=some c → store.Copy c
  informer : ∀ c,ans.informer=some c → store.Copy c

theorem validateLoop_admitted {ans : Answers} {store store' : Store PodUnavailableBudget}
    {pub : Stored PodUnavailableBudget} (hans : ans.OfStore store) (hpub : store.Copy pub)
    (hdry : req.dryRun=false) (tries : Nat) (refresh : Bool)
    (h : validateLoop ans store req now pub tries refresh=(store',.admitted)) :
    store'.current.obj.status.unavailableAllowed=store.current.obj.status.unavailableAllowed-1 ∧
      hasUnexpiredRecord req.name store'.current.obj.status now := by
  induction tries generalizing refresh with
  | zero => cases h
  | succ tries ih =>
    unfold validateLoop at h
    split at h
    · cases h
    dsimp only at h
    have hcln : store.Copy (if refresh then store.current else newest ans.cached ans.informer pub) := by
      split_ifs
      · exact store.copy_current
      · exact Store.copy_newest hans.cached hans.informer hpub
    split at h
    · cases h
    · rename_i ha
      have ht:=attempt_admitted ha
      rw [hdry] at ht
      cases ht
    · rename_i status ha
      split at h
      · cases h
      split at h
      · rename_i s hput
        cases h
        obtain ⟨hbase,rfl⟩ := store.update_eq_some _ _ _ hcln hput
        obtain ⟨_,hd,hr⟩ := checkAndDecrement_some (attempt_write ha).2
        rw [hbase] at hd
        exact ⟨hd,hr⟩
      · exact ih true h

/- The status stored after the request holds an unexpired record of the pod, and the
budget went down by one exactly if there was none before. -/
def ChargedExactly (name : String) (before after : Status) (now : Int) : Prop :=
  hasUnexpiredRecord name after now ∧
    after.unavailableAllowed=if hasUnexpiredRecord name before now
      then before.unavailableAllowed else before.unavailableAllowed-1

/-- An admitted request on a protected pod charges exactly when the informer's copy records the pod
if and only if the stored status has an unexpired record of it. -/
theorem validatePod_chargedExactly_iff (ans : Answers) (store store' : Store PodUnavailableBudget)
    (req : Request) (now : Int) (pub : Stored PodUnavailableBudget) (hans : ans.OfStore store)
    (hget : ans.getPub=some (some pub)) (hdesired : 0<pub.obj.status.desiredAvailable)
    (hready : req.pod.ready) (hconsistent : req.pod.consistent)
    (hprotect : req.pod.noProtect=false) (hneed : isNeedPubProtection pub.obj req.op)
    (hdry : req.dryRun=false) (h : validatePod ans store req now=(store',.admitted)) :
    ChargedExactly req.name store.current.obj.status store'.current.obj.status now ↔
      (isPodRecordedInPub req.name pub.obj.status ↔
        hasUnexpiredRecord req.name store.current.obj.status now) := by
  have hun : unprotected req.pod=false := by
    simp [unprotected,hready,hconsistent,hprotect]
  have hpass : passesOn pub.obj req=isPodRecordedInPub req.name pub.obj.status := by
    have hne : pub.obj.status.desiredAvailable≠0 := by omega
    simp [passesOn,hne,hneed]
  unfold validatePod at h
  simp only [hun,hget,hpass,Bool.false_eq_true,if_false] at h
  cases hr : isPodRecordedInPub req.name pub.obj.status with
  | true =>
    -- the request passes and the stored status stays as it is
    rw [hr,if_pos rfl] at h
    cases h
    unfold ChargedExactly
    cases ho : hasUnexpiredRecord req.name store.current.obj.status now <;> simp
  | false =>
    rw [hr,if_neg Bool.false_ne_true] at h
    obtain ⟨hd,ha⟩ := validateLoop_admitted hans (hans.getPub pub hget) hdry _ _ h
    unfold ChargedExactly
    rw [hd]
    cases ho : hasUnexpiredRecord req.name store.current.obj.status now with
    | true =>
      simp only [if_true,Bool.false_eq_true,iff_true,iff_false,not_and]
      omega
    | false =>
      simp only [Bool.false_eq_true,if_false,iff_self,iff_true]
      exact ⟨ha,trivial⟩

def readyState : PodState := ⟨true,true,true,false⟩

def budgetOf (allowed : Int) (disrupted : Records) : PodUnavailableBudget :=
  { generation := 1
    maxUnavailable := some (.int allowed)
    minAvailable := none
    protectOperations := none
    status := ⟨allowed,3,1,3,1,disrupted,∅⟩}

def deleteRequest : Request := ⟨"web-a",readyState,.delete,false⟩

/- The store after a deletion of `web-a` was admitted, and a process whose informer has
not seen that yet while its own cache has. -/
def chargedStore : Store PodUnavailableBudget :=
  (Store.start (budgetOf 2 ∅)).put (budgetOf 1 ((∅ : Records).insert "web-a" 0))

def laggingInformer : Answers :=
  { getPub := some (some ⟨1,budgetOf 2 ∅⟩)
    cached := some ⟨2,budgetOf 1 ((∅ : Records).insert "web-a" 0)⟩
    informer := some ⟨1,budgetOf 2 ∅⟩
    refreshOk := fun _ => true
    writeOk := fun _ => true}

/-- The repeated request is admitted and charged a second time. -/
theorem validatePod_charges_twice :
    (validatePod laggingInformer chargedStore deleteRequest 1).2=.admitted ∧
      ¬ChargedExactly "web-a" chargedStore.current.obj.status
        (validatePod laggingInformer chargedStore deleteRequest 1).1.current.obj.status 1 := by
  refine ⟨by decide,?_⟩
  intro h
  have ha:=h.2
  revert ha
  decide

def freshInformer : Answers :=
  {laggingInformer with getPub := some (some ⟨1,budgetOf 2 ∅⟩),cached := none}

theorem validatePod_charges_once :
    ChargedExactly "web-a" (Store.start (budgetOf 2 ∅)).current.obj.status
      (validatePod freshInformer (Store.start (budgetOf 2 ∅)) deleteRequest 1).1.current.obj.status
      1 := by
  have ha : freshInformer.OfStore (Store.start (budgetOf 2 ∅)) := by
    refine ⟨?_,?_,?_⟩
    · rintro c ⟨⟩
      exact List.mem_singleton_self _
    · rintro c ⟨⟩
    · rintro c ⟨⟩
      exact List.mem_singleton_self _
  exact (validatePod_chargedExactly_iff freshInformer (Store.start (budgetOf 2 ∅)) _ deleteRequest 1
    ⟨1,budgetOf 2 ∅⟩ ha rfl (by decide) rfl rfl rfl rfl rfl rfl).mpr (by decide)

end Kruise.Pub
