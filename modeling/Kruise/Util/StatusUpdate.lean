import Kruise.Lib.Versioned

/-!
# Status updates of jobs with a retry on conflicts

`updateJobStatus` (`broadcastjob_controller.go` 339-358) and `updateAdvancedJobStatus`
(`advancedcronjob_controller.go` 170-189) under `retry.RetryOnConflict`. The closure overwrites the
error of a refused update with that of the read which follows it, so the helper never sees a
conflict.
-/

namespace Kruise.Util.StatusUpdate

open Lib.Versioned

structure Object (σ ρ : Type) where
  status : σ
  rest : ρ

inductive Answer
  | nil
  | conflict
  | failed
  deriving DecidableEq

variable {σ ρ : Type}

/-- What a run of the closure meets: the writes of others before it, whether the store refuses the
update in any case, and what the read after a refusal finds; such a read does not conflict. -/
structure Turn (σ ρ : Type) where
  others : List (Object σ ρ)
  refuses : Bool
  read : Option (Stored (Object σ ρ))

def Turn.reached (turn : Turn σ ρ) (store : Store (Object σ ρ)) : Store (Object σ ρ) :=
  turn.others.foldl Store.put store

def Turn.accepts (turn : Turn σ ρ) (store : Store (Object σ ρ)) (jobCopy : Stored (Object σ ρ)) : Bool :=
  !turn.refuses&&decide (jobCopy.rv=(turn.reached store).current.rv)

def closure (status : σ) (turn : Turn σ ρ) (store : Store (Object σ ρ))
    (jobCopy : Stored (Object σ ρ)) : Answer × Store (Object σ ρ) × Stored (Object σ ρ) :=
  let reached:=turn.reached store
  if turn.accepts store jobCopy then
    (.nil,reached.put {reached.current.obj with status := jobCopy.obj.status},jobCopy)
  else match turn.read with
    | some updated => (.nil,reached,{updated with obj := {updated.obj with status := status}})
    | none => (.failed,reached,jobCopy)

/-- Runs the closure as long as it returns a conflict; `none` when it still does at the end. -/
def retryOnConflict (status : σ) :
    List (Turn σ ρ) → Store (Object σ ρ) → Stored (Object σ ρ) →
      Option (Answer × Store (Object σ ρ))
  | [],_,_ => none
  | turn::turns,store,jobCopy =>
    let outcome:=closure status turn store jobCopy
    if outcome.1=.conflict then retryOnConflict status turns outcome.2.1 outcome.2.2
    else some (outcome.1,outcome.2.1)

def updateStatus (turns : List (Turn σ ρ)) (store : Store (Object σ ρ))
    (job : Stored (Object σ ρ)) : Option (Answer × Store (Object σ ρ)) :=
  retryOnConflict job.obj.status turns store job

def updateJobStatus := @updateStatus

def updateAdvancedJobStatus := @updateStatus

def Kept (update : List (Turn σ ρ) → Store (Object σ ρ) → Stored (Object σ ρ) →
      Option (Answer × Store (Object σ ρ)))
    (turns : List (Turn σ ρ)) (store : Store (Object σ ρ)) (job : Stored (Object σ ρ)) : Prop :=
  ∀ stored,update turns store job=some (.nil,stored) →
    stored.current.obj.status=job.obj.status

variable {turn : Turn σ ρ} {turns : List (Turn σ ρ)} {store : Store (Object σ ρ)} {job : Stored (Object σ ρ)}

/-- The first run of the closure is the last one. -/
theorem updateStatus_eq :
    updateStatus (turn::turns) store job = some ((closure job.obj.status turn store job).1,
        (closure job.obj.status turn store job).2.1) := by
  refine if_neg ?_
  unfold closure
  split_ifs
  · simp
  · split <;> simp

theorem kept_updateStatus_iff :
    Kept updateStatus (turn::turns) store job ↔ turn.accepts store job ∨ turn.read=none ∨
        (turn.reached store).current.obj.status=job.obj.status := by
  unfold Kept
  rw [updateStatus_eq]
  unfold closure
  cases turn.accepts store job with
  | true => simp [Store.put,Store.current]
  | false => cases turn.read <;> simp

/-- Neither function loses the status exactly when the first update is accepted, or the read after
its refusal fails as well, or the stored status is already the one passed in. -/
theorem jobStatus_kept_iff :
    (Kept updateJobStatus (turn::turns) store job ∧ Kept updateAdvancedJobStatus (turn::turns) store job) ↔
      turn.accepts store job ∨ turn.read=none ∨ (turn.reached store).current.obj.status=job.obj.status := by
  unfold updateJobStatus updateAdvancedJobStatus
  rw [and_self,kept_updateStatus_iff]

/-- Another writer comes first; the job is read again and its new status forgotten. -/
theorem overtaken_status_lost :
    let turn : Turn String Unit := ⟨[⟨"other",()⟩],false,some ⟨2,⟨"other",()⟩⟩⟩
    let result:=updateJobStatus [turn,turn] (Store.start ⟨"old",()⟩) ⟨1,⟨"new",()⟩⟩
    result.map (·.1)=some .nil ∧ result.map (·.2.current.obj.status)=some "other" ∧
      (updateAdvancedJobStatus [turn,turn] (Store.start ⟨"old",()⟩) ⟨1,⟨"new",()⟩⟩).map
        (·.2.current.obj.status)=some "other" := by
  decide +kernel

end Kruise.Util.StatusUpdate
