import Kruise.Lib.Transition
import Mathlib.Data.List.Basic

/-!
# The pull workers of one image tag

`realWorkerPool.Sync`, `UpdateStatus` and `pullWorker.Run` with `doPullImage`
(`imagepuller_worker.go` 158-265, 318-516) for one tag that stays in the spec. The pool keeps a
pointer to the status of the worker that has called `UpdateStatus` last, here the worker's number;
what the worker writes there is its stage. Stopping a worker only sets a flag: of the calls of
`UpdateStatus` only the last one looks at it, and before the call.
-/

namespace Kruise.ImagePuller

open Lib.Transition List

inductive Phase where
  | succeeded
  | failed
deriving DecidableEq

inductive Stage where
  | starting
  | pulling
  | finishing (phase : Phase)
  | reporting (phase : Phase)
  | done (phase : Phase)
deriving DecidableEq

structure Worker where
  id : Nat
  version : Int
  stage : Stage
deriving DecidableEq

/-- A worker's status, or a completed one read from the NodeImage. -/
inductive TagStatus where
  | worker (id : Nat) (version : Int)
  | given (version : Int) (phase : Phase)
deriving DecidableEq

def TagStatus.version : TagStatus → Int
  | .worker _ version => version
  | .given version _ => version

/-- The number of workers started, the tag's worker, the stopped ones, the tag's status, and the
version in the last spec. -/
structure Pool where
  started : Nat
  pullWorker : Option Worker
  stopped : List Worker
  tagStatus : Option TagStatus
  lastSyncSpec : Option Int
deriving DecidableEq

inductive Turn where
  | begin
  | report
  | finish (phase : Phase)
  | checkActive
  | reportLast

def Turn.updates : Turn → Bool
  | .begin => true
  | .report => true
  | .reportLast => true
  | _ => false

/-- A turn of `Run`. A worker that pulls may take a progress report also when it is stopped. -/
def Worker.turn (w : Worker) (active : Bool) : Turn → Option Worker
  | .begin => if w.stage=.starting then some {w with stage := .pulling} else none
  | .report => if w.stage=.pulling then some w else none
  | .finish phase => if w.stage=.pulling then some {w with stage := .finishing phase} else none
  | .checkActive =>
    match w.stage with
    | .finishing phase => some {w with stage := if active then .reporting phase else .done phase}
    | _ => none
  | .reportLast =>
    match w.stage with
    | .reporting phase => some {w with stage := .done phase}
    | _ => none

inductive Event where
  | sync (version : Int) (completed : Option Phase)
  | work (turn : Turn)
  | workStopped (k : Nat) (turn : Turn)

namespace Pool

variable (p : Pool)

def updateStatus (turn : Turn) (w : Worker) : Option TagStatus :=
  if turn.updates then some (.worker w.id w.version) else p.tagStatus

/-- `completed` is the phase of a completed status for the version. -/
def sync (version : Int) : Option Phase → Pool
  | some phase =>
    ⟨p.started,none,p.stopped++p.pullWorker.toList,some (.given version phase),some version⟩
  | none =>
    if p.pullWorker.any fun w => w.version=version then {p with lastSyncSpec := some version}
    else
      ⟨p.started+1,some ⟨p.started,version,.starting⟩,p.stopped++p.pullWorker.toList,
        p.tagStatus,some version⟩

def next : Event → Option Pool
  | .sync version completed =>
    if p.lastSyncSpec.all fun last => last≤version then some (p.sync version completed) else none
  | .work turn =>
    p.pullWorker.bind fun w => (w.turn true turn).map fun w' =>
      {p with pullWorker := some w',tagStatus := p.updateStatus turn w}
  | .workStopped k turn =>
    p.stopped[k]?.bind fun w => (w.turn false turn).map fun w' =>
      {p with stopped := p.stopped.set k w',tagStatus := p.updateStatus turn w}

end Pool

def empty : Pool := ⟨0,none,[],none,none⟩

def Step (p : Pool) (e : Event) (p' : Pool) : Prop := p.next e=some p'

def Unstopped (_ : Pool) : Event → Prop
  | .workStopped _ turn => turn.updates=false
  | _ => True

def Event.setsStatus : Event → Bool
  | .sync _ completed => completed.isSome
  | .work turn => turn.updates
  | .workStopped _ turn => turn.updates

structure Inv (p : Pool) : Prop where
  stopped : ∀ w∈p.stopped,∃ last,p.lastSyncSpec=some last ∧ w.version≤last
  current : ∀ w,p.pullWorker=some w → p.lastSyncSpec=some w.version
  reported : ∀ w phase,p.pullWorker=some w → w.stage=.done phase →
    p.tagStatus=some (.worker w.id w.version)

variable {p p' : Pool} {e : Event}

theorem turn_spec {w w' : Worker} {active : Bool} {turn : Turn} (h : w.turn active turn=some w') :
    w'.id=w.id ∧ w'.version=w.version ∧ (∀ phase,w.stage≠.done phase) ∧
      ∀ phase,w'.stage=.done phase → turn.updates ∨ active=false := by
  cases turn <;> simp only [Worker.turn] at h <;> split at h <;> cases h <;> cases active <;>
    simp_all [Turn.updates]

theorem Inv.exists_last (h : Inv p) {w : Worker} (hw : w∈p.stopped++p.pullWorker.toList) :
    ∃ last,p.lastSyncSpec=some last ∧ w.version≤last := by
  rcases mem_append.mp hw with hw | hw
  · exact h.stopped w hw
  · exact ⟨_,h.current w (Option.mem_toList.mp hw),Int.le_refl _⟩

theorem Inv.sync (h : Inv p) {version : Int}
    (hl : ∀ last,p.lastSyncSpec=some last → last≤version) (completed : Option Phase) :
    Inv (p.sync version completed) := by
  have hold : ∀ w∈p.stopped++p.pullWorker.toList,w.version≤version := by
    intro w hw
    obtain ⟨last,hlast,hle⟩ := h.exists_last hw
    exact Int.le_trans hle (hl last hlast)
  cases completed with
  | some phase =>
    refine ⟨fun w hw => ⟨_,rfl,hold w hw⟩,?_,?_⟩
    · rintro _ ⟨⟩
    · rintro _ _ ⟨⟩
  | none =>
    unfold Pool.sync
    split_ifs with hsame
    · refine ⟨fun w hw => ⟨_,rfl,hold w (mem_append_left _ hw)⟩,?_,h.reported⟩
      intro w hw
      rw [hw,Option.any_some,decide_eq_true_eq] at hsame
      rw [hsame]
    · refine ⟨fun w hw => ⟨_,rfl,hold w hw⟩,?_,?_⟩
      · rintro _ ⟨⟩
        rfl
      · rintro _ phase ⟨⟩ hst
        cases hst

theorem inv_step (h : Inv p) (hs : Restricted Step Unstopped p e p') : Inv p' := by
  obtain ⟨hn,hu⟩ := hs
  cases e with
  | sync version completed =>
    simp only [Step,Pool.next,Option.ite_none_right_eq_some,Option.some.injEq] at hn
    obtain ⟨hl,rfl⟩ := hn
    refine h.sync (fun last hlast => ?_) completed
    simpa [hlast] using hl
  | work turn =>
    obtain ⟨w,hw,hn⟩ := Option.bind_eq_some_iff.mp hn
    obtain ⟨w',ht,rfl⟩ := Option.map_eq_some_iff.mp hn
    obtain ⟨hid,hv,-,hd⟩ := turn_spec ht
    refine ⟨h.stopped,?_,?_⟩
    · rintro _ ⟨⟩
      exact hv ▸ h.current w hw
    · rintro _ phase ⟨⟩ hst
      have hup : turn.updates := (hd phase hst).resolve_right (by simp)
      rw [Pool.updateStatus,if_pos hup,hid,hv]
  | workStopped k turn =>
    obtain ⟨w,hw,hn⟩ := Option.bind_eq_some_iff.mp hn
    obtain ⟨w',ht,rfl⟩ := Option.map_eq_some_iff.mp hn
    have hsame : p.updateStatus turn w=p.tagStatus := if_neg (by simpa [Unstopped] using hu)
    refine ⟨?_,h.current,?_⟩
    · intro v hv
      rcases mem_or_eq_of_mem_set hv with hv | rfl
      · exact h.stopped v hv
      · exact (turn_spec ht).2.1 ▸ h.stopped w (mem_of_getElem? hw)
    · exact hsame ▸ h.reported

theorem inv_of_reachable (h : Reachable (· = empty) (Restricted Step Unstopped) p) : Inv p := by
  refine h.invariant ?_ fun _ _ _ hi hs => inv_step hi hs
  rintro _ rfl
  exact ⟨by simp [empty],by simp [empty],by simp [empty]⟩

/-- While no stopped worker updates the status, it is set only to statuses of the latest version,
and from the end of the latest worker on it stays that worker's until the next `Sync`. -/
theorem status_of_latest_worker (h : Reachable (· = empty) (Restricted Step Unstopped) p)
    (hs : Restricted Step Unstopped p e p') :
    (e.setsStatus → ∃ status,p'.tagStatus=some status ∧
        ∀ w∈p'.stopped++p'.pullWorker.toList,w.version ≤ status.version) ∧
      ∀ w phase,p.pullWorker=some w → w.stage=.done phase → p.tagStatus=some (.worker w.id w.version) ∧
        (p'.pullWorker=some w ∧ p'.tagStatus=p.tagStatus ∨ ∃ v completed,e=.sync v completed) := by
  have hi:=inv_of_reachable h
  have hset : ∀ status,p'.tagStatus=some status → p'.lastSyncSpec=some status.version →
      ∃ status,p'.tagStatus=some status ∧ ∀ w∈p'.stopped++p'.pullWorker.toList,w.version ≤ status.version := by
    intro status hst hlast
    refine ⟨status,hst,fun w hw => ?_⟩
    obtain ⟨last,hl,hle⟩ := (inv_step hi hs).exists_last hw
    cases hlast.symm.trans hl
    exact hle
  obtain ⟨hn,hu⟩ := hs
  cases e with
  | sync version completed =>
    refine ⟨?_,fun w phase hw hst => ⟨hi.reported w phase hw hst,.inr ⟨_,_,rfl⟩⟩⟩
    simp only [Step,Pool.next,Option.ite_none_right_eq_some,Option.some.injEq] at hn
    obtain ⟨-,rfl⟩ := hn
    cases completed with
    | some phase => exact fun _ => hset _ rfl rfl
    | none => rintro ⟨⟩
  | work turn =>
    obtain ⟨w,hw,hn⟩ := Option.bind_eq_some_iff.mp hn
    obtain ⟨w',ht,rfl⟩ := Option.map_eq_some_iff.mp hn
    refine ⟨fun hup => hset _ (if_pos hup) (hi.current w hw),?_⟩
    intro v phase hv hst
    cases hw.symm.trans hv
    exact absurd hst ((turn_spec ht).2.2.1 phase)
  | workStopped k turn =>
    obtain ⟨w,-,hn⟩ := Option.bind_eq_some_iff.mp hn
    obtain ⟨w',-,rfl⟩ := Option.map_eq_some_iff.mp hn
    refine ⟨fun hup => absurd (hu.symm.trans hup) Bool.false_ne_true,?_⟩
    intro v phase hv hst
    exact ⟨hi.reported v phase hv hst,.inl ⟨hv,if_neg (by simpa [Unstopped] using hu)⟩⟩

/-- The second worker has finished when the stopped first one takes a progress report. -/
theorem stopped_worker_overwrites :
    let run:=[.sync 1 none,.work .begin,.sync 2 none,.work .begin,.work (.finish .succeeded),
      .work .checkActive,.work .reportLast]
    (runLabels Pool.next run empty).map Pool.tagStatus=some (some (.worker 1 2)) ∧
      (runLabels Pool.next (run++[.workStopped 0 .report]) empty).map (fun p => (p.pullWorker,p.tagStatus)) =
        some (some ⟨1,2,.done .succeeded⟩,some (.worker 0 1)) := by
  decide +kernel

instance (p : Pool) (e : Event) : Decidable (Unstopped p e) :=
  match e with
  | .sync .. => inferInstanceAs (Decidable True)
  | .work _ => inferInstanceAs (Decidable True)
  | .workStopped _ turn => inferInstanceAs (Decidable (turn.updates=false))

def secondReports : Pool :=
  ⟨2,some ⟨1,2,.reporting .succeeded⟩,[⟨0,1,.finishing .failed⟩],some (.worker 1 2),some 2⟩

/-- The stopped first worker fails, the second one reports its success, and then the first one
ends. -/
theorem second_worker_reports :
    let reported : Pool := {secondReports with pullWorker := some ⟨1,2,.done .succeeded⟩}
    let ended : Pool := {reported with stopped := [⟨0,1,.done .failed⟩]}
    Reachable (· = empty) (Restricted Step Unstopped) ended ∧
      (∃ status,reported.tagStatus=some status ∧
        ∀ w∈reported.stopped++reported.pullWorker.toList,w.version ≤ status.version) ∧
      reported.tagStatus=some (.worker 1 2) ∧ ended.tagStatus=reported.tagStatus := by
  intro reported ended
  have hrun : runLabels (restrict Pool.next Unstopped) [.sync 1 none,.work .begin,.sync 2 none,.work .begin,
      .workStopped 0 (.finish .failed),.work (.finish .succeeded),.work .checkActive] empty=some secondReports := by
    decide +kernel
  have hr : Reachable (· = empty) (Restricted Step Unstopped) secondReports :=
    reachable_of_restrict (fun _ _ _ h => h) _ (.start rfl) hrun
  have hlast : Restricted Step Unstopped secondReports (.work .reportLast) reported := ⟨rfl,trivial⟩
  have hend : Restricted Step Unstopped reported (.workStopped 0 .checkActive) ended := ⟨rfl,rfl⟩
  obtain ⟨hown,⟨-,hsame⟩ | ⟨_,_,hsync⟩⟩ :=
    (status_of_latest_worker (hr.next hlast) hend).2 ⟨1,2,.done .succeeded⟩ .succeeded rfl rfl
  · exact ⟨(hr.next hlast).next hend,(status_of_latest_worker hr hlast).1 rfl,hown,hsame⟩
  · cases hsync

end Kruise.ImagePuller
