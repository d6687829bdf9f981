import Kruise.AdvancedCronJob.AtMostOnce

/-!
# One job at a time

The concurrency policies `Forbid` and `Replace` (`advancedcronjob_job_controller.go` 302-324) over a
whole run whose reconciles list the children as they are.
-/

namespace Kruise.AdvancedCronJob

open Lib.Transition List

def Child.running (c : Child) : Bool := c.finished=none

/- A job that has finished is not reported as running again. -/
def StaysFinished (w : World) : Label → Prop
  | .reconcile .. => True
  | .report name _ finished => finished=none → ∀ c∈w.children,c.name=name → c.running

instance (w : World) : ∀ l,Decidable (StaysFinished w l)
  | .reconcile .. => isTrue trivial
  | .report name _ finished =>
    inferInstanceAs (Decidable (finished=none → ∀ c∈w.children,c.name=name → c.running))

variable {sched : Schedule} {sorter : Sorter} {cron : CronJob} {now : Int} {deletes : String → Bool}
  {children : List Child}

theorem replaceActive_all {names : List String} (h : (replaceActive deletes names).2) :
    (replaceActive deletes names).1=names := by
  induction names with
  | nil => rfl
  | cons name names ih =>
    unfold replaceActive at h ⊢
    split_ifs at h ⊢
    exact congrArg (name::·) (ih h)

/-- A job is created only if none is running or all that are running have been deleted. -/
theorem deleted_of_create (hpolicy : cron.concurrencyPolicy≠.allow) {t : Int}
    (h : (reconcileJob sched sorter cron now deletes children).create=some t) {c : Child}
    (hc : c∈children) (hr : c.running) :
    c.name∈(reconcileJob sched sorter cron now deletes children).deleted := by
  have ha : c.name∈(children.filter fun c => c.finished=none).map Child.name :=
    mem_map_of_mem (mem_filter.mpr ⟨hc,hr⟩)
  unfold reconcileJob at h ⊢
  dsimp only at h ⊢
  generalize (children.filter fun c => c.finished=none).map Child.name=active at ha h ⊢
  generalize getNextSchedule sched cron (mostRecentTime children) now=missed at h ⊢
  by_cases hpaused : cron.paused
  · simp [hpaused] at h
  rw [if_neg hpaused] at h ⊢
  rcases missed with _ | _ | missedRun
  · cases h
  · cases h
  · dsimp only at h ⊢
    split_ifs at h ⊢ with hlate hforbid hreplace hall
    · rw [replaceActive_all hall]
      exact mem_append_right _ ha
    · cases hp : cron.concurrencyPolicy with
      | allow => exact absurd hp hpolicy
      | forbid => exact absurd ⟨hp,ne_nil_of_mem ha⟩ hforbid
      | replace => exact absurd hp hreplace

/-- Under `Forbid` and `Replace` no state of a run has two jobs that run. -/
theorem one_job_runs (hpolicy : cron.concurrencyPolicy≠.allow) {w : World}
    (h : Reachable (fun w => w.children.countP Child.running≤1)
      (Restricted (step sched sorter cron) StaysFinished) w) : w.children.countP Child.running≤1 := by
  refine h.invariant (fun _ hs => hs) ?_
  rintro w l w' hw ⟨hn,hok⟩
  cases l with
  | report name startTime finished =>
    cases hn
    rw [countP_map]
    refine le_trans (countP_mono_left fun c hc hr => ?_) hw
    dsimp only [Function.comp] at hr
    split_ifs at hr with hname
    · exact hok (of_decide_eq_true hr) c hc hname
    · exact hr
  | reconcile now listed deletes creates =>
    simp only [step,next] at hn
    split_ifs at hn with hg
    cases hn
    have hle : ∀ deleted : List String,
        (w.children.filter fun c => c.name∉deleted).countP Child.running≤1 :=
      fun deleted => le_trans (filter_sublist.countP_le) hw
    unfold applyOutcome
    cases hcre : (reconcileJob sched sorter cron now deletes listed).create with
    | none => exact hle _
    | some t =>
      dsimp only
      unfold createJob
      split_ifs
      · have hz : (w.children.filter fun c =>
            c.name∉(reconcileJob sched sorter cron now deletes listed).deleted).countP Child.running=0 := by
          refine countP_eq_zero.mpr fun c hc hr => ?_
          obtain ⟨hc,hkept⟩ := mem_filter.mp hc
          exact of_decide_eq_true hkept (deleted_of_create hpolicy hcre (hg.2.mem_iff.mpr hc) hr)
        rw [countP_append,hz,Nat.zero_add]
        exact countP_le_length
      · exact hle _

def replacing : CronJob := {minuteCron 1 with concurrencyPolicy := .replace}

theorem second_job_replaces_first : ∃ w : World,w.created=[120,60] ∧ w.children.countP Child.running≤1 := by
  have hr : (runLabels (restrict (next everyMinute byStartTime replacing) StaysFinished)
      [.reconcile (61*second) [] (fun _ => true) true,
        .reconcile (121*second) [⟨"cron-60",some 60,none,none⟩] (fun _ => true) true]
      emptyWorld).map (·.created)=some [120,60] := by decide +kernel
  obtain ⟨w,hw,hcreated⟩ := Option.map_eq_some_iff.mp hr
  have hpolicy : replacing.concurrencyPolicy≠.allow := by decide
  exact ⟨w,hcreated,one_job_runs hpolicy
    (reachable_of_restrict (fun _ _ _ h => h) _ (.start (s := emptyWorld) (Nat.zero_le 1)) hw)⟩

end Kruise.AdvancedCronJob
