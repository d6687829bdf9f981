import Kruise.AdvancedCronJob.Reconcile
import Mathlib.Data.List.Sort

/-!
# A scheduled time is started once

A time counts as started while a child with this time or a later one exists. The history limits
can take that child away, and then the time is picked again as long as no later one has come.
-/

namespace Kruise.AdvancedCronJob

open Lib.Transition List

variable {sched : Schedule} {sorter : Sorter} {cron : CronJob} {w w' : World}

variable {children : List Child} {t : Int}

theorem le_later {a b : Option Int} (h : a=some t ∨ b=some t) : ∃ m,later a b=some m ∧ t ≤ m := by
  cases a with
  | none =>
    rcases h with h | h
    · cases h
    · exact ⟨t,h,le_rfl⟩
  | some s =>
    cases b with
    | none =>
      rcases h with h | h
      · exact ⟨t,h,le_rfl⟩
      · cases h
    | some u =>
      simp only [Option.some.injEq] at h
      simp only [later]
      split_ifs with hlt
      · exact ⟨u,rfl,by omega⟩
      · exact ⟨s,rfl,by omega⟩

theorem later_eq {a b : Option Int} {m : Int} (h : later a b=some m) : a=some m ∨ b=some m := by
  cases a with
  | none => exact .inr h
  | some s =>
    cases b with
    | none => exact .inl h
    | some u =>
      simp only [later] at h
      split_ifs at h
      · exact .inr h
      · exact .inl h

theorem foldl_later (children : List Child) (acc : Option Int) :
    (∀ t,(acc=some t ∨ ∃ c∈children,c.scheduledAt=some t) →
      ∃ m,children.foldl (fun m c => later m c.scheduledAt) acc=some m ∧ t ≤ m) ∧
    ∀ m,children.foldl (fun m c => later m c.scheduledAt) acc=some m →
      acc=some m ∨ ∃ c∈children,c.scheduledAt=some m := by
  induction children generalizing acc with
  | nil =>
    refine ⟨?_,fun m h => .inl h⟩
    rintro t (h | ⟨c,hc,-⟩)
    · exact ⟨t,h,le_rfl⟩
    · cases hc
  | cons c children ih =>
    obtain ⟨hle,hmem⟩ := ih (later acc c.scheduledAt)
    constructor
    · intro t h
      have hcases : (acc=some t ∨ c.scheduledAt=some t) ∨ ∃ d∈children,d.scheduledAt=some t := by
        rcases h with h | ⟨d,hd,hdt⟩
        · exact .inl (.inl h)
        · rcases mem_cons.mp hd with rfl | hd
          · exact .inl (.inr hdt)
          · exact .inr ⟨d,hd,hdt⟩
      rcases hcases with h | h
      · obtain ⟨s,hs,hts⟩ := le_later h
        obtain ⟨m,hm,hsm⟩ := hle s (.inl hs)
        exact ⟨m,hm,hts.trans hsm⟩
      · exact hle t (.inr h)
    · intro m hm
      rcases hmem m hm with h | ⟨d,hd,hdm⟩
      · rcases later_eq h with h | h
        · exact .inl h
        · exact .inr ⟨c,mem_cons_self,h⟩
      · exact .inr ⟨d,mem_cons_of_mem _ hd,hdm⟩

theorem le_mostRecentTime {c : Child} (hc : c∈children) (ht : c.scheduledAt=some t) :
    ∃ m,mostRecentTime children=some m ∧ t ≤ m :=
  (foldl_later children none).1 t (.inr ⟨c,hc,ht⟩)

theorem mostRecentTime_eq {m : Int} (h : mostRecentTime children=some m) : ∃ c∈children,c.scheduledAt=some m := by
  rcases (foldl_later children none).2 m h with h | h
  · cases h
  · exact h

variable {last : Option Int} {now m : Int}

theorem missedLoop_spec {fuel : Nat} (h : missedLoop sched now fuel t last=some (some m)) :
    last=some m ∧ now<t*second ∨ t ≤ m ∧ m*second≤now ∧ now<sched.next (m*second)*second := by
  induction fuel generalizing t last with
  | zero =>
    unfold missedLoop at h
    split_ifs at h with hn
    exact .inl ⟨Option.some.inj h,by omega⟩
  | succ fuel ih =>
    unfold missedLoop at h
    split_ifs at h with hn
    · right
      rcases ih h with ⟨ht,hl⟩ | ⟨hle,hr⟩
      · cases ht
        exact ⟨le_rfl,hn,hl⟩
      · have hnext:=mul_second_lt.mp (sched.next_spec (t*second)).1
        exact ⟨by omega,hr⟩
    · exact .inl ⟨Option.some.inj h,by omega⟩

theorem missedLoop_mem {fuel : Nat} (ht : ∃ j,t=sched.times j) (hl : ∀ s,last=some s → ∃ j,s=sched.times j)
    (h : missedLoop sched now fuel t last=some (some m)) : ∃ j,m=sched.times j := by
  induction fuel generalizing t last with
  | zero =>
    unfold missedLoop at h
    split_ifs at h
    exact hl m (Option.some.inj h)
  | succ fuel ih =>
    unfold missedLoop at h
    split_ifs at h
    · refine ih (sched.firstAfter_mem _ _ _) ?_ h
      intro s hs
      exact Option.some.inj hs ▸ ht
    · exact hl m (Option.some.inj h)

theorem earliestTime_ge {now : Int} : t*second≤earliestTime cron (some t) now := by
  unfold earliestTime
  cases cron.startingDeadlineSeconds with
  | none => exact le_rfl
  | some deadline =>
    dsimp only
    split_ifs with hl
    · exact le_of_lt hl
    · exact le_rfl

theorem getNextSchedule_spec (h : getNextSchedule sched cron last now=some (some m)) :
    (∃ j,m=sched.times j) ∧ m*second≤now ∧ (∀ t,last=some t → t < m) ∧
      ∀ j,m<sched.times j → now<sched.times j*second := by
  unfold getNextSchedule at h
  dsimp only at h
  split_ifs at h with hf
  · cases h
  · rcases missedLoop_spec h with ⟨hnone,-⟩ | ⟨hle,hnow,hn⟩
    · cases hnone
    · refine ⟨missedLoop_mem (sched.firstAfter_mem _ _ _) (fun s hs => by cases hs) h,hnow,?_,?_⟩
      · rintro t rfl
        have ha:=(sched.next_spec (earliestTime cron (some t) now)).1
        have hlt:=mul_second_lt.mp (lt_of_le_of_lt earliestTime_ge ha)
        omega
      · intro j hj
        have hm:=(sched.next_spec (m*second)).2 j (mul_second_lt.mpr hj)
        exact lt_of_lt_of_le hn (mul_second_le.mpr hm)

theorem reconcileJob_spec (sched : Schedule) (sorter : Sorter) (cron : CronJob) (now : Int)
    (deletes : String → Bool) (children : List Child) :
    let o:=reconcileJob sched sorter cron now deletes children
    let history:=cleanUp sorter cron deletes children .failed ++ cleanUp sorter cron deletes children .complete
    (o.create=none ∧ o.deleted=history) ∨
      ∃ m,getNextSchedule sched cron (mostRecentTime children) now=some (some m) ∧
        (o.create=none ∨ o.create=some m) := by
  unfold reconcileJob
  by_cases hpaused : cron.paused
  · rw [if_pos hpaused]
    exact .inl ⟨rfl,rfl⟩
  · rw [if_neg hpaused]
    cases hn : getNextSchedule sched cron (mostRecentTime children) now with
    | none => exact .inl ⟨rfl,rfl⟩
    | some missed =>
      cases missed with
      | none => exact .inl ⟨rfl,rfl⟩
      | some m =>
        dsimp only
        split_ifs
        · exact .inl ⟨rfl,rfl⟩
        · exact .inl ⟨rfl,rfl⟩
        · exact .inr ⟨m,rfl,.inr rfl⟩
        · exact .inr ⟨m,rfl,.inl rfl⟩
        · exact .inr ⟨m,rfl,.inr rfl⟩

/- Among the children with the same outcome, those that did not start before the latest are within
the limit. -/
def KeepsLatest (cron : CronJob) (children : List Child) : Prop :=
  ∀ c∈children,∀ t∈c.scheduledAt,(∀ d∈children,∀ u∈d.scheduledAt,u≤t) →
    ∀ outcome∈c.finished,∀ limit∈cron.historyLimit outcome,
      children.countP (fun d => decide (d.finished=some outcome)&&!startedBefore d c)≤limit
  deriving Decidable

theorem not_mem_take_of_sorted {jobs : List Child} {c : Child} {limit : Nat}
    (hsrt : jobs.Pairwise fun a b => startedBefore b a=false)
    (hcnt : jobs.countP (fun d => !startedBefore d c)≤limit) : c∉jobs.take (jobs.length-limit) := by
  intro hm
  have hl : limit<jobs.length := by
    have hpos:=length_pos_of_mem hm
    rw [length_take] at hpos
    omega
  obtain ⟨front,back,hspl⟩ := append_of_mem hm
  have hjobs : jobs=front++c::(back++jobs.drop (jobs.length-limit)) := by
    conv_lhs => rw [← take_append_drop (jobs.length-limit) jobs,hspl]
    simp
  -- the child and all that come after it did not start before it
  have ha : ∀ d∈c::(back++jobs.drop (jobs.length-limit)),(!startedBefore d c) := by
    rw [hjobs] at hsrt
    have hr:=(pairwise_cons.mp (pairwise_append.mp hsrt).2.1).1
    intro d hd
    rcases mem_cons.mp hd with rfl | hd
    · unfold startedBefore
      cases d.startTime <;> simp
    · rw [hr d (hjobs ▸ hd)]
      rfl
  have hall:=countP_eq_length.mpr ha
  have hle : (c::(back++jobs.drop (jobs.length-limit))).countP
      (fun d => !startedBefore d c)≤jobs.countP fun d => !startedBefore d c := by
    refine Sublist.countP_le ?_
    conv_rhs => rw [hjobs]
    exact sublist_append_right _ _
  rw [hall,length_cons,length_append,length_drop] at hle
  omega

variable {listed : List Child}

theorem KeepsLatest.perm (h : KeepsLatest cron children) (hperm : listed.Perm children) :
    KeepsLatest cron listed := by
  intro c hc t ht hl outcome ho limit hlim
  rw [hperm.countP_eq]
  exact h c (hperm.mem_iff.mp hc) t ht (fun d hd => hl d (hperm.mem_iff.mpr hd)) outcome ho limit hlim

variable {deletes : String → Bool}

theorem KeepsLatest.not_cleaned {c : Child} (h : KeepsLatest cron children)
    (hn : (children.map Child.name).Nodup) (hc : c∈children) (ht : c.scheduledAt=some t)
    (hl : ∀ d∈children,∀ u∈d.scheduledAt,u≤t) (outcome : JobOutcome) :
    c.name∉cleanUp sorter cron deletes children outcome := by
  unfold cleanUp
  cases hlim : cron.historyLimit outcome with
  | none => simp
  | some limit =>
    intro hm
    obtain ⟨d,hd,hname⟩ := mem_map.mp (mem_filter.mp hm).1
    have hperm:=sorter.perm (children.filter fun c => c.finished=some outcome)
    obtain ⟨hd',ho⟩ := mem_filter.mp (hperm.mem_iff.mp (mem_of_mem_take hd))
    obtain rfl := inj_on_of_nodup_map hn hd' hc hname
    refine not_mem_take_of_sorted (sorter.sorted _) ?_ hd
    rw [hperm.countP_eq,countP_filter]
    refine le_trans (le_of_eq ?_) (h d hc t ht hl outcome (of_decide_eq_true ho) limit hlim)
    exact countP_congr fun x _ => by rw [Bool.and_comm]

/- The time is remembered: a child has it or a later one, or a later scheduled time has come. -/
def Remembered (sched : Schedule) (clock : Int) (children : List Child) (t : Int) : Prop :=
  (∃ c∈children,∃ u,c.scheduledAt=some u ∧ t≤u) ∨
    ∃ j,t<sched.times j ∧ sched.times j*second≤clock

structure Inv (sched : Schedule) (w : World) : Prop where
  names : (w.children.map Child.name).Nodup
  once : w.created.Nodup
  remembered : ∀ t∈w.created,Remembered sched w.clock w.children t

/- A reconcile finds the latest child outside of what the history limits remove. -/
def Orderly (cron : CronJob) (w : World) : Label → Prop
  | .reconcile .. => KeepsLatest cron w.children
  | .report .. => True

theorem not_remembered_of_missed {clock now m : Int} (hclk : clock≤now)
    (h : getNextSchedule sched cron (mostRecentTime children) now=some (some m)) :
    ¬Remembered sched clock children m := by
  obtain ⟨-,-,hlast,hl⟩ := getNextSchedule_spec h
  rintro (⟨c,hc,u,hu,hmu⟩ | ⟨j,hj,hcome⟩)
  · obtain ⟨r,hr,hur⟩ := le_mostRecentTime hc hu
    have := hlast r hr
    omega
  · have := hl j hj
    omega

theorem remembered_of_missed {clock now m : Int} (hclk : clock≤now)
    (h : getNextSchedule sched cron (mostRecentTime children) now=some (some m))
    (ht : Remembered sched clock children t) (kept : List Child) : Remembered sched now kept t := by
  obtain ⟨⟨i,rfl⟩,hcome,hl,-⟩ := getNextSchedule_spec h
  refine .inr ?_
  rcases ht with ⟨c,hc,u,hu,htu⟩ | ⟨j,hj,hjclock⟩
  · obtain ⟨r,hr,hur⟩ := le_mostRecentTime hc hu
    have := hl r hr
    exact ⟨i,by omega,hcome⟩
  · exact ⟨j,hj,by omega⟩

theorem remembered_of_cleaned {clock now : Int} (hkp : KeepsLatest cron children)
    (hn : (children.map Child.name).Nodup) (hclk : clock≤now)
    (ht : Remembered sched clock children t) {deleted : List String}
    (hdel : deleted=cleanUp sorter cron deletes children .failed ++
      cleanUp sorter cron deletes children .complete) :
    Remembered sched now (children.filter fun c => c.name∉deleted) t := by
  rcases ht with ⟨c,hc,u,hu,htu⟩ | ⟨j,hj,hcome⟩
  · obtain ⟨m,hm,hum⟩ := le_mostRecentTime hc hu
    obtain ⟨d,hd,hdm⟩ := mostRecentTime_eq hm
    have hl : ∀ e∈children,∀ v∈e.scheduledAt,v ≤ m := by
      intro e he v hv
      obtain ⟨m',hm',hvm⟩ := le_mostRecentTime he hv
      rw [hm] at hm'
      exact Option.some.inj hm' ▸ hvm
    refine .inl ⟨d,mem_filter.mpr ⟨hd,decide_eq_true ?_⟩,m,hdm,htu.trans hum⟩
    rw [hdel]
    intro hmem
    rcases mem_append.mp hmem with hmem | hmem
    · exact hkp.not_cleaned hn hd hdm hl .failed hmem
    · exact hkp.not_cleaned hn hd hdm hl .complete hmem
  · exact .inr ⟨j,hj,by omega⟩

theorem Remembered.perm {clock : Int} (h : Remembered sched clock children t)
    (hperm : listed.Perm children) : Remembered sched clock listed t := by
  rcases h with ⟨c,hc,hu⟩ | hj
  · exact .inl ⟨c,hperm.mem_iff.mpr hc,hu⟩
  · exact .inr hj

theorem Inv.report (h : Inv sched w) {name : String} {startTime : Option Int} {finished : Option JobOutcome}
    (hw : w'={w with children := w.children.map fun c =>
      if c.name=name then {c with startTime := startTime,finished := finished} else c}) :
    Inv sched w' := by
  subst hw
  have hsame : ∀ c : Child,(if c.name=name then
      {c with startTime := startTime,finished := finished} else c).name=c.name ∧
      (if c.name=name then
        {c with startTime := startTime,finished := finished} else c).scheduledAt = c.scheduledAt := by
    intro c
    split_ifs <;> exact ⟨rfl,rfl⟩
  refine ⟨?_,h.once,?_⟩
  · rw [map_map]
    exact (map_congr_left fun c _ => (hsame c).1) ▸ h.names
  · intro t ht
    rcases h.remembered t ht with ⟨c,hc,u,hu,htu⟩ | hj
    · exact .inl ⟨_,mem_map_of_mem hc,u,(hsame c).2.trans hu,htu⟩
    · exact .inr hj

theorem Inv.createJob (h : Inv sched w) (hn : t∉w.created) (creates : Bool) :
    Inv sched (createJob cron t creates w) := by
  unfold AdvancedCronJob.createJob
  split_ifs with hf
  · simp only [Bool.and_eq_true,Bool.not_eq_true',decide_eq_false_iff_not] at hf
    refine ⟨?_,nodup_cons.mpr ⟨hn,h.once⟩,?_⟩
    · rw [map_append]
      refine nodup_append.mpr ⟨h.names,nodup_singleton _,?_⟩
      rintro a ha b hb rfl
      obtain rfl := mem_singleton.mp hb
      exact hf.2 ha
    · intro s hs
      rcases mem_cons.mp hs with rfl | hs
      · exact .inl ⟨_,mem_append_right _ mem_cons_self,s,rfl,le_rfl⟩
      · rcases h.remembered s hs with ⟨c,hc,hu⟩ | hj
        · exact .inl ⟨c,mem_append_left _ hc,hu⟩
        · exact .inr hj
  · exact h

theorem Inv.reconcile (h : Inv sched w) (hkp : KeepsLatest cron w.children) {now : Int}
    (hclk : w.clock≤now) (hperm : listed.Perm w.children) (deletes : String → Bool) (creates : Bool) :
    Inv sched (applyOutcome cron now creates (reconcileJob sched sorter cron now deletes listed) w) := by
  have hn : (listed.map Child.name).Nodup := (hperm.map _).nodup_iff.mpr h.names
  have hl : ∀ t∈w.created,Remembered sched w.clock listed t :=
    fun t ht => (h.remembered t ht).perm hperm
  have hleft : ∀ deleted : List String, ((w.children.filter fun c => c.name∉deleted).map Child.name).Nodup :=
    fun deleted => h.names.sublist (filter_sublist.map Child.name)
  rcases reconcileJob_spec sched sorter cron now deletes listed with
    ⟨hcre,hd⟩ | ⟨m,hmiss,hcre⟩
  · unfold applyOutcome
    rw [hcre]
    refine ⟨hleft _,h.once,?_⟩
    intro t ht
    exact (remembered_of_cleaned (hkp.perm hperm) hn hclk (hl t ht) hd).perm (hperm.symm.filter _)
  · have hi : ∀ (last : Option Int) (active deleted : List String),Inv sched
        ⟨now,w.children.filter fun c => c.name∉deleted,last,active,w.created⟩ := by
      intro last active deleted
      refine ⟨hleft _,h.once,?_⟩
      intro t ht
      exact remembered_of_missed hclk hmiss (hl t ht) _
    have hnew : m∉w.created := fun hm =>
      not_remembered_of_missed hclk hmiss (hl m hm)
    unfold applyOutcome
    rcases hcre with hcre | hcre
    · rw [hcre]
      exact hi _ _ _
    · rw [hcre]
      exact (hi _ _ _).createJob hnew creates

theorem Inv.step (h : Inv sched w) {l : Label}
    (hstep : Restricted (step sched sorter cron) (Orderly cron) w l w') : Inv sched w' := by
  obtain ⟨hn,ho⟩ := hstep
  cases l with
  | report name startTime finished => exact h.report (Option.some.inj hn).symm
  | reconcile now listed deletes creates =>
    simp only [AdvancedCronJob.step,next] at hn
    split_ifs at hn with hg
    cases hn
    exact h.reconcile ho hg.1 hg.2 deletes creates

/-- No scheduled time has a job created for it twice, in any run whose reconciles all find the
latest child within the history limits. -/
theorem scheduled_time_created_once (h : Reachable Init (Restricted (step sched sorter cron) (Orderly cron)) w) :
    w.created.Nodup := by
  have hi : Inv sched w := by
    refine h.invariant ?_ ?_
    · rintro s ⟨hcreated,hn⟩
      refine ⟨hn,hcreated ▸ nodup_nil,?_⟩
      intro t ht
      rw [hcreated] at ht
      cases ht
    · intro s l s' hs hstep
      exact hs.step hstep
  exact hi.once

def everyMinute : Schedule where
  times i := 60*(i+1)
  increasing i j hlt := by omega

def notAfter (a b : Child) : Prop := startedBefore b a=false

instance : DecidableRel notAfter :=
  fun a b => inferInstanceAs (Decidable (startedBefore b a=false))

instance : Std.Total notAfter where
  total a b := by
    unfold notAfter startedBefore
    cases a.startTime <;> cases b.startTime <;> simp
    omega

instance : IsTrans Child notAfter where
  trans a b c := by
    unfold notAfter startedBefore
    cases a.startTime <;> cases b.startTime <;> cases c.startTime <;> simp
    omega

def byStartTime : Sorter where
  sort jobs := jobs.insertionSort notAfter
  perm jobs := perm_insertionSort notAfter jobs
  sorted jobs := pairwise_insertionSort notAfter jobs

def minuteCron (historyLimit : Nat) : CronJob where
  name := "cron"
  creationTimestamp := 0
  startingDeadlineSeconds := none
  concurrencyPolicy := .allow
  paused := false
  successfulJobsHistoryLimit := some historyLimit
  failedJobsHistoryLimit := some historyLimit

def minuteChild (t : Int) (finished : Option JobOutcome) : Child :=
  ⟨"cron-" ++ toString t,some t,some t,finished⟩

def emptyWorld : World := ⟨0,[],none,[],[]⟩

def firstMinute (left : List Child) : List Label :=
  [.reconcile (61*second) [] (fun _ => true) true,
    .report "cron-60" (some 60) (some .complete),
    .reconcile (62*second) [minuteChild 60 (some .complete)] (fun _ => true) true,
    .reconcile (63*second) left (fun _ => true) true]

/-- With a history limit of zero the finished job is deleted and created again. -/
theorem first_minute_created_twice :
    ∃ w,Reachable Init (step everyMinute byStartTime (minuteCron 0)) w ∧ w.created=[60,60] := by
  have hr : (runLabels (next everyMinute byStartTime (minuteCron 0)) (firstMinute [])
      emptyWorld).map (·.created)=some [60,60] := by decide +kernel
  obtain ⟨w,hw,hcreated⟩ := Option.map_eq_some_iff.mp hr
  refine ⟨w,?_,hcreated⟩
  exact reachable_of_runLabels (fun _ _ _ h => h) _ (Reachable.start (⟨rfl,nodup_nil⟩ : Init emptyWorld)) hw

instance (cron : CronJob) (w : World) (l : Label) : Decidable (Orderly cron w l) :=
  match l with
  | .reconcile .. => inferInstanceAs (Decidable (KeepsLatest cron w.children))
  | .report .. => inferInstanceAs (Decidable True)

theorem two_minutes_created_once : ∃ w : World,w.created=[120,60] ∧ w.created.Nodup := by
  have hr : (runLabels (restrict (next everyMinute byStartTime (minuteCron 1))
      (Orderly (minuteCron 1))) (firstMinute [minuteChild 60 (some .complete)] ++
        [.reconcile (121*second) [minuteChild 60 (some .complete)] (fun _ => true) true])
      emptyWorld).map (·.created)=some [120,60] := by decide +kernel
  obtain ⟨w,hw,hcreated⟩ := Option.map_eq_some_iff.mp hr
  refine ⟨w,hcreated,?_⟩
  exact scheduled_time_created_once (reachable_of_restrict (fun _ _ _ h => h) _
    (Reachable.start (⟨rfl,nodup_nil⟩ : Init emptyWorld)) hw)

end Kruise.AdvancedCronJob
