import Kruise.StatefulSet.Ordered

/-!
# Parallel pod management: surplus pods

A set that allows bursting is documented to delete all its surplus pods at once
(`apis/apps/v1beta1/statefulset_types.go`). The loop over the condemned pods
(`stateful_set_control.go:663-701`) ends at the first pod that it deletes.
-/

namespace Kruise.StatefulSet

open Lib.Loop Lib.Slots List
open CloneSet (isPodHooked)

structure Surplus (set : Sts) (pod : Pod) : Prop where
  condemned : isCondemned set pod
  notTerminating : isTerminating pod=false

def NoStaleClaim (env : Env) (api : Api) : Prop :=
  env.statefulSetAutoDeletePVC → ∀ pod,api.podClaimIsStale pod≠some true

variable (c : Call)

theorem matchClaims_ne_done_false (pod : Pod) (w : Work) : (matchClaims c pod w).2≠.done false := by
  unfold matchClaims
  split
  · simp
  · simp
  · split_ifs <;> simp

section

variable (hburst : c.monotonic=false)
include hburst

theorem createReplica_burst (hstl : NoStaleClaim c.env c.api) (i : Nat) (pod : Pod) (w : Work) :
    (createReplica c i pod w).2≠.done false := by
  have hnot : c.claimIsStale pod=false := by
    cases hg : c.env.statefulSetAutoDeletePVC with
    | false => simp [Call.claimIsStale,hg]
    | true => simp [Call.claimIsStale,hstl hg pod]
  have h:=createReplica_takes c i pod w
  rw [hburst,hnot] at h
  exact h.ne_done

theorem processReplica_burst (hstl : NoStaleClaim c.env c.api) (i : Nat) (w : Work) :
    (processReplica c i w).2≠.done false := by
  refine processReplica_elim c ?_ ?_ ?_ ?_ ?_
  · simp
  · simp
  · exact fun pod _ _ => createReplica_burst c hburst hstl i _ _
  · exact fun pod _ _ _ => createReplica_burst c hburst hstl i pod w
  · intro pod _ _ _
    have h:=keepReplica_takes c pod w
    rw [hburst,Bool.false_and] at h
    exact h.ne_done

end

theorem deletePod_unhooked (api : Api) (set : Sts) {pod : Pod}
    (h : isPodHooked (set.spec.lifecycle.bind (·.preDelete)) pod.toPod=false) :
    deletePod api set pod=([.delete pod],if api.deleteOk pod then some true else none) := by
  unfold deletePod
  dsimp only
  rw [h]
  simp only [Bool.false_eq_true,if_false]
  split_ifs <;> rfl

/- The loop passes pods that are terminating and ends at the first one that is not. -/
theorem condemnedLoop_burst (hburst : c.monotonic=false) (first : Option Pod) (pods : List Pod)
    (hhk : ∀ pod∈pods,isPodHooked (c.set.spec.lifecycle.bind (·.preDelete)) pod.toPod=false) (w : Work) :
    ((∀ pod∈pods,isTerminating pod) ∧ runLoop (processCondemned c first) pods w=(w,.go)) ∨
      ∃ pod∈pods,isTerminating pod=false ∧ runLoop (processCondemned c first) pods w =
          (w.request [.delete pod],.done (!c.api.deleteOk pod)) := by
  have hn : c.nextPod=.go := by simp [Call.nextPod,hburst]
  induction pods with
  | nil => exact .inl ⟨fun pod hpod => absurd hpod not_mem_nil,rfl⟩
  | cons pod pods ih =>
    have hh:=hhk pod mem_cons_self
    cases ht : isTerminating pod with
    | true =>
      have hstep : processCondemned c first pod w=(w,.go) := by
        rw [processCondemned,if_pos ht,hn]
      have hr:=ih fun q hq => hhk q (mem_cons_of_mem pod hq)
      rw [runLoop,hstep]
      obtain ⟨ha,heq⟩ | ⟨q,hq,hl,heq⟩ := hr
      · refine .inl ⟨?_,heq⟩
        intro q hq
        obtain rfl | hq := mem_cons.mp hq
        · exact ht
        · exact ha q hq
      · exact .inr ⟨q,mem_cons_of_mem pod hq,hl,heq⟩
    | false =>
      refine .inr ⟨pod,mem_cons_self,ht,?_⟩
      have hstep : processCondemned c first pod w = (w.request [.delete pod],.done (!c.api.deleteOk pod)) := by
        unfold processCondemned
        rw [ht,hburst,deletePod_unhooked c.api c.set hh]
        cases c.api.deleteOk pod <;> simp
      rw [runLoop,hstep]

structure SparesCondemned (set : Sts) (w : Work) : Prop where
  replicas : ∀ i pod,slot w.replicas i=some pod → isCreated pod →
    isCondemned set pod=false
  actions : ∀ pod,.delete pod∈w.actions → isCondemned set pod=false

theorem SparesCondemned.processReplica {c : Call} {w : Work} (h : SparesCondemned c.set w)
    (i : Nat) : SparesCondemned c.set (processReplica c i w).1 where
  replicas := by
    refine processReplica_replicas c (fun replicas => ∀ j pod,slot replicas j=some pod →
      isCreated pod → isCondemned c.set pod=false) ?_ ?_ i h.replicas
    · intro replicas k old ho hslot j pod hpod hcreated
      by_cases hjk : k=j
      · subst hjk
        rw [slot_set_self (lt_length_of_slot hslot),Option.some.injEq] at hpod
        rw [← hpod,(isNew_newReplica c k replicas).notCreated] at hcreated
        cases hcreated
      · rw [slot_set_ne _ hjk] at hpod
        exact ho j pod hpod hcreated
    · intro replicas k old ho hslot hn j pod hpod hcreated
      by_cases hjk : k=j
      · subst hjk
        rw [slot_set_self (lt_length_of_slot hslot),Option.some.injEq] at hpod
        rw [← hpod] at hcreated
        exact absurd (hn.symm.trans hcreated) Bool.false_ne_true
      · rw [slot_set_ne _ hjk] at hpod
        exact ho j pod hpod hcreated
  actions := by
    intro pod hm
    obtain hm | ⟨hslot,hf⟩ := processReplica_delete c hm
    · exact h.actions pod hm
    · rw [isFailed,Bool.and_eq_true] at hf
      exact h.replicas i pod hslot hf.1

theorem SparesCondemned.matchClaims {c : Call} {w : Work} (h : SparesCondemned c.set w)
    (pod : Pod) : SparesCondemned c.set (matchClaims c pod w).1 := by
  obtain ⟨hr,ha⟩ := matchClaims_effect c pod w
  constructor
  · rw [hr]
    exact h.replicas
  · intro gone hm
    obtain heq | heq := ha
    · rw [heq] at hm
      exact h.actions gone hm
    · rw [heq] at hm
      obtain hm | hm := mem_append.mp hm
      · exact h.actions gone hm
      · cases mem_singleton.mp hm

theorem scalePods_burst (hburst : c.monotonic=false) (hstl : NoStaleClaim c.env c.api) {condemned : List Pod}
    (hhk : ∀ pod∈condemned, isPodHooked (c.set.spec.lifecycle.bind (·.preDelete)) pod.toPod=false)
    {w : Work} (hspr : SparesCondemned c.set w) (hd : c.set.objectMeta.deleting=false) :
    After (fun _ => ∀ pod∈condemned,isTerminating pod=true)
      (fun w' flow => flow=.done true ∨ (flow=.done false ∧ ∃ pod∈condemned,
        isTerminating pod=false ∧ .delete pod∈w'.actions ∧
        ∀ gone,.delete gone∈w'.actions → isCondemned c.set gone → gone=pod))
      (scalePods c condemned w) := by
  unfold scalePods replicaLoop
  rw [hd]
  have hf:=runLoop_avoids (SparesCondemned c.set) (range w.replicas.length)
    hspr fun i _ w' h => ⟨h.processReplica i,processReplica_burst c hburst hstl i w'⟩
  refine hf.andThen (fun _ h => h.1) ?_ ?_
  · intro w' err ⟨_,hne⟩
    cases err with
    | false => exact absurd rfl hne
    | true => exact .inl rfl
  intro w₁ h₁
  have hsnd:=runLoop_avoids (SparesCondemned c.set) (claimedPods c condemned)
    h₁ fun pod _ w' h => ⟨h.matchClaims pod,matchClaims_ne_done_false c pod w'⟩
  refine hsnd.andThen (fun _ h => h.1) ?_ ?_
  · intro w' err ⟨_,hne⟩
    cases err with
    | false => exact absurd rfl hne
    | true => exact .inl rfl
  intro w₂ h₂
  obtain ⟨ha,heq⟩ | ⟨pod,hpod,hl,heq⟩ := condemnedLoop_burst c hburst
    (firstUnhealthyPod (w.replicas.filterMap id++condemned)) condemned.reverse
    (fun pod hpod => hhk pod (mem_reverse.mp hpod)) w₂
  · rw [heq]
    exact fun pod hpod => ha pod (mem_reverse.mpr hpod)
  · rw [heq]
    cases c.api.deleteOk pod with
    | false => exact .inl rfl
    | true =>
      refine .inr ⟨rfl,pod,mem_reverse.mp hpod,hl,mem_append_right _ mem_cons_self,?_⟩
      intro gone hg hcond
      obtain hm | hm := mem_append.mp hg
      · rw [h₂.actions gone hm] at hcond
        cases hcond
      · cases mem_singleton.mp hm
        rfl

section

variable (pods : List Pod)

theorem sparesCondemned_initialWork (status : Status) (scaleMaxUnavailable : Option Int) :
    SparesCondemned c.set (initialWork c pods status scaleMaxUnavailable) where
  replicas := fun _ _ hslot hcreated => not_condemned_of_slot c hslot hcreated
  actions := fun _ hm => absurd hm List.not_mem_nil

theorem run_burst (hburst : c.monotonic=false) (hstl : NoStaleClaim c.env c.api)
    (hhk : ∀ pod∈pods,isPodHooked (c.set.spec.lifecycle.bind (·.preDelete)) pod.toPod=false)
    (collisionCount : Int) (labelSelector : String) (he : (c.run collisionCount labelSelector pods).err=false)
    (hdele : c.set.objectMeta.deleting=false) :
    (∀ pod∈pods,¬Surplus c.set pod) ∨ ∃ pod∈pods,Surplus c.set pod ∧
        .delete pod∈(c.run collisionCount labelSelector pods).actions ∧
        ∀ gone,.delete gone∈(c.run collisionCount labelSelector pods).actions →
          isCondemned c.set gone → gone=pod := by
  have hsrt:=c.api.sorted (condemnedPods c.set pods)
  have hmem : ∀ pod,pod∈c.api.sortCondemned (condemnedPods c.set pods) ↔ pod∈pods ∧ isCondemned c.set pod := by
    intro pod
    rw [hsrt.perm.mem_iff,mem_condemnedPods]
  refine run_rule c (P := fun r => r.err=false → (∀ pod∈pods,¬Surplus c.set pod) ∨ ∃ pod∈pods,
      Surplus c.set pod ∧ .delete pod∈r.actions ∧
        ∀ gone,.delete gone∈r.actions → isCondemned c.set gone → gone=pod) (by simp) (fun m =>
    scalePods_burst c hburst hstl (fun pod hpod => hhk pod ((hmem pod).mp hpod).1)
      (sparesCondemned_initialWork c pods _ m) hdele) ?_ ?_ ?_ he
  · intro w ha _
    left
    intro pod hpod hsur
    have ht:=ha pod ((hmem pod).mpr ⟨hpod,hsur.condemned⟩)
    rw [hsur.notTerminating] at ht
    cases ht
  · rintro w (hd | ⟨hd,-⟩) <;> cases hd
  · rintro w err (hd | ⟨-,pod,hpod,hlive,hdel,ho⟩) he
    · cases hd
      cases he
    · obtain ⟨hl,hcond⟩ := (hmem pod).mp hpod
      exact .inr ⟨pod,hl,⟨hcond,hlive⟩,hdel,ho⟩

end

theorem run_deleting (collisionCount : Int) (labelSelector : String) (pods : List Pod)
    (h : c.set.objectMeta.deleting) : (c.run collisionCount labelSelector pods).actions=[] := by
  unfold Call.run
  cases scaleMaxUnavailableOf c with
  | none => rfl
  | some scaleMaxUnavailable =>
    dsimp only [scaleWork,scalePods]
    rw [h]
    rfl

/-- A call in burst mode without errors and stale claims asks to delete every surplus pod exactly if
there is at most one, and none when the set itself is being deleted. -/
theorem burst_deletes_surplus_iff (env : Env) (api : Api) (now : Int) (set : Sts)
    (currentRevision updateRevision : Revision) (collisionCount : Int) (pods : List Pod)
    (revisions : List Revision) (hburst : allowsBurst set)
    (hhooks : ∀ pod∈pods,isPodHooked (set.spec.lifecycle.bind (·.preDelete)) pod.toPod=false)
    (hstale : NoStaleClaim env api)
    (herr : (updateStatefulSet env api now set currentRevision updateRevision collisionCount pods
      revisions).err=false) :
    (∀ pod∈pods,Surplus set pod → .delete pod∈(updateStatefulSet env api now set
        currentRevision updateRevision collisionCount pods revisions).actions) ↔
      (∀ p∈pods,∀ q∈pods,Surplus set p → Surplus set q → p=q) ∧
        (set.objectMeta.deleting → ∀ p∈pods,¬Surplus set p) := by
  unfold updateStatefulSet at herr ⊢
  split at herr
  · next labelSelector currentTemplate updateTemplate _ _ _ =>
    let c : Call := ⟨env,api,now,set,currentRevision.name,updateRevision.name,currentTemplate,
      updateTemplate,revisions⟩
    have hcall : c.monotonic=false := by
      rw [Call.monotonic,hburst]
      rfl
    cases hd : set.objectMeta.deleting with
    | true =>
      rw [run_deleting c collisionCount labelSelector pods hd]
      constructor
      · intro h
        have hn : ∀ p∈pods,¬Surplus set p := fun p hp hsur =>
          absurd (h p hp hsur) not_mem_nil
        exact ⟨fun p hp _ _ hsur _ => absurd hsur (hn p hp),fun _ => hn⟩
      · intro h p hp hsur
        exact absurd hsur (h.2 rfl p hp)
    | false =>
      have hr:=run_burst c pods hcall hstale hhooks collisionCount labelSelector herr hd
      simp only [Bool.false_eq_true,false_implies,and_true]
      obtain hn | ⟨pod,hpod,hsur,hdel,ho⟩ := hr
      · constructor
        · exact fun _ p hp _ _ hp' _ => absurd hp' (hn p hp)
        · exact fun _ p hp hp' => absurd hp' (hn p hp)
      · constructor
        · intro h p hp q hq hp' hq'
          rw [ho p (h p hp hp') hp'.condemned,ho q (h q hq hq') hq'.condemned]
        · intro h p hp hp'
          rw [h p hp pod hpod hp' hsur]
          exact hdel
  · cases herr

def burstWeb : Sts := plainSet 1 [] .parallel none none

def burstResult (pods : List Pod) : Result :=
  updateStatefulSet plainEnv plainApi 0 burstWeb (webRevision "a") (webRevision "a") 0 pods []

theorem noStaleClaim_plain : NoStaleClaim plainEnv plainApi := by
  rintro ⟨⟩

def oneSurplus : List Pod :=
  [plainPod "web-0" "web-a",plainPod "web-1" "web-a",
    {plainPod "web-2" "web-a" with terminating := true}]

theorem oneSurplus_only {pod : Pod} (hpod : pod∈oneSurplus) (h : Surplus burstWeb pod) :
    pod=plainPod "web-1" "web-a" := by
  simp only [oneSurplus,mem_cons,not_mem_nil,or_false] at hpod
  obtain rfl | rfl | rfl := hpod
  · exact absurd h.condemned (by decide)
  · rfl
  · exact absurd h.notTerminating (by decide)

theorem oneSurplus_deleted :
    Surplus burstWeb (plainPod "web-1" "web-a") ∧
      ∀ pod∈oneSurplus,Surplus burstWeb pod → .delete pod∈(burstResult oneSurplus).actions :=
  ⟨⟨by decide,by decide⟩,(burst_deletes_surplus_iff plainEnv plainApi 0 burstWeb
    (webRevision "a") (webRevision "a") 0 oneSurplus [] rfl (by decide) noStaleClaim_plain
    (by decide +kernel)).mpr ⟨fun _ hp _ hq hp' hq' => (oneSurplus_only hp hp').trans (oneSurplus_only hq hq').symm,
        fun h => by cases h⟩⟩

/- With `web-1` and `web-2` to delete, the call deletes `web-2` and returns. -/
theorem second_surplus_pod_stays :
    (burstResult [plainPod "web-0" "web-a",plainPod "web-1" "web-a", plainPod "web-2" "web-a"]).err=false ∧
      Surplus burstWeb (plainPod "web-1" "web-a") ∧
      Action.delete (plainPod "web-1" "web-a")∉(burstResult [plainPod "web-0" "web-a",
        plainPod "web-1" "web-a",plainPod "web-2" "web-a"]).actions := by
  refine ⟨by decide +kernel,⟨by decide,by decide⟩,?_⟩
  intro hm
  have hn:=mem_map_of_mem (f := fun a : Action => a.touched.map (·.name)) hm
  exact absurd hn (by decide)

end Kruise.StatefulSet
