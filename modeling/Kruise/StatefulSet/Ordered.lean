import Kruise.StatefulSet.Requests

/-!
# Ordered pod management

One call creates at most one pod, when all pods before it are available, and deletes a condemned pod
only when all replicas are available and no condemned pod has a larger ordinal
(`stateful_set_control.go:376-711`).
-/

namespace Kruise.StatefulSet

open Lib.Counting Lib.Loop Lib.Slots Lib.Sorting List Option

def Action.isCreate : Action → Bool
  | .create _ _ => true
  | _ => false

structure Settled (now : Int) (set : Sts) (pod : Pod) : Prop where
  created : isCreated pod
  notTerminating : isTerminating pod=false
  available : isRunningAndAvailable now pod (getMinReadySeconds set)

def SettledAt (now : Int) (set : Sts) (pods : List Pod) (ordinal : Nat) : Prop :=
  ∃ pod,podAt pods ordinal=some pod ∧ Settled now set pod

def MissingOrFailed (pods : List Pod) (ordinal : Nat) : Prop :=
  ∀ pod,podAt pods ordinal=some pod → isCreated pod=false ∨ isFailed pod

theorem SettledAt.not_missingOrFailed {now : Int} {set : Sts} {pods : List Pod} {ordinal : Nat}
    (h : SettledAt now set pods ordinal) : ¬MissingOrFailed pods ordinal := by
  obtain ⟨pod,hpod,hsettled⟩ := h
  intro hn
  obtain hcreated | hf := hn pod hpod
  · rw [hsettled.created] at hcreated
    cases hcreated
  · rw [not_isFailed_of_available hsettled.available] at hf
    cases hf

/- The bound on the ordinal is that of the `int32` that ordinals are parsed as. -/
structure InOrder (now : Int) (set : Sts) (pods : List Pod) (actions : List Action) : Prop where
  atMostOneCreate : actions.countP Action.isCreate≤1
  create : ∀ ordinal pod,.create ordinal pod∈actions →
    isValidOrdinal set ordinal ∧ (ordinal<2^31 → getOrdinal pod=ordinal) ∧
      MissingOrFailed pods ordinal ∧
      ∀ before<ordinal,isValidOrdinal set before →
        ¬MissingOrFailed pods before ∧ SettledAt now set pods before
  deleteCondemned : ∀ pod,.delete pod∈actions → isCondemned set pod →
    pod∈pods ∧ (∀ ordinal,isValidOrdinal set ordinal → SettledAt now set pods ordinal) ∧
      ∀ other∈pods,isCondemned set other → getOrdinal other≤getOrdinal pod

def Quiet (actions : List Action) : Prop :=
  ∀ a∈actions,a.isCreate=false ∧ a.touched=none

theorem Quiet.nil : Quiet [] := by
  rintro a ⟨⟩

variable {actions : List Action}

theorem Quiet.concat (h : Quiet actions) {a : Action} (hcre : a.isCreate=false)
    (ht : a.touched=none) : Quiet (actions++[a]) := by
  intro b hb
  obtain hm | hm := mem_append.mp hb
  · exact h b hm
  · rw [mem_singleton.mp hm]
    exact ⟨hcre,ht⟩

theorem Quiet.countP (h : Quiet actions) : actions.countP Action.isCreate=0 := by
  rw [countP_eq_zero]
  intro a ha
  rw [(h a ha).1]
  exact Bool.false_ne_true

theorem Quiet.not_delete (h : Quiet actions) (pod : Pod) : .delete pod∉actions := by
  intro hm
  have ht:=(h _ hm).2
  cases ht

variable {pod : Pod} {i : Nat}

theorem Action.not_isCreate_of_touched {a : Action} (h : a.touched=some pod) : a.isCreate=false := by
  cases a with
  | create ordinal new => cases h
  | _ => rfl

theorem Quiet.countP_append {touching : List Action} (h : Quiet actions) (ht : ∀ a∈touching,a.touched≠none) :
    (actions++touching).countP Action.isCreate=0 := by
  rw [List.countP_append,h.countP,Nat.zero_add,countP_eq_zero]
  intro a ha
  obtain ⟨pod,hpod⟩ := ne_none_iff_exists'.mp (ht a ha)
  rw [Action.not_isCreate_of_touched hpod]
  exact Bool.false_ne_true

theorem not_create_of_countP (h : actions.countP Action.isCreate=0) (ordinal : Nat) (pod : Pod) :
    .create ordinal pod∉actions := by
  intro hm
  exact countP_eq_zero.mp h _ hm rfl

theorem deletePod_touches (api : Api) (set : Sts) (pod : Pod) : ∀ a∈(deletePod api set pod).1,a.touched≠none := by
  intro a ha
  rw [deletePod_touched api set pod a ha]
  exact some_ne_none pod

structure Attempt (i : Nat) (pod : Pod) (actions : List Action) : Prop where
  atMostOneCreate : actions.countP Action.isCreate≤1
  create : ∀ ordinal new,.create ordinal new∈actions → ordinal=i ∧
    (i<2^31 → getOrdinal new=i) ∧ (isCreated pod=false ∨ isFailed pod)
  delete : ∀ gone,.delete gone∈actions → gone=pod ∧ isFailed pod

theorem Attempt.of_quiet (h : Quiet actions) (i : Nat) (pod : Pod) : Attempt i pod actions where
  atMostOneCreate := by rw [h.countP]; exact Nat.zero_le 1
  create := fun ordinal new hm => absurd hm (not_create_of_countP h.countP ordinal new)
  delete := fun gone hm => absurd hm (h.not_delete gone)

theorem Attempt.delete_failed (h : Quiet actions) (api : Api) (set : Sts) (i : Nat) (hf : isFailed pod) :
    Attempt i pod (actions++(deletePod api set pod).1) ∧
      (actions++(deletePod api set pod).1).countP Action.isCreate=0 := by
  have hn:=h.countP_append (deletePod_touches api set pod)
  refine ⟨⟨?_,?_,?_⟩,hn⟩
  · rw [hn]
    exact Nat.zero_le 1
  · intro ordinal new hm
    exact absurd hm (not_create_of_countP hn ordinal new)
  · intro gone hm
    obtain hm | hm := mem_append.mp hm
    · exact absurd hm (h.not_delete gone)
    · have ht:=deletePod_touched api set pod _ hm
      exact ⟨some.inj ht,hf⟩

theorem Attempt.create_pod (h : Attempt i pod actions) (hnone : actions.countP Action.isCreate=0) {new : Pod}
    (ho : i<2^31 → getOrdinal new=i) (hn : isCreated pod=false ∨ isFailed pod) :
    Attempt i pod (actions++[.create i new]) where
  atMostOneCreate := by
    rw [countP_append,hnone]
    exact Nat.le_refl 1
  create := by
    intro ordinal pod' hm
    obtain hm | hm := mem_append.mp hm
    · exact h.create ordinal pod' hm
    · cases mem_singleton.mp hm
      exact ⟨rfl,ho,hn⟩
  delete := by
    intro gone hm
    obtain hm | hm := mem_append.mp hm
    · exact h.delete gone hm
    · cases mem_singleton.mp hm

theorem Attempt.createReplica {w : Work} (h : Attempt i pod w.actions)
    (hnone : w.actions.countP Action.isCreate=0) (c : Call) {new : Pod}
    (ho : i<2^31 → getOrdinal new=i) (hn : isCreated pod=false ∨ isFailed pod) :
    Attempt i pod (createReplica c i new w).1.actions := by
  obtain heq | ⟨-,heq⟩ := createReplica_effect c i new w
  · rw [heq]
    exact h
  · rw [heq]
    exact h.create_pod hnone ho hn

section

variable (c : Call) (hmono : c.monotonic)
include hmono

theorem createReplica_monotonic (i : Nat) (pod : Pod) (w : Work) :
    ∃ err,(createReplica c i pod w).2=.done err := by
  have h:=createReplica_takes c i pod w
  rw [hmono,Bool.true_or] at h
  exact h.ends

theorem keepReplica_monotonic {pod : Pod} (hcreated : isCreated pod) (w : Work) :
    ((keepReplica c pod w).2=.go ∧ Settled c.now c.set pod) ∨ ∃ err,(keepReplica c pod w).2=.done err := by
  have h:=keepReplica_takes c pod w
  rw [hmono,Bool.true_and] at h
  cases htk : c.takesBudget pod with
  | true =>
    rw [htk] at h
    exact .inr h.ends
  | false =>
    obtain ⟨ht,hav⟩ := Bool.or_eq_false_iff.mp htk
    obtain herr | ⟨hgo,-⟩ := h
    · exact .inr ⟨true,herr⟩
    · rw [htk,ht,hav] at hgo
      exact .inl ⟨hgo,hcreated,ht,by rw [Bool.not_eq_false'] at hav; exact hav⟩

/- A turn goes past a settled pod and an empty slot, and ends the call with what it asks for. -/
theorem processReplica_monotonic {replicas : List (Option Pod)} {w : Work}
    (ho : ∀ pod,slot replicas i=some pod → i<2^31 → getOrdinal pod=i)
    (hreplicas : w.replicas=replicas) (hqt : Quiet w.actions) :
    After (fun w' => w'.replicas=replicas ∧ Quiet w'.actions ∧
        ∀ pod,slot replicas i=some pod → Settled c.now c.set pod)
      (fun w' flow => (∃ err,flow=.done err) ∧ ∃ pod,slot replicas i=some pod ∧ Attempt i pod w'.actions)
      (processReplica c i w) := by
  subst hreplicas
  refine processReplica_elim c ?_ ?_ ?_ ?_ ?_
  · intro hslot
    refine After.of_go rfl ⟨rfl,hqt,?_⟩
    intro pod hpod
    rw [hslot] at hpod
    cases hpod
  · intro pod hslot hf
    exact After.of_done rfl ⟨⟨true,rfl⟩,pod,hslot,(Attempt.delete_failed hqt c.api c.set i hf).1⟩
  · intro pod hslot hf
    obtain ⟨err,hd⟩ := createReplica_monotonic c hmono i (newReplica c i w.replicas) (recreated c i pod w)
    obtain ⟨ha,hn⟩ := Attempt.delete_failed hqt c.api c.set i hf
    exact After.of_done hd ⟨⟨err,rfl⟩,pod,hslot,ha.createReplica (w := recreated c i pod w) hn c
      (isNew_newReplica c i w.replicas).ordinal (.inr hf)⟩
  · intro pod hslot _ hcreated
    obtain ⟨err,hd⟩ := createReplica_monotonic c hmono i pod w
    exact After.of_done hd ⟨⟨err,rfl⟩,pod,hslot,(Attempt.of_quiet hqt i pod).createReplica
      hqt.countP c (ho pod hslot) (.inl hcreated)⟩
  · intro pod hslot _ hcreated
    obtain ⟨hk,hactions⟩ := keepReplica_effect c pod w
    have hqt' : Quiet (keepReplica c pod w).1.actions := by
      obtain h | h := hactions
      · rw [h]
        exact hqt
      · rw [h]
        exact hqt.concat rfl rfl
    obtain ⟨hgo,hsettled⟩ | ⟨err,hd⟩ := keepReplica_monotonic c hmono hcreated w
    · refine After.of_go hgo ⟨hk,hqt',?_⟩
      intro q hq
      rw [hslot] at hq
      cases hq
      exact hsettled
    · exact After.of_done hd ⟨⟨err,rfl⟩,pod,hslot,Attempt.of_quiet hqt' i pod⟩

end

theorem mem_of_lt_of_range {n a j : Nat} {before after : List Nat}
    (h : range n=before++a::after) (hlt : j<a) : j∈before := by
  obtain ⟨ha,hn⟩ := index_of_range h
  have hl : (before++a::after)[j]?=before[j]? := getElem?_append_left (by omega)
  have hg : before[j]?=some j := by
    rw [← hl,← h,getElem?_eq_getElem (by rw [length_range]; omega),getElem_range]
  exact mem_of_getElem? hg

section

variable (c : Call) (hmono : c.monotonic)
include hmono

theorem replicasLoop_monotonic {replicas : List (Option Pod)} {w : Work}
    (ho : ∀ i pod,slot replicas i=some pod → i<2^31 → getOrdinal pod=i)
    (hreplicas : w.replicas=replicas) (hqt : Quiet w.actions) :
    After (fun w' => w'.replicas=replicas ∧ Quiet w'.actions ∧
        ∀ i pod,slot replicas i=some pod → Settled c.now c.set pod)
      (fun w' flow => (∃ err,flow=.done err) ∧ ∃ i pod,slot replicas i=some pod ∧ Attempt i pod w'.actions ∧
          ∀ j < i,∀ q,slot replicas j=some q → Settled c.now c.set q)
      (runLoop (processReplica c) (range replicas.length) w) := by
  refine (runLoop_rule (fun done w' => w'.replicas=replicas ∧ Quiet w'.actions ∧
      ∀ i∈done,∀ pod,slot replicas i=some pod → Settled c.now c.set pod)
    (fun w' flow => (∃ err,flow=.done err) ∧ ∃ i pod,slot replicas i=some pod ∧ Attempt i pod w'.actions ∧
        ∀ j < i,∀ q,slot replicas j=some q → Settled c.now c.set q)
    ⟨hreplicas,hqt,fun i hi => absurd hi not_mem_nil⟩ ?_).mono ?_ (fun _ _ h => h)
  · intro before i after w' hran ⟨hr,hq,hsettled⟩
    refine (processReplica_monotonic c hmono (ho i) hr hq).mono ?_ ?_
    · intro w'' ⟨hr',hq',hh⟩
      refine ⟨hr',hq',?_⟩
      intro j hj pod hpod
      obtain hm | hm := mem_append.mp hj
      · exact hsettled j hm pod hpod
      · rw [mem_singleton.mp hm] at hpod
        exact hh pod hpod
    · intro w'' flow ⟨hd,pod,hslot,ha⟩
      exact ⟨hd,i,pod,hslot,ha,fun j hj q hq' =>
        hsettled j (mem_of_lt_of_range hran hj) q hq'⟩
  · intro w' ⟨hr,hq,hsettled⟩
    exact ⟨hr,hq,fun i pod hpod =>
      hsettled i (mem_range.mpr (lt_length_of_slot hpod)) pod hpod⟩

theorem processCondemned_monotonic (first : Option Pod) (pod : Pod) (w : Work) :
    ∃ err,(processCondemned c first pod w).2=.done err := by
  have hn : c.nextPod=.done false := if_pos hmono
  unfold processCondemned
  dsimp only
  rw [hn]
  split_ifs
  · exact ⟨_,rfl⟩
  · exact ⟨_,rfl⟩
  · split <;> exact ⟨_,rfl⟩

theorem condemnedLoop_monotonic (first : Option Pod) (pod : Pod) (pods : List Pod) (w : Work) :
    (∃ err,(runLoop (processCondemned c first) (pod::pods) w).2=.done err) ∧
      ((runLoop (processCondemned c first) (pod::pods) w).1.actions=w.actions ∨
        (runLoop (processCondemned c first) (pod::pods) w).1.actions =
          w.actions++(deletePod c.api c.set pod).1) := by
  obtain ⟨err,hd⟩ := processCondemned_monotonic c hmono first pod w
  have ha:=(processCondemned_effect c first pod w).2
  unfold runLoop
  rcases hr : processCondemned c first pod w with ⟨w',flow⟩
  rw [hr] at hd ha
  cases hd
  exact ⟨⟨err,rfl⟩,ha⟩

omit hmono in
theorem claimsLoop_quiet (pods : List Pod) {w : Work} (hqt : Quiet w.actions) :
    After (fun w' => w'.replicas=w.replicas ∧ Quiet w'.actions)
      (fun w' _ => w'.replicas=w.replicas ∧ Quiet w'.actions)
      (runLoop (matchClaims c) pods w) := by
  refine runLoop_keeps (fun w' : Work => w'.replicas=w.replicas ∧ Quiet w'.actions) ⟨rfl,hqt⟩ ?_
  intro pod _ w' ⟨hreplicas,hqt'⟩
  obtain ⟨hr,h | h⟩ := matchClaims_effect c pod w'
  · exact ⟨hr.trans hreplicas,by rw [h]; exact hqt'⟩
  · exact ⟨hr.trans hreplicas,by rw [h]; exact hqt'.concat rfl rfl⟩

end

section

variable (c : Call) {pods : List Pod}

theorem settledAt_of_slot {ordinal : Nat} (hval : isValidOrdinal c.set ordinal)
    (h : ∀ pod,slot (initialReplicas c pods) ordinal=some pod → Settled c.now c.set pod) :
    SettledAt c.now c.set pods ordinal := by
  cases hpod : podAt pods ordinal with
  | some pod => exact ⟨pod,hpod,h pod (slot_initialReplicas_listed c hval hpod)⟩
  | none =>
    obtain ⟨fresh,hslot,hn⟩ := slot_initialReplicas_new c hval hpod
    have hcreated:=(h fresh hslot).created
    rw [hn.notCreated] at hcreated
    cases hcreated

theorem isCondemned_of_valid {set : Sts} {ordinal : Nat} (ho : getOrdinal pod=ordinal)
    (hval : isValidOrdinal set ordinal) : isCondemned set pod=false := by
  obtain ⟨hlt,hr⟩ := (isValidOrdinal_iff set ordinal).mp hval
  simp [isCondemned,ho,hr,hlt]

theorem not_condemned_of_slot (hslot : slot (initialReplicas c pods) i=some pod)
    (hcreated : isCreated pod) : isCondemned c.set pod=false := by
  obtain hl | ⟨-,hn⟩ := slot_initialReplicas_cases c hslot
  · exact isCondemned_of_valid (podAt_ordinal hl) (valid_of_slot_initialReplicas c hslot)
  · rw [hn.notCreated] at hcreated
    cases hcreated

theorem ordinal_of_slot (hslot : slot (initialReplicas c pods) i=some pod) (hlt : i<2^31) : getOrdinal pod=i := by
  obtain hl | ⟨-,hn⟩ := slot_initialReplicas_cases c hslot
  · exact podAt_ordinal hl
  · exact hn.ordinal hlt

theorem mem_condemnedPods {set : Sts} : pod∈condemnedPods set pods ↔ pod∈pods ∧ isCondemned set pod := by
  unfold condemnedPods
  rw [mem_filter,Bool.and_eq_true]
  refine and_congr_right fun _ => and_iff_right_of_imp fun hcond => ?_
  simp only [isCondemned,Bool.or_eq_true,decide_eq_true_eq] at hcond
  obtain hge | hr := hcond
  · simp [isReplica,Int.not_lt.mpr hge]
  · simp [isReplica,hr]

theorem largest_condemned {rest : List Pod}
    (h : (c.api.sortCondemned (condemnedPods c.set pods)).reverse=pod::rest) :
    pod∈pods ∧ ∀ other∈pods,isCondemned c.set other → getOrdinal other≤getOrdinal pod := by
  have hsrt:=c.api.sorted (condemnedPods c.set pods)
  have hl : c.api.sortCondemned (condemnedPods c.set pods)=rest.reverse++[pod] := by
    rw [← reverse_reverse (c.api.sortCondemned (condemnedPods c.set pods)),h,reverse_cons]
  rw [hl] at hsrt
  have hpod : pod∈rest.reverse++[pod] := mem_append_right _ mem_cons_self
  refine ⟨(mem_condemnedPods.mp (hsrt.perm.mem_iff.mp hpod)).1,?_⟩
  intro other ho hcond
  have hm:=hsrt.perm.mem_iff.mpr (mem_condemnedPods.mpr ⟨ho,hcond⟩)
  obtain hbef | hlast := mem_append.mp hm
  · have hn:=(pairwise_append.mp hsrt.sorted).2.2 other hbef pod mem_cons_self
    have hle : ¬getOrdinal pod<getOrdinal other := of_decide_eq_false hn
    omega
  · rw [mem_singleton.mp hlast]

theorem InOrder.of_quiet {actions : List Action} (h : Quiet actions) (now : Int) (set : Sts)
    (pods : List Pod) : InOrder now set pods actions where
  atMostOneCreate := by rw [h.countP]; exact Nat.zero_le 1
  create := fun ordinal pod hm => absurd hm (not_create_of_countP h.countP ordinal pod)
  deleteCondemned := fun pod hm => absurd hm (h.not_delete pod)

theorem InOrder.of_attempt {actions : List Action}
    (hslot : slot (initialReplicas c pods) i=some pod) (h : Attempt i pod actions)
    (hbef : ∀ j < i,∀ q,slot (initialReplicas c pods) j=some q → Settled c.now c.set q) :
    InOrder c.now c.set pods actions where
  atMostOneCreate := h.atMostOneCreate
  create := by
    intro ordinal new hm
    obtain ⟨rfl,ho,hneed⟩ := h.create ordinal new hm
    refine ⟨valid_of_slot_initialReplicas c hslot,ho,?_,?_⟩
    · intro listed hl
      obtain hpod | ⟨hn,-⟩ := slot_initialReplicas_cases c hslot
      · rw [hl,some.injEq] at hpod
        rw [hpod]
        exact hneed
      · rw [hl] at hn
        cases hn
    · intro j hj hval
      have hsettled:=settledAt_of_slot c hval (hbef j hj)
      exact ⟨hsettled.not_missingOrFailed,hsettled⟩
  deleteCondemned := by
    intro gone hm hcond
    obtain ⟨rfl,hf⟩ := h.delete gone hm
    rw [isFailed,Bool.and_eq_true] at hf
    rw [not_condemned_of_slot c hslot hf.1] at hcond
    cases hcond

section

variable (hsettled : ∀ i pod,slot (initialReplicas c pods) i=some pod → Settled c.now c.set pod)
include hsettled

theorem InOrder.of_condemned {pod : Pod} {rest : List Pod} {actions : List Action} (hqt : Quiet actions)
    (hlast : (c.api.sortCondemned (condemnedPods c.set pods)).reverse=pod::rest) :
    InOrder c.now c.set pods (actions++(deletePod c.api c.set pod).1) where
  atMostOneCreate := by
    rw [hqt.countP_append (deletePod_touches c.api c.set pod)]
    exact Nat.zero_le 1
  create := fun ordinal new hm => absurd hm
    (not_create_of_countP (hqt.countP_append (deletePod_touches c.api c.set pod)) ordinal new)
  deleteCondemned := by
    intro gone hm _
    have hg : gone=pod := by
      obtain hm | hm := mem_append.mp hm
      · exact absurd hm (hqt.not_delete gone)
      · exact some.inj (deletePod_touched c.api c.set pod _ hm)
    obtain ⟨hm,hl⟩ := largest_condemned c hlast
    rw [hg]
    exact ⟨hm,fun ordinal hval => settledAt_of_slot c hval (hsettled ordinal),hl⟩

theorem InOrder.of_rolling {actions : List Action} (hqt : Quiet actions) : InOrder c.now c.set pods
      (actions++(rollingUpdateStatefulsetPods c pods (initialReplicas c pods)).actions) := by
  have hr : ∀ t∈(rollingUpdateStatefulsetPods c pods (initialReplicas c pods)).touched,
      ∃ pod,slot (initialReplicas c pods) t=some pod := by
    intro t ht
    obtain ⟨-,pod,htch⟩ := rollingUpdate_touched c pods _ t ht
    exact ⟨pod,htch.slot⟩
  have htouches : ∀ a∈(rollingUpdateStatefulsetPods c pods (initialReplicas c pods)).actions, a.touched≠none := by
    intro a ha
    obtain ⟨pod,-,state,rfl⟩ | ⟨t,ht,htch⟩ := rollingUpdate_actions c pods _ a ha
    · exact some_ne_none pod
    · obtain ⟨pod,hpod⟩ := hr t ht
      rw [htch,hpod]
      exact some_ne_none pod
  have hn:=hqt.countP_append htouches
  refine ⟨?_,?_,?_⟩
  · rw [hn]
    exact Nat.zero_le 1
  · intro ordinal new hm
    exact absurd hm (not_create_of_countP hn ordinal new)
  · intro gone hm hcond
    obtain hm | hm := mem_append.mp hm
    · exact absurd hm (hqt.not_delete gone)
    · obtain ⟨pod,-,state,heq⟩ | ⟨t,ht,htch⟩ := rollingUpdate_actions c pods _ _ hm
      · cases heq
      · have hslot : slot (initialReplicas c pods) t=some gone := htch.symm
        rw [not_condemned_of_slot c hslot (hsettled t gone hslot).created] at hcond
        cases hcond

end

end

section

variable (c : Call) (hmono : c.monotonic)
include hmono

theorem scalePods_inOrder (pods : List Pod) {w : Work}
    (hr : w.replicas=initialReplicas c pods) (hqt : Quiet w.actions) :
    After (fun w' => w'.replicas=initialReplicas c pods ∧ Quiet w'.actions ∧
        ∀ i pod,slot (initialReplicas c pods) i=some pod → Settled c.now c.set pod)
      (fun w' flow => (∃ err,flow=.done err) ∧ InOrder c.now c.set pods w'.actions)
      (scalePods c (c.api.sortCondemned (condemnedPods c.set pods)) w) := by
  unfold scalePods replicaLoop
  rw [hr]
  split_ifs with hdel
  · exact After.of_done rfl ⟨⟨false,rfl⟩,InOrder.of_quiet hqt _ _ _⟩
  · refine (replicasLoop_monotonic c hmono (fun i pod => ordinal_of_slot c) hr hqt).andThen ?_ ?_ ?_
    · intro w₁ ⟨⟨err,he⟩,_⟩
      cases he
    · intro w₁ err ⟨_,i,pod,hslot,ha,hbef⟩
      exact ⟨⟨err,rfl⟩,InOrder.of_attempt c hslot ha hbef⟩
    · intro w₁ ⟨hreplicas₁,hquiet₁,hsettled⟩
      refine (claimsLoop_quiet c _ hquiet₁).andThen ?_ ?_ ?_
      · exact fun _ h => h
      · intro w₂ err ⟨_,hquiet₂⟩
        exact ⟨⟨err,rfl⟩,InOrder.of_quiet hquiet₂ _ _ _⟩
      · intro w₂ ⟨hreplicas₂,hquiet₂⟩
        cases hl : (c.api.sortCondemned (condemnedPods c.set pods)).reverse with
        | nil => exact ⟨hreplicas₂.trans hreplicas₁,hquiet₂,hsettled⟩
        | cons pod rest =>
          obtain ⟨⟨err,hd⟩,h | h⟩ := condemnedLoop_monotonic c hmono _ pod rest w₂
          · refine After.of_done hd ⟨⟨err,rfl⟩,?_⟩
            rw [h]
            exact InOrder.of_quiet hquiet₂ _ _ _
          · refine After.of_done hd ⟨⟨err,rfl⟩,?_⟩
            rw [h]
            exact InOrder.of_condemned c hsettled hquiet₂ hl

theorem run_inOrder (collisionCount : Int) (labelSelector : String) (pods : List Pod) :
    InOrder c.now c.set pods (c.run collisionCount labelSelector pods).actions := by
  refine run_rule c (P := fun r => InOrder c.now c.set pods r.actions) (InOrder.of_quiet Quiet.nil _ _ _)
    (fun m => scalePods_inOrder c hmono pods rfl Quiet.nil) ?_ ?_ ?_
  · intro w ⟨hreplicas,hqt,hsettled⟩
    dsimp only [finishUpdate]
    split_ifs
    · exact InOrder.of_quiet hqt _ _ _
    · rw [hreplicas]
      exact InOrder.of_rolling c hsettled hqt
  · rintro w ⟨⟨err,he⟩,-⟩
    cases he
  · exact fun w err h => h.2

end

theorem updateStatefulSet_inOrder (env : Env) (api : Api) (now : Int) (set : Sts)
    (currentRevision updateRevision : Revision) (collisionCount : Int) (pods : List Pod)
    (revisions : List Revision) (hmono : allowsBurst set=false) :
    InOrder now set pods (updateStatefulSet env api now set currentRevision updateRevision
      collisionCount pods revisions).actions := by
  unfold updateStatefulSet
  split
  · next labelSelector currentTemplate updateTemplate _ _ _ =>
    let c : Call := ⟨env,api,now,set,currentRevision.name,updateRevision.name,currentTemplate,
      updateTemplate,revisions⟩
    have hcall : c.monotonic := by
      rw [Call.monotonic,hmono]
      rfl
    exact run_inOrder c hcall collisionCount labelSelector pods
  · exact InOrder.of_quiet Quiet.nil now set pods

def orderedWeb : Sts := plainSet 3 [1] .orderedReady none none

def webRevision (hash : String) : Revision := ⟨"web-" ++ hash,some plainTemplate⟩

def orderedPods : List Pod :=
  [plainPod "web-1" "web-a",plainPod "web-4" "web-a",plainPod "web-3" "web-a",
    plainPod "web-2" "web-a",plainPod "web-0" "web-a"]

def orderedActions (pods : List Pod) : List Action :=
  (updateStatefulSet plainEnv plainApi 0 orderedWeb (webRevision "a") (webRevision "a") 0 pods
    []).actions

/- With ordinal 1 reserved, `web-4` goes first. Without `web-2` that pod is created before. -/
theorem orderedPods_inOrder :
    (orderedActions orderedPods).map (fun a => a.touched.map (·.name))=[some "web-4"] ∧
      (orderedActions (orderedPods.filter (·.name ≠ "web-2"))).map Action.isCreate=[true] ∧
      InOrder 0 orderedWeb orderedPods (orderedActions orderedPods) :=
  ⟨by decide +kernel,by decide +kernel,
    updateStatefulSet_inOrder plainEnv plainApi 0 orderedWeb (webRevision "a") (webRevision "a") 0
      orderedPods [] rfl⟩

end Kruise.StatefulSet
