import Kruise.Lib.Keyed
import Kruise.StatefulSet.Budget

/-!
# The counters of the status

`status.currentReplicas` and `status.updatedReplicas` (`stateful_set_control.go:399-438, 491-558,
663-701`) compared with the pods that are left. A counter drifts where a branch moves it and
`deletePod` has not deleted the pod, or has deleted it and the branch does not move it.
-/

namespace Kruise.StatefulSet

open Lib.Counting Lib.Keyed Lib.Loop Lib.Slots List
open CloneSet (isPodHooked)

def isLive (pod : Pod) : Bool := isCreated pod&&!isTerminating pod

def hasRevision (revision : String) (pod : Pod) : Bool := getPodRevision pod=revision

def Action.deletedName : Action → Option String
  | .delete pod => some pod.name
  | _ => none

def Action.createdPod : Action → Option Pod
  | .create _ pod => some pod
  | _ => none

def deletedNames (actions : List Action) : List String := actions.filterMap Action.deletedName

def createdPods (actions : List Action) : List Pod := actions.filterMap Action.createdPod

/- The pods of a revision that are created and not terminating after the creations and deletions. -/
def liveAfter (revision : String) (pods : List Pod) (actions : List Action) : Nat :=
  pods.countP (fun pod => decide (pod.name∉deletedNames actions) &&
      (isLive pod&&hasRevision revision pod)) +
    (createdPods actions).countP (hasRevision revision)

theorem mem_deletedNames {name : String} {actions : List Action} :
    name∈deletedNames actions ↔ ∃ pod,.delete pod∈actions ∧ pod.name=name := by
  unfold deletedNames
  rw [mem_filterMap]
  constructor
  · rintro ⟨a,ha,hn⟩
    cases a with
    | delete pod => exact ⟨pod,ha,Option.some.inj hn⟩
    | create ordinal pod => cases hn
    | lifecycle pod state => cases hn
    | update pod => cases hn
    | updateClaims pod => cases hn
    | inPlaceUpdate pod => cases hn
  · rintro ⟨pod,hpod,rfl⟩
    exact ⟨_,hpod,rfl⟩

theorem isCondemned_congr (set : Sts) {p q : Pod} (h : p.name=q.name) : isCondemned set p=isCondemned set q := by
  rw [isCondemned,isCondemned,getOrdinal_congr h]

theorem hasRevision_toNat (revision : String) (pod : Pod) :
    ((hasRevision revision pod).toNat : Int)=ofRevision revision pod := by
  unfold hasRevision ofRevision
  by_cases h : getPodRevision pod=revision <;> simp [h]

section

variable (revision : String) (pods : List Pod) (actions : List Action)

theorem liveAfter_nil : liveAfter revision pods []=pods.countP fun pod => isLive pod&&hasRevision revision pod := by
  simp [liveAfter,deletedNames,createdPods]

theorem liveAfter_quiet {more : List Action} (h : ∀ a∈more,a.deletedName=none ∧ a.createdPod=none) :
    liveAfter revision pods (actions++more)=liveAfter revision pods actions := by
  have hd : deletedNames more=[] :=
    filterMap_eq_nil_iff.mpr fun a ha => (h a ha).1
  have hcreated : createdPods more=[] :=
    filterMap_eq_nil_iff.mpr fun a ha => (h a ha).2
  unfold liveAfter
  rw [deletedNames,createdPods,filterMap_append,filterMap_append,← deletedNames,
    ← deletedNames,← createdPods,← createdPods,hd,hcreated,append_nil,
    append_nil]

theorem liveAfter_create (ordinal : Nat) (pod : Pod) :
    (liveAfter revision pods (actions++[.create ordinal pod]) : Int) =
      liveAfter revision pods actions+ofRevision revision pod := by
  have hd : deletedNames (actions++[.create ordinal pod])=deletedNames actions := by
    rw [deletedNames,filterMap_append]
    exact append_nil _
  have hcreated : createdPods (actions++[.create ordinal pod]) = createdPods actions++[pod] := by
    rw [createdPods,filterMap_append]
    rfl
  unfold liveAfter
  rw [hd,hcreated,countP_append,countP_singleton,← hasRevision_toNat]
  cases hasRevision revision pod with
  | true =>
    simp only [if_true,Bool.toNat_true]
    omega
  | false => simp

theorem liveAfter_delete {pod : Pod} (hnodup : (pods.map (·.name)).Nodup) (hpod : pod∈pods)
    (hnew : pod.name∉deletedNames actions) :
    (liveAfter revision pods (actions++[.delete pod]) : Int) =
      liveAfter revision pods actions-if isLive pod then ofRevision revision pod else 0 := by
  have hd : deletedNames (actions++[.delete pod])=deletedNames actions++[pod.name] := by
    rw [deletedNames,filterMap_append]
    rfl
  have hcreated : createdPods (actions++[.delete pod])=createdPods actions := by
    rw [createdPods,filterMap_append]
    exact append_nil _
  have hw:=countP_without_key hnodup hpod fun q =>
    decide (q.name∉deletedNames actions)&&(isLive q&&hasRevision revision q)
  have hcnt : pods.countP (fun q => decide (q.name∉deletedNames actions++[pod.name]) &&
      (isLive q&&hasRevision revision q))=pods.countP fun q => !decide (q.name=pod.name) &&
          (decide (q.name∉deletedNames actions)&&(isLive q&&hasRevision revision q)) := by
    apply countP_congr
    simp only [mem_append,mem_singleton,not_or,Bool.and_eq_true,decide_eq_true_eq,
      Bool.not_eq_true',decide_eq_false_iff_not]
    tauto
  have hself : (decide (pod.name∉deletedNames actions) && (isLive pod&&hasRevision revision pod)).toNat =
        (if isLive pod then ofRevision revision pod else 0 : Int) := by
    rw [← hasRevision_toNat]
    cases isLive pod <;> simp [hnew]
  unfold liveAfter
  rw [hd,hcreated,hcnt]
  omega

end

theorem setCondition_counters (w : Work) (condition : Condition) :
    (w.setCondition condition).status.currentReplicas=w.status.currentReplicas ∧
      (w.setCondition condition).status.updatedReplicas=w.status.updatedReplicas := by
  unfold Work.setCondition
  split
  · split_ifs <;> exact ⟨rfl,rfl⟩
  · exact ⟨rfl,rfl⟩

structure Counter (c : Call) where
  revision : String
  get : Status → Int
  initial : ∀ collisionCount labelSelector,get (initialStatus c collisionCount labelSelector)=0
  countPod : ∀ status pod,get (countPod c status pod) =
    get status+if isLive pod then ofRevision revision pod else 0
  count : ∀ w sign pod,get (Work.count c w sign pod).status =
    get w.status+sign*ofRevision revision pod
  countReplica : ∀ w n,get (Work.countReplica w n).status=get w.status
  setCondition : ∀ w condition,get (Work.setCondition w condition).status=get w.status

def currentCounter (c : Call) : Counter c where
  revision := c.currentRevision
  get := fun status => status.currentReplicas
  initial := fun _ _ => rfl
  countPod := fun _ _ => rfl
  count := fun _ _ _ => rfl
  countReplica := fun _ _ => rfl
  setCondition := fun w condition => (setCondition_counters w condition).1

def updatedCounter (c : Call) : Counter c where
  revision := c.updateRevision
  get := fun status => status.updatedReplicas
  initial := fun _ _ => rfl
  countPod := fun _ _ => rfl
  count := fun _ _ _ => rfl
  countReplica := fun _ _ => rfl
  setCondition := fun w condition => (setCondition_counters w condition).2

section

variable (c : Call) (revision : String)

def Call.isHeld (pod : Pod) : Bool :=
  isPodHooked (c.set.spec.lifecycle.bind (·.preDelete)) pod.toPod

/- A failed pod of the revision that is counted out and recreated, although it is not deleted or did
not count. -/
def Call.recreatesKept (replicas : List (Option Pod)) (i : Nat) : Bool :=
  (slot replicas i).any fun pod =>
    isFailed pod&&(c.isHeld pod||isTerminating pod)&&hasRevision revision pod

def Call.waitsFor (first : Option Pod) (pod : Pod) : Bool :=
  !isRunningAndAvailable c.now pod c.minReadySeconds&&c.monotonic &&
    !first.any (·.name=pod.name)

/- A condemned pod of the revision that waits for its hook and is counted out all the same. -/
def Call.passesHeld (first : Option Pod) (pod : Pod) : Bool :=
  !(isTerminating pod||c.waitsFor first pod)&&c.isHeld pod &&
    decide (pod.lifecycleState=.preparingDelete)&&hasRevision revision pod

/- A condemned pod of the revision that is deleted: the call ends before it is counted out. -/
def Call.deletesCounted (first : Option Pod) (pod : Pod) : Bool :=
  !(isTerminating pod||c.waitsFor first pod)&&!c.isHeld pod&&isCreated pod &&
    hasRevision revision pod

end

/- The loop over the condemned pods goes past those that are terminating or wait for their hook. -/
def Call.condemnedFlow (c : Call) (pod : Pod) : Flow Bool :=
  if !c.monotonic&&(isTerminating pod||c.isHeld pod&&decide (pod.lifecycleState=.preparingDelete)) then .go
  else .done false

section

variable {c : Call} (k : Counter c) (pods : List Pod)

def Counter.ahead (w : Work) : Int := k.get w.status-liveAfter k.revision pods w.actions

variable {pod : Pod} {w : Work}

theorem Counter.ahead_quiet {w' : Work} {more : List Action}
    (hsts : k.get w'.status=k.get w.status) (ha : w'.actions=w.actions++more)
    (h : ∀ a∈more,a.deletedName=none ∧ a.createdPod=none) : k.ahead pods w'=k.ahead pods w := by
  unfold Counter.ahead
  rw [hsts,ha,liveAfter_quiet _ _ _ h]

theorem enforceInvariants_get (pod : Pod) (w : Work) :
    k.get (enforceInvariants c pod w).1.status=k.get w.status := by
  unfold enforceInvariants
  dsimp only
  split_ifs
  · rfl
  · split
    · exact k.setCondition _ _
    · rfl

theorem Work.decreaseAndCheck_status (w : Work) (condition : Bool) :
    (w.decreaseAndCheck condition).1.status=w.status := by
  unfold Work.decreaseAndCheck
  split <;> rfl

theorem keepReplica_get (pod : Pod) (w : Work) : k.get (keepReplica c pod w).1.status=k.get w.status := by
  unfold keepReplica
  dsimp only
  split_ifs
  · rfl
  · rw [Work.decreaseAndCheck_status]
  · rw [Work.decreaseAndCheck_status]
  · rw [Work.decreaseAndCheck_status]
  · rw [Work.decreaseAndCheck_status,Work.decreaseAndCheck_status]
  · rw [enforceInvariants_get,Work.decreaseAndCheck_status,Work.decreaseAndCheck_status]

theorem keepReplica_ahead (pod : Pod) (w : Work) : k.ahead pods (keepReplica c pod w).1=k.ahead pods w := by
  obtain ⟨-,hactions | hactions⟩ := keepReplica_effect c pod w
  · have hsame : (keepReplica c pod w).1.actions=w.actions++[] := by
      rw [hactions,append_nil]
    exact k.ahead_quiet pods (keepReplica_get k pod w) hsame (by simp)
  · refine k.ahead_quiet pods (keepReplica_get k pod w) hactions ?_
    intro a ha
    rw [mem_singleton.mp ha]
    exact ⟨rfl,rfl⟩

theorem requestCreation_ahead (i : Nat) (pod : Pod) (w : Work) (he : (requestCreation c i pod w).2≠.done true) :
    k.ahead pods (requestCreation c i pod w).1=k.ahead pods w := by
  have hsts : k.get (requestCreation c i pod w).1.status =
      k.get w.status+1*ofRevision k.revision (setNormal pod) := by
    unfold requestCreation at he ⊢
    dsimp only at he ⊢
    split at he
    · exact absurd rfl he
    · split_ifs
      · rw [k.count,k.countReplica]
        rfl
      · rw [Work.decreaseAndCheck_status,k.count,k.countReplica]
        rfl
      · rw [Work.decreaseAndCheck_status,k.count,k.countReplica]
        rfl
  unfold Counter.ahead
  rw [hsts,(requestCreation_effect c i pod w).2,liveAfter_create]
  omega

theorem createReplica_ahead (i : Nat) (pod : Pod) (w : Work) (he : (createReplica c i pod w).2≠.done true) :
    k.ahead pods (createReplica c i pod w).1=k.ahead pods w := by
  have heq:=createReplica_eq c he
  rw [heq] at he ⊢
  split_ifs at he ⊢
  · rfl
  · exact requestCreation_ahead k pods i pod w he

theorem deletePod_modified {modified : Bool} (h : (deletePod c.api c.set pod).2=some modified) :
    modified=false ↔ c.isHeld pod ∧ pod.lifecycleState=.preparingDelete := by
  unfold deletePod at h
  dsimp only at h
  cases hh : c.isHeld pod with
  | false =>
    rw [Call.isHeld] at hh
    rw [hh] at h
    simp only [Bool.false_eq_true,if_false] at h
    split_ifs at h
    cases h
    simp
  | true =>
    rw [Call.isHeld] at hh
    rw [hh,if_pos rfl,CloneSet.updatePodLifecycle] at h
    split_ifs at h with hr hst hpat
    · cases h
      simp [hst]
    · cases h
      simp [hst]

theorem deletePod_unmodified (h : (deletePod c.api c.set pod).2=some false) : (deletePod c.api c.set pod).1=[] := by
  have hh:=((deletePod_modified h).mp rfl).1
  unfold deletePod at h ⊢
  dsimp only at h ⊢
  rw [Call.isHeld] at hh
  rw [hh,if_pos rfl] at h ⊢
  split at h
  · cases h
  · cases h
  · rfl

theorem processCondemned_go {first : Option Pod} (h : (processCondemned c first pod w).2=.go) :
    (processCondemned c first pod w).1.actions=w.actions := by
  unfold processCondemned at h ⊢
  dsimp only at h ⊢
  split_ifs at h ⊢
  · rfl
  · split at h
    · cases h
    · cases h
    · next hd =>
      dsimp only [Work.count,Work.request]
      rw [deletePod_unmodified hd,append_nil]

variable {pods} (hnodup : (pods.map (·.name)).Nodup)
include hnodup

theorem deletePod_ahead (hpod : pod∈pods) (hnew : ∀ gone,.delete gone∈w.actions → gone.name≠pod.name) :
    k.ahead pods (w.request (deletePod c.api c.set pod).1)=k.ahead pods w +
      if c.isHeld pod then 0 else if isLive pod then ofRevision k.revision pod else 0 := by
  cases hh : c.isHeld pod with
  | true =>
    rw [if_pos rfl,add_zero]
    refine k.ahead_quiet pods rfl rfl ?_
    unfold deletePod
    dsimp only
    rw [Call.isHeld] at hh
    rw [hh,if_pos rfl]
    intro a ha
    split at ha
    · cases ha
    · rw [mem_singleton.mp ha]
      exact ⟨rfl,rfl⟩
    · cases ha
  | false =>
    have hn : pod.name∉deletedNames w.actions := by
      intro hm
      obtain ⟨gone,hg,heq⟩ := mem_deletedNames.mp hm
      exact hnew gone hg heq
    have hd:=liveAfter_delete k.revision pods w.actions hnodup hpod hn
    have hactions:=deletePod_unhooked c.api c.set hh
    rw [hactions]
    unfold Counter.ahead
    dsimp only [Work.request]
    simp only [Bool.false_eq_true,if_false]
    omega

theorem recreated_ahead (hpod : pod∈pods) (hcreated : isCreated pod)
    (hn : ∀ gone,.delete gone∈w.actions → gone.name≠pod.name) (i : Nat) :
    k.ahead pods (recreated c i pod w) = k.ahead pods w -
      ((c.isHeld pod||isTerminating pod)&&hasRevision k.revision pod).toNat := by
  have hd:=deletePod_ahead k hnodup hpod hn
  have hcntd : k.ahead pods (recreated c i pod w) =
      k.ahead pods (w.request (deletePod c.api c.set pod).1)-ofRevision k.revision pod := by
    unfold Counter.ahead recreated
    dsimp only [Work.setReplica]
    rw [k.countReplica,k.count]
    dsimp only [Work.countReplica,Work.count]
    omega
  rw [hcntd,hd,isLive,hcreated,← hasRevision_toNat]
  cases c.isHeld pod <;> cases isTerminating pod <;> simp

theorem processReplica_ahead {i : Nat}
    (hslot : ∀ pod,slot w.replicas i=some pod → isCreated pod → pod∈pods ∧ getOrdinal pod=i)
    (hg : ∀ gone,.delete gone∈w.actions → getOrdinal gone < i) (he : (processReplica c i w).2≠.done true) :
    k.ahead pods (processReplica c i w).1 =
      k.ahead pods w-(c.recreatesKept k.revision w.replicas i).toNat := by
  revert he
  unfold Call.recreatesKept
  refine processReplica_elim c ?_ ?_ ?_ ?_ ?_
  · intro hnone _
    simp [hnone]
  · intro pod _ _ he
    exact absurd rfl he
  · intro pod hpod hf he
    have hcreated:=(Bool.and_eq_true_iff.mp hf).1
    obtain ⟨hl,ho⟩ := hslot pod hpod hcreated
    rw [createReplica_ahead k pods i _ _ he,hpod,Option.any_some,hf,Bool.true_and]
    refine recreated_ahead k hnodup hl hcreated ?_ i
    intro gone hm hn
    have hlt:=hg gone hm
    rw [getOrdinal_congr hn,ho] at hlt
    omega
  · intro pod hpod hf _ he
    simp [createReplica_ahead k pods i pod w he,hpod,hf]
  · intro pod hpod hf _ _
    simp [keepReplica_ahead k pods pod w,hpod,hf]

theorem processCondemned_turn (first : Option Pod) (hpod : pod∈pods)
    (hg : ∀ gone,.delete gone∈w.actions → gone.name≠pod.name)
    (he : (processCondemned c first pod w).2≠.done true) :
    (processCondemned c first pod w).2=c.condemnedFlow pod ∧
      k.ahead pods (processCondemned c first pod w).1=k.ahead pods w +
        ((c.deletesCounted k.revision first pod).toNat-(c.passesHeld k.revision first pod).toNat) := by
  have hnext : c.nextPod=if !c.monotonic then .go else .done false := by
    unfold Call.nextPod
    cases c.monotonic <;> rfl
  unfold processCondemned Call.condemnedFlow Call.deletesCounted Call.passesHeld at *
  cases ht : isTerminating pod with
  | true => simp [hnext]
  | false =>
    rw [ht] at he
    simp only [Bool.false_eq_true,if_false,Bool.false_or] at he ⊢
    cases hwt : c.waitsFor first pod with
    | true =>
      have hm : c.monotonic := by
        simp only [Call.waitsFor,Bool.and_eq_true] at hwt
        exact hwt.1.2
      rw [Call.waitsFor] at hwt
      rw [if_pos hwt]
      simp [hm]
    | false =>
      rw [Call.waitsFor] at hwt
      rw [hwt] at he ⊢
      simp only [Bool.false_eq_true,if_false] at he ⊢
      cases hd : (deletePod c.api c.set pod).2 with
      | none =>
        rw [hd] at he
        exact absurd rfl he
      | some modified =>
        have hah:=deletePod_ahead k hnodup hpod hg
        have hm:=deletePod_modified hd
        rw [← hasRevision_toNat] at hah
        cases modified with
        | true =>
          have hnot : (c.isHeld pod&&decide (pod.lifecycleState=.preparingDelete))=false := by
            simpa using hm
          rw [hah,isLive,ht,Bool.not_false,Bool.true_and,Bool.true_and,hnot]
          refine ⟨by simp,?_⟩
          cases c.isHeld pod <;> cases isCreated pod <;> simp
        | false =>
          obtain ⟨hh,hst⟩ := hm.mp rfl
          rw [hh,if_pos rfl,add_zero] at hah
          refine ⟨by simp [hnext,hh,hst],?_⟩
          have hcnt:=k.count (w.request (deletePod c.api c.set pod).1) (-1) pod
          rw [← hasRevision_toNat] at hcnt
          unfold Counter.ahead at hah ⊢
          rw [hcnt]
          dsimp only [Work.count,Work.request] at hah ⊢
          simp only [hh,hst,Bool.not_true,Bool.not_false,Bool.false_and,Bool.true_and,Bool.and_true,Bool.and_false,
            decide_true,Bool.toNat_false]
          omega

end

section

variable (c : Call) (revision : String) (replicas : List (Option Pod)) (scaleMaxUnavailable : Option Int)
  (condemned : List Pod)

def Call.reachedReplicas : List Nat :=
  if c.set.objectMeta.deleting then [] else c.reached replicas scaleMaxUnavailable

/- No condemned pod is reached if the call ends in the loop over the replicas. -/
def Call.reachedCondemned : List Pod :=
  if c.set.objectMeta.deleting||(c.reachedReplicas replicas scaleMaxUnavailable).any fun i =>
      (c.replicaFlow replicas i scaleMaxUnavailable).isDone then []
  else upTo c.condemnedFlow condemned.reverse

def Call.countedOut : Nat :=
  (c.reachedReplicas replicas scaleMaxUnavailable).countP (c.recreatesKept revision replicas) +
    (c.reachedCondemned replicas scaleMaxUnavailable condemned).countP
      (c.passesHeld revision (firstUnhealthyPod (replicas.filterMap id++condemned)))

def Call.keptCounted : Nat :=
  (c.reachedCondemned replicas scaleMaxUnavailable condemned).countP
    (c.deletesCounted revision (firstUnhealthyPod (replicas.filterMap id++condemned)))

/- For each pod that is counted out too many there is one too few. -/
def Call.Balanced : Prop :=
  c.countedOut revision replicas scaleMaxUnavailable condemned =
    c.keptCounted revision replicas scaleMaxUnavailable condemned
  deriving Decidable

variable {c replicas scaleMaxUnavailable condemned} {w : Work} (k : Counter c) {pods : List Pod}
  (hnodup : (pods.map (·.name)).Nodup)
include hnodup

theorem replicaLoop_ahead (status : Status) (hpos : ∀ n∈scaleMaxUnavailable,0<n)
    (he : (replicaLoop c (initialWork c pods status scaleMaxUnavailable)).2≠.done true) :
    k.ahead pods (replicaLoop c (initialWork c pods status scaleMaxUnavailable)).1 =
        k.ahead pods (initialWork c pods status scaleMaxUnavailable) -
          (c.reached (initialReplicas c pods) scaleMaxUnavailable).countP
            (c.recreatesKept k.revision (initialReplicas c pods)) ∧
      (replicaLoop c (initialWork c pods status scaleMaxUnavailable)).2.isDone =
        (c.reached (initialReplicas c pods) scaleMaxUnavailable).any fun i =>
          (c.replicaFlow (initialReplicas c pods) i scaleMaxUnavailable).isDone := by
  refine replicaLoop_upTo (fun dealt w => k.ahead pods w=k.ahead pods _ -
    dealt.countP (c.recreatesKept k.revision (initialReplicas c pods))) hpos (by simp) ?_ he
  intro dealt i w hturn hR hne
  have hsame:=hturn.slot_eq
  rw [processReplica_ahead k hnodup ?_ hturn.gone hne,hR,countP_append,countP_singleton,Call.recreatesKept,
    Call.recreatesKept,hsame]
  · cases (slot (initialReplicas c pods) i).any _ with
    | false => simp
    | true =>
      simp
      omega
  · intro pod hpod
    rw [hsame] at hpod
    exact listed_of_slot c hpod

theorem condemnedLoop_ahead (first : Option Pod) {condemned : List Pod}
    (hm : ∀ pod∈condemned,pod∈pods ∧ isCondemned c.set pod)
    (hspr : ∀ gone,.delete gone∈w.actions → isCondemned c.set gone=false)
    (he : (runLoop (processCondemned c first) condemned w).2≠.done true) :
    k.ahead pods (runLoop (processCondemned c first) condemned w).1=k.ahead pods w +
      ((upTo c.condemnedFlow condemned).countP (c.deletesCounted k.revision first) -
        (upTo c.condemnedFlow condemned).countP (c.passesHeld k.revision first)) := by
  refine (runLoop_upTo (fun _ w' => ∀ gone,.delete gone∈w'.actions → isCondemned c.set gone=false)
    (fun dealt w' => k.ahead pods w'=k.ahead pods w +
      (dealt.countP (c.deletesCounted k.revision first)-dealt.countP (c.passesHeld k.revision first)))
    _ hspr (by simp) ?_ he).1
  intro before pod after w' hl hg hR hne
  obtain ⟨hpod,hcond⟩ := hm pod (by rw [hl]; simp)
  have hnew : ∀ gone,.delete gone∈w'.actions → gone.name≠pod.name := by
    intro gone hd hn
    have hspare:=hg gone hd
    rw [isCondemned_congr c.set hn,hcond] at hspare
    cases hspare
  obtain ⟨hflow,hah⟩ := processCondemned_turn k hnodup first hpod hnew hne
  refine ⟨hflow,?_,fun hgo => ?_⟩
  · rw [hah,hR,countP_append,countP_append,countP_singleton,countP_singleton]
    cases c.deletesCounted k.revision first pod <;> cases c.passesHeld k.revision first pod <;> simp <;> omega
  rw [processCondemned_go hgo]
  exact hg

omit hnodup in
theorem matchClaims_ahead (pod : Pod) (w : Work) : k.ahead pods (matchClaims c pod w).1=k.ahead pods w := by
  unfold matchClaims
  split
  · rfl
  · rfl
  · refine k.ahead_quiet pods rfl rfl ?_
    intro a ha
    rw [mem_singleton.mp ha]
    exact ⟨rfl,rfl⟩

theorem condemned_ahead (first : Option Pod) (hspr : SparesCondemned c.set w)
    (hm : ∀ pod∈condemned,pod∈pods ∧ isCondemned c.set pod)
    (he : (andThen (runLoop (matchClaims c) (claimedPods c condemned) w) fun w =>
      runLoop (processCondemned c first) condemned.reverse w).2≠.done true) :
    k.ahead pods (andThen (runLoop (matchClaims c) (claimedPods c condemned) w) fun w =>
        runLoop (processCondemned c first) condemned.reverse w).1 =
      k.ahead pods w+((upTo c.condemnedFlow condemned.reverse).countP (c.deletesCounted k.revision first) -
        (upTo c.condemnedFlow condemned.reverse).countP (c.passesHeld k.revision first)) := by
  have hcl : After (fun w' => SparesCondemned c.set w' ∧ k.ahead pods w'=k.ahead pods w)
      (fun w' flow => (SparesCondemned c.set w' ∧ k.ahead pods w'=k.ahead pods w) ∧ flow≠.done false)
      (runLoop (matchClaims c) (claimedPods c condemned) w) :=
    runLoop_avoids _ _ ⟨hspr,rfl⟩ fun pod _ w' h => ⟨⟨h.1.matchClaims pod,
      (matchClaims_ahead k pod w').trans h.2⟩,matchClaims_ne_done_false c pod w'⟩
  have hl : ∀ w',SparesCondemned c.set w' ∧ k.ahead pods w'=k.ahead pods w →
      (runLoop (processCondemned c first) condemned.reverse w').2≠.done true →
      k.ahead pods (runLoop (processCondemned c first) condemned.reverse w').1 =
        k.ahead pods w+((upTo c.condemnedFlow condemned.reverse).countP (c.deletesCounted k.revision first) -
          (upTo c.condemnedFlow condemned.reverse).countP (c.passesHeld k.revision first)) := by
    intro w' ⟨hspr',hsame⟩ hne
    rw [← hsame]
    exact condemnedLoop_ahead k hnodup first (fun pod hpod => hm pod (mem_reverse.mp hpod)) hspr'.actions hne
  rcases hr : runLoop (matchClaims c) (claimedPods c condemned) w with ⟨w',_ | _ | err⟩ <;>
    rw [hr] at hcl he
  · exact hl w' hcl he
  · exact hl w' hcl.1 he
  · cases err with
    | false => exact absurd rfl hcl.2
    | true => exact absurd rfl he

end

section

variable {c : Call} (k : Counter c) (pods : List Pod)

theorem get_foldl_countPod (status : Status) : k.get (pods.foldl (countPod c) status) =
      k.get status+pods.countP fun pod => isLive pod&&hasRevision k.revision pod := by
  induction pods generalizing status with
  | nil => simp
  | cons pod pods ih =>
    rw [foldl_cons,ih,k.countPod,countP_cons,← hasRevision_toNat]
    cases isLive pod with
    | false => simp
    | true =>
      cases hasRevision k.revision pod with
      | false => simp
      | true =>
        simp
        omega

theorem ahead_initialWork (collisionCount : Int) (labelSelector : String) (scaleMaxUnavailable : Option Int) :
    k.ahead pods (initialWork c pods (initialStatus c collisionCount labelSelector) scaleMaxUnavailable)=0 := by
  unfold Counter.ahead initialWork
  rw [get_foldl_countPod,k.initial,liveAfter_nil]
  omega

variable {pods}

theorem scaleWork_ahead (hnodup : (pods.map (·.name)).Nodup) (collisionCount : Int)
    (labelSelector : String) {scaleMaxUnavailable : Option Int}
    (hmax : scaleMaxUnavailableOf c=some scaleMaxUnavailable)
    (he : (scaleWork c pods (initialStatus c collisionCount labelSelector) scaleMaxUnavailable).2≠.done true) :
    k.ahead pods (scaleWork c pods (initialStatus c collisionCount labelSelector) scaleMaxUnavailable).1 =
      c.keptCounted k.revision (initialReplicas c pods) scaleMaxUnavailable
          (c.api.sortCondemned (condemnedPods c.set pods)) -
        c.countedOut k.revision (initialReplicas c pods) scaleMaxUnavailable
          (c.api.sortCondemned (condemnedPods c.set pods)) := by
  have hsrt:=c.api.sorted (condemnedPods c.set pods)
  have hpos : ∀ n∈scaleMaxUnavailable,0<n := by
    intro n hn
    rw [Option.mem_def.mp hn] at hmax
    exact scaleMaxUnavailable_pos c hmax
  have hm : ∀ pod∈c.api.sortCondemned (condemnedPods c.set pods),pod∈pods ∧ isCondemned c.set pod :=
    fun pod hpod => mem_condemnedPods.mp (hsrt.perm.mem_iff.mp hpod)
  have hinit:=ahead_initialWork k pods collisionCount labelSelector scaleMaxUnavailable
  unfold scaleWork scalePods Call.keptCounted Call.countedOut Call.reachedCondemned Call.reachedReplicas at *
  have hreplicas : (initialWork c pods (initialStatus c collisionCount labelSelector) scaleMaxUnavailable).replicas =
    initialReplicas c pods := rfl
  rw [hreplicas] at he ⊢
  cases hd : c.set.objectMeta.deleting with
  | true => simp [hinit]
  | false =>
    rw [hd] at he
    simp only [Bool.false_eq_true,if_false,Bool.false_or] at he ⊢
    have hf:=replicaLoop_ahead k hnodup (initialStatus c collisionCount labelSelector) hpos
    have hspr : SparesCondemned c.set (replicaLoop c (initialWork c pods _ scaleMaxUnavailable)).1 :=
      After.always.mp (runLoop_keeps (SparesCondemned c.set) (sparesCondemned_initialWork c pods
        (initialStatus c collisionCount labelSelector) scaleMaxUnavailable) fun i _ _ h => h.processReplica i)
    rw [hinit] at hf
    rcases hl : replicaLoop c (initialWork c pods _ scaleMaxUnavailable) with ⟨w',flow⟩
    rw [hl] at hf hspr he
    cases flow with
    | go | leave =>
      obtain ⟨hsum,hdone⟩ := hf (by simp)
      have hcond:=condemned_ahead k hnodup _ hspr hm he
      rw [← hdone]
      simp only [Flow.isDone,Bool.false_eq_true,if_false]
      dsimp only [andThen] at hcond hsum ⊢
      omega
    | done err =>
      obtain ⟨hsum,hdone⟩ := hf he
      rw [← hdone]
      simp only [andThen,Flow.isDone,if_true,countP_nil] at hsum ⊢
      omega

end

def Call.EndsBeforeUpdate (c : Call) (collisionCount : Int) (labelSelector : String)
    (scaleMaxUnavailable : Option Int) (pods : List Pod) : Prop :=
  c.set.spec.updateStrategy.type=.onDelete ∨
    ∃ err,(scaleWork c pods (initialStatus c collisionCount labelSelector)
      scaleMaxUnavailable).2=.done err

theorem run_of_endsBeforeUpdate {c : Call} {collisionCount : Int} {labelSelector : String}
    {scaleMaxUnavailable : Option Int} {pods : List Pod} (hm : scaleMaxUnavailableOf c=some scaleMaxUnavailable)
    (he : (c.run collisionCount labelSelector pods).err=false)
    (hbef : c.EndsBeforeUpdate collisionCount labelSelector scaleMaxUnavailable pods) :
    ∃ w flow,scaleWork c pods (initialStatus c collisionCount labelSelector)
        scaleMaxUnavailable=(w,flow) ∧ flow≠.done true ∧
      c.run collisionCount labelSelector pods=⟨w.status,false,w.actions⟩ := by
  unfold Call.run Call.EndsBeforeUpdate at *
  rw [hm] at he ⊢
  dsimp only at he ⊢
  generalize scaleWork c pods (initialStatus c collisionCount labelSelector) scaleMaxUnavailable = r at he hbef ⊢
  rcases r with ⟨w,_ | _ | err⟩
  · obtain ht | ⟨err,hd⟩ := hbef
    · exact ⟨w,.go,rfl,by simp,by simp [finishUpdate,ht]⟩
    · cases hd
  · obtain ht | ⟨err,hd⟩ := hbef
    · exact ⟨w,.leave,rfl,by simp,by simp [finishUpdate,ht]⟩
    · cases hd
  · cases he
    exact ⟨w,.done false,rfl,by simp,rfl⟩

/-- After a call that returns without error before the rolling update, both counters are the numbers
of pods left exactly if, among the pods reached, those counted out too many and too few balance for
both revisions. -/
theorem counters_exact_iff (c : Call) (collisionCount : Int) (labelSelector : String)
    (scaleMaxUnavailable : Option Int) (pods : List Pod) (hnodup : (pods.map (·.name)).Nodup)
    (hmax : scaleMaxUnavailableOf c=some scaleMaxUnavailable)
    (herr : (c.run collisionCount labelSelector pods).err=false)
    (hbefore : c.EndsBeforeUpdate collisionCount labelSelector scaleMaxUnavailable pods) :
    ((c.run collisionCount labelSelector pods).status.currentReplicas =
          liveAfter c.currentRevision pods (c.run collisionCount labelSelector pods).actions ∧
        (c.run collisionCount labelSelector pods).status.updatedReplicas =
          liveAfter c.updateRevision pods (c.run collisionCount labelSelector pods).actions) ↔
      ∀ revision∈[c.currentRevision,c.updateRevision],
        c.Balanced revision (initialReplicas c pods) scaleMaxUnavailable
          (c.api.sortCondemned (condemnedPods c.set pods)) := by
  obtain ⟨w,flow,hsc,hf,hr⟩ := run_of_endsBeforeUpdate hmax herr hbefore
  have hne : (scaleWork c pods (initialStatus c collisionCount labelSelector) scaleMaxUnavailable).2≠.done true := by
    rw [hsc]
    exact hf
  have hcur:=scaleWork_ahead (currentCounter c) hnodup collisionCount labelSelector hmax hne
  have hu:=scaleWork_ahead (updatedCounter c) hnodup collisionCount labelSelector hmax hne
  rw [hsc] at hcur hu
  rw [hr,forall_mem_cons,forall_mem_singleton]
  unfold Call.Balanced
  dsimp only [Counter.ahead,currentCounter,updatedCounter] at hcur hu ⊢
  omega

def countersCall (replicas : Int) : Call :=
  { env := plainEnv
    api := plainApi
    now := 0
    set := plainSet replicas [] .orderedReady none none
    currentRevision := "web-a"
    updateRevision := "web-b"
    currentTemplate := plainTemplate
    updateTemplate := plainTemplate
    revisions := []}

/- `web-1` is created at the update revision. -/
theorem created_pod_counts :
    ((countersCall 2).run 0 "" [plainPod "web-0" "web-a"]).status.currentReplicas =
        liveAfter "web-a" [plainPod "web-0" "web-a"]
          ((countersCall 2).run 0 "" [plainPod "web-0" "web-a"]).actions ∧
      ((countersCall 2).run 0 "" [plainPod "web-0" "web-a"]).status.updatedReplicas =
        liveAfter "web-b" [plainPod "web-0" "web-a"]
          ((countersCall 2).run 0 "" [plainPod "web-0" "web-a"]).actions :=
  (counters_exact_iff (countersCall 2) 0 "" none [plainPod "web-0" "web-a"] (by simp) (by decide)
    (by decide +kernel) (.inr ⟨false,rfl⟩)).mpr (by decide +kernel)

/- `web-1` is deleted, and still counts. -/
theorem deleted_pod_still_counts :
    ((countersCall 1).run 0 "" [plainPod "web-0" "web-a",plainPod "web-1" "web-a"]).err=false ∧
      (countersCall 1).EndsBeforeUpdate 0 "" none [plainPod "web-0" "web-a",plainPod "web-1" "web-a"] ∧
      deletedNames ((countersCall 1).run 0 "" [plainPod "web-0" "web-a",
        plainPod "web-1" "web-a"]).actions=["web-1"] ∧
      ((countersCall 1).run 0 "" [plainPod "web-0" "web-a", plainPod "web-1" "web-a"]).status.currentReplicas=2 ∧
      liveAfter "web-a" [plainPod "web-0" "web-a",plainPod "web-1" "web-a"]
        ((countersCall 1).run 0 "" [plainPod "web-0" "web-a", plainPod "web-1" "web-a"]).actions=1 :=
  ⟨by decide +kernel,.inr ⟨false,rfl⟩,by decide +kernel,by decide +kernel,by decide +kernel⟩

end Kruise.StatefulSet
