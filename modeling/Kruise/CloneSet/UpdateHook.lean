import Kruise.CloneSet.Update
import Kruise.Lib.Transition
import Kruise.Util.PodReadiness

/-!
# The in-place update hook and the not-ready key

Entering `PreparingUpdate` puts the key of the hook into the pod's `KruisePodReady` condition and
entering `Updated` takes it away (`lifecycle_utils.go` 108-218); `refreshPodState` and `updatePod`
(`cloneset_update.go` 158-219, 238-325) decide which state the pod enters.
-/

namespace Kruise.CloneSet.UpdateHook

open Lib.Transition Option
open Util.PodReadiness (Message hasKey alreadyHasKey addNotReadyKey removeNotReadyKey
  hasKey_addNotReadyKey hasKey_removeNotReadyKey)

def getReadinessMessage (key : String) : Message := ⟨"Lifecycle",key⟩

def preparingDeleteHookKey : String := "preDeleteHook"

def preparingUpdateHookKey : String := "preUpdateHook"

/- Whether its containers run what its in-place update asks for, and the update revision of the
CloneSet. -/
structure World where
  pod : Pod
  readinessGate : Bool
  condition : Option Util.PodReadiness.ReadyCondition
  updateCompleted : Bool
  updateRevision : String

def World.addKey (w : World) (msg : Message) : World :=
  if alreadyHasKey w.condition msg||!w.readinessGate then w
  else {w with condition := addNotReadyKey w.condition msg}

def World.removeKey (w : World) (msg : Message) : World :=
  if !w.readinessGate then w
  else {w with condition := removeNotReadyKey w.condition msg}

def executePodNotReadyPolicy (w : World) (state : LifecycleState) : World :=
  match state with
  | .preparingDelete => w.addKey (getReadinessMessage preparingDeleteHookKey)
  | .preparingUpdate => w.addKey (getReadinessMessage preparingUpdateHookKey)
  | .updated => w.removeKey (getReadinessMessage preparingUpdateHookKey)
  | _ => w

def World.setState (w : World) (state : LifecycleState) : World :=
  {w with pod := {w.pod with lifecycleState := state}}

/- The effect of `UpdatePodLifecycle`. A pod in the state already is not patched. -/
def enter (w : World) (state : LifecycleState) (markPodNotReady : Bool) : World :=
  (if markPodNotReady then executePodNotReadyPolicy w state else w).setState state

def attachHook (hook : LifecycleHook) (pod : Pod) : Pod :=
  {pod with
    finalizers := pod.finalizers++hook.finalizersHandler
    labels := fun k => ((hook.labelsHandler.lookup k).map some).getD (pod.labels k)}

/- The effect of `UpdatePodLifecycleWithHandler`, which does nothing to a pod in the state
already. -/
def enterWithHandler (w : World) (state : LifecycleState) (handler : Option LifecycleHook) : World :=
  match handler with
  | none => w
  | some hook =>
    let w:=if hook.markPodNotReady then executePodNotReadyPolicy w state else w
    if w.pod.lifecycleState=state then w
    else {w with pod := {attachHook hook w.pod with lifecycleState := state}}

/- The API server accepts every write; whether an in-place update succeeds is open. -/
def answers (canUpdateInPlace : Bool) (result : InPlaceResult) (w : World) : UpdateApi where
  lifecycle := ⟨fun _ _ => true,fun _ _ => true⟩
  refreshOk := fun _ => true
  updateCompleted := fun _ => w.updateCompleted
  patchTemplateHashOk := fun _ => true
  patchSpecifiedDeleteOk := fun _ => true
  canUpdateInPlace := fun _ => canUpdateInPlace
  inPlaceUpdate := fun _ => result
  pubAllows := fun _ => some true

inductive Label
  | refreshPodState
  | updatePod (targetRevision : String) (canUpdateInPlace : Bool) (result : InPlaceResult)
  | setRevision (updateRevision : String)
  | setCompleted (updateCompleted : Bool)
  | user (labels : String → Option String) (finalizers : List String)

def inPlaceHook (cs : CloneSetSpec) : Option LifecycleHook := cs.lifecycle.bind (·.inPlaceUpdate)

def refresh (cs : CloneSetSpec) (w : World) : World :=
  match refreshedState (answers true .updated w) cs w.pod w.updateRevision with
  | none => w
  | some state => enter w state (isHookMarkPodNotReady (inPlaceHook cs))

def applyUpdate (env : Env) (cs : CloneSetSpec) (w : World) : PodUpdate → World
  | .lifecycle state =>
    if w.pod.lifecycleState=.updated then enterWithHandler w state (inPlaceHook cs)
    else enter w state (isHookMarkPodNotReady (inPlaceHook cs))
  | .inPlace revision =>
    {w with
      pod := {writeRevisionHash env w.pod revision with lifecycleState := .updating}
      updateCompleted := false}
  | .specifiedDelete => {w with pod := {w.pod with specifiedDelete := true}}

def step (env : Env) (cs : CloneSetSpec) (w : World) : Label → World
  | .refreshPodState => refresh cs w
  | .updatePod targetRevision can result =>
    match updatePod (answers can result w) cs targetRevision w.pod with
    | some (some update) => applyUpdate env cs w update
    | _ => w
  | .setRevision updateRevision => {w with updateRevision := updateRevision}
  | .setCompleted updateCompleted => {w with updateCompleted := updateCompleted}
  | .user labels finalizers =>
    {w with pod := {w.pod with labels := labels,finalizers := finalizers}}

def marked (w : World) : Bool := hasKey w.condition (getReadinessMessage preparingUpdateHookKey)

def Init (w : World) : Prop :=
  w.pod.lifecycleState=.normal ∧ ∀ msg,hasKey w.condition msg=false

/- A refresh that ends an update, or a preparation that a rollback has made pointless. -/
def endsUpdate (w : World) : Bool :=
  match w.pod.lifecycleState with
  | .preparingUpdate => equalToRevisionHash w.pod w.updateRevision
  | .updating => w.updateCompleted
  | _ => false

/- The hook is not fully attached when its update ends. -/
def Unhooked (cs : CloneSetSpec) (w : World) : Label → Prop
  | .refreshPodState => endsUpdate w → isPodAllHooked (inPlaceHook cs) w.pod=false
  | _ => True

def InUpdate (w : World) : Prop :=
  w.pod.lifecycleState=.preparingUpdate ∨ w.pod.lifecycleState=.updating

structure Inv (w : World) : Prop where
  inUpdate : marked w → InUpdate w
  gate : marked w → w.readinessGate

variable {w : World}

theorem marked_removeKey (h : Inv w) : marked (w.removeKey (getReadinessMessage preparingUpdateHookKey))=false := by
  unfold World.removeKey
  by_cases hg : w.readinessGate
  · simp only [hg,Bool.not_true,Bool.false_eq_true,if_false]
    exact (hasKey_removeNotReadyKey _ _ _).trans (by simp)
  · -- without the readiness gate no key was ever added
    simp only [hg,Bool.not_false,if_true]
    exact Bool.eq_false_iff.mpr fun hmk => hg (h.gate hmk)

theorem marked_addKey_of_ne {msg : Message} (hm : getReadinessMessage preparingUpdateHookKey≠msg) :
    marked (w.addKey msg)=marked w := by
  unfold World.addKey
  split_ifs
  · rfl
  · unfold marked
    rw [hasKey_addNotReadyKey,decide_eq_false hm,Bool.false_or]

theorem gate_of_marked_addKey {msg : Message} (h : Inv w) (hmk : marked (w.addKey msg)) :
    (w.addKey msg).readinessGate := by
  unfold World.addKey at hmk ⊢
  split_ifs at hmk ⊢ with hset
  · exact h.gate hmk
  · simp only [Bool.or_eq_true,not_or] at hset
    simpa using hset.2

theorem policy_marked (h : Inv w) (state : LifecycleState) :
    (marked (executePodNotReadyPolicy w state) → (executePodNotReadyPolicy w state).readinessGate) ∧
    (state=.updated → marked (executePodNotReadyPolicy w state)=false) ∧
    (state≠.preparingUpdate → marked w=false → marked (executePodNotReadyPolicy w state)=false) := by
  have ho : getReadinessMessage preparingUpdateHookKey ≠ getReadinessMessage preparingDeleteHookKey := by decide
  cases state with
  | preparingUpdate => exact ⟨gate_of_marked_addKey h,by simp,by simp⟩
  | preparingDelete =>
    refine ⟨gate_of_marked_addKey h,by simp,?_⟩
    intro _ hmk
    exact (marked_addKey_of_ne ho).trans hmk
  | updated =>
    have hg:=marked_removeKey h
    refine ⟨?_,fun _ => hg,fun _ _ => hg⟩
    intro hmk
    exact absurd hmk (Bool.eq_false_iff.mp hg)
  | unset => exact ⟨h.gate,by simp,fun _ hmk => hmk⟩
  | preparingNormal => exact ⟨h.gate,by simp,fun _ hmk => hmk⟩
  | normal => exact ⟨h.gate,by simp,fun _ hmk => hmk⟩
  | updating => exact ⟨h.gate,by simp,fun _ hmk => hmk⟩
  | other label => exact ⟨h.gate,by simp,fun _ hmk => hmk⟩

variable {state : LifecycleState}

theorem Inv.enter (h : Inv w) (hst : state=.preparingUpdate ∨ state=.updated ∨ marked w=false) :
    Inv (enter w state true) := by
  obtain ⟨hg,hu,hclean⟩ := policy_marked h state
  constructor
  · intro hmk
    by_cases hprep : state=.preparingUpdate
    · exact .inl hprep
    · have hgone : marked (executePodNotReadyPolicy w state)=false := by
        rcases hst with hst | hst | hst
        · exact absurd hst hprep
        · exact hu hst
        · exact hclean hprep hst
      exact absurd hmk (Bool.eq_false_iff.mp hgone)
  · exact hg

theorem Inv.of_same {w' : World} (h : Inv w) (hmk : marked w'=marked w) (hg : w'.readinessGate=w.readinessGate)
    (hst : w'.pod.lifecycleState=w.pod.lifecycleState ∨ InUpdate w') : Inv w' := by
  constructor
  · intro hm
    rcases hst with hsame | hu
    · have ho:=h.inUpdate (hmk ▸ hm)
      unfold InUpdate at ho ⊢
      rw [hsame]
      exact ho
    · exact hu
  · intro hm
    rw [hg]
    exact h.gate (hmk ▸ hm)

variable {env : Env} {cs : CloneSetSpec} {hook : LifecycleHook}

theorem not_marked_of_state (h : Inv w) (hprep : w.pod.lifecycleState≠.preparingUpdate)
    (hu : w.pod.lifecycleState≠.updating) : marked w=false := by
  refine Bool.eq_false_iff.mpr ?_
  intro hmk
  rcases h.inUpdate hmk with hst | hst
  · exact hprep hst
  · exact hu hst

theorem Inv.refresh (hh : inPlaceHook cs=some hook) (hmark : hook.markPodNotReady)
    (hok : Unhooked cs w .refreshPodState) (h : Inv w) : Inv (refresh cs w) := by
  have hlc : cs.lifecycle.isSome := by
    unfold inPlaceHook at hh
    cases hl : cs.lifecycle with
    | none => simp [hl] at hh
    | some l => rfl
  unfold UpdateHook.refresh
  split
  · exact h
  · rename_i state hst
    have hm : isHookMarkPodNotReady (inPlaceHook cs) := by
      simp [isHookMarkPodNotReady,hh,hmark]
    rw [hm]
    refine h.enter (.inr ?_)
    -- an update that ends does so in Updated, because the hook is not fully attached
    have hends : endsUpdate w → state=.updated := by
      intro he
      have hf:=hok he
      unfold endsUpdate at he
      unfold refreshedState at hst
      change isPodAllHooked (cs.lifecycle.bind (·.inPlaceUpdate)) w.pod=false at hf
      simp only [hf,hlc,Bool.not_false,Bool.and_true,if_true] at hst
      split at he
      · rename_i hpod
        simp only [hpod,he,if_true,some.injEq] at hst
        exact hst.symm
      · rename_i hpod
        simp only [hpod,answers,he,if_true,some.injEq] at hst
        exact hst.symm
      · cases he
    by_cases he : endsUpdate w
    · exact .inl (hends he)
    · right
      refine not_marked_of_state h ?_ ?_
      · intro hpod
        simp only [endsUpdate,hpod] at he
        simp [refreshedState,hpod,he] at hst
      · intro hpod
        simp only [endsUpdate,hpod] at he
        simp [refreshedState,hpod,answers,he] at hst

theorem Inv.enterWithHandler (hm : hook.markPodNotReady) (h : Inv w) :
    Inv (enterWithHandler w .preparingUpdate (some hook)) := by
  have hpol:=(policy_marked h .preparingUpdate).1
  have hst : (executePodNotReadyPolicy w .preparingUpdate).pod=w.pod := by
    unfold executePodNotReadyPolicy World.addKey
    split_ifs <;> rfl
  unfold UpdateHook.enterWithHandler
  simp only [hm,if_true,hst]
  split_ifs with hpod
  · exact ⟨fun _ => .inl (hst ▸ hpod),hpol⟩
  · exact ⟨fun _ => .inl rfl,hpol⟩

variable (api : UpdateApi)

theorem recreatePod_ne_lifecycle (pod : Pod) (state : LifecycleState) :
    recreatePod api pod≠some (some (.lifecycle state)) := by
  unfold recreatePod
  split_ifs <;> simp

theorem backOff_ne_lifecycle (pod : Pod) (state : LifecycleState) :
    backOff api cs pod≠some (some (.lifecycle state)) := by
  unfold backOff
  split_ifs
  · simp
  · exact recreatePod_ne_lifecycle api pod state

theorem updateInPlace_ne_lifecycle (target : String) (pod : Pod) (state : LifecycleState) :
    updateInPlace api cs target pod≠some (some (.lifecycle state)) := by
  unfold updateInPlace
  cases api.inPlaceUpdate pod with
  | notInPlace => exact backOff_ne_lifecycle api pod state
  | updated => simp
  | failed => simp

theorem state_of_patchedTo {patched : Option Bool}
    (h : patchedTo .preparingUpdate patched=some (some (.lifecycle state))) : state=.preparingUpdate := by
  obtain ⟨b,-,hb⟩ := map_eq_some_iff.mp h
  cases b with
  | false => cases hb
  | true =>
    simp only [if_true,some.injEq,PodUpdate.lifecycle.injEq] at hb
    exact hb.symm

theorem updatePod_lifecycle {api : UpdateApi} {target : String} {pod : Pod}
    (h : updatePod api cs target pod=some (some (.lifecycle state))) : state=.preparingUpdate := by
  have hprep : ∀ (hooked : Bool) (patched : Option Bool), (if hooked then patchedTo .preparingUpdate patched
        else updateInPlace api cs target pod)=some (some (.lifecycle state)) →
      state=.preparingUpdate := by
    intro hooked patched hp
    cases hooked with
    | true => exact state_of_patchedTo hp
    | false => exact absurd hp (updateInPlace_ne_lifecycle api target pod state)
  unfold updatePod at h
  by_cases hr : cs.updateType=.reCreate
  · simp only [hr,if_true] at h
    exact absurd h (recreatePod_ne_lifecycle api pod state)
  simp only [hr,if_false] at h
  cases hcan : api.canUpdateInPlace pod with
  | false =>
    simp only [hcan,Bool.not_false,if_true] at h
    exact absurd h (backOff_ne_lifecycle api pod state)
  | true =>
    simp only [hcan,Bool.not_true,Bool.false_eq_true,if_false] at h
    cases hpod : pod.lifecycleState with
    | unset => exact hprep _ _ (by simpa only [hpod] using h)
    | preparingNormal => exact hprep _ _ (by simpa only [hpod] using h)
    | normal => exact hprep _ _ (by simpa only [hpod] using h)
    | updated => exact state_of_patchedTo (by simpa only [hpod] using h)
    | preparingUpdate =>
      simp only [hpod] at h
      split_ifs at h
      · cases h
      · exact absurd h (updateInPlace_ne_lifecycle api target pod state)
    | updating =>
      simp only [hpod] at h
      exact absurd h (updateInPlace_ne_lifecycle api target pod state)
    | preparingDelete => simp [hpod] at h
    | other label => simp [hpod] at h

theorem Inv.applyUpdate (hh : inPlaceHook cs=some hook) (hm : hook.markPodNotReady) {update : PodUpdate}
    (hlc : ∀ state,update=.lifecycle state → state=.preparingUpdate) (h : Inv w) :
    Inv (applyUpdate env cs w update) := by
  cases update with
  | lifecycle state =>
    obtain rfl := hlc state rfl
    unfold UpdateHook.applyUpdate
    simp only [hh]
    split_ifs
    · exact h.enterWithHandler hm
    · have hmarks : isHookMarkPodNotReady (some hook) := by
        simp [isHookMarkPodNotReady,hm]
      rw [hmarks]
      exact h.enter (.inl rfl)
  | inPlace revision => exact h.of_same rfl rfl (.inr (.inr rfl))
  | specifiedDelete => exact h.of_same rfl rfl (.inl rfl)

theorem Inv.step (hh : inPlaceHook cs=some hook) (hm : hook.markPodNotReady)
    {l : Label} (hok : Unhooked cs w l) (h : Inv w) : Inv (step env cs w l) := by
  cases l with
  | refreshPodState => exact h.refresh hh hm hok
  | updatePod target can result =>
    unfold UpdateHook.step
    simp only
    split
    · rename_i update hu
      refine h.applyUpdate hh hm ?_
      rintro state rfl
      exact updatePod_lifecycle hu
    · exact h
  | setRevision updateRevision => exact h.of_same rfl rfl (.inl rfl)
  | setCompleted updateCompleted => exact h.of_same rfl rfl (.inl rfl)
  | user labels finalizers => exact h.of_same rfl rfl (.inl rfl)

abbrev Run (env : Env) (cs : CloneSetSpec) (ok : World → Label → Prop) : World → Prop :=
  Reachable Init (Restricted (fun w l w' => step env cs w l=w') ok)

/-- Where no update ends on a pod with the hook fully attached, a Normal pod does not carry the key
of the hook. -/
theorem normal_pod_not_marked (env : Env) (cs : CloneSetSpec) (hook : LifecycleHook)
    (hhook : inPlaceHook cs=some hook) (hmark : hook.markPodNotReady) (w : World)
    (h : Run env cs (Unhooked cs) w) (hnormal : w.pod.lifecycleState=.normal) :
    hasKey w.condition (getReadinessMessage preparingUpdateHookKey)=false := by
  have hi : Inv w := by
    refine h.invariant ?_ ?_
    · intro w hinit
      have hmk : marked w=false := hinit.2 _
      exact ⟨fun hm => absurd hm (Bool.eq_false_iff.mp hmk), fun hm => absurd hm (Bool.eq_false_iff.mp hmk)⟩
    · intro w l w' hi hstep
      rw [← hstep.1]
      exact hi.step hhook hmark hstep.2
  exact not_marked_of_state hi (by simp [hnormal]) (by simp [hnormal])

def hookedSpec : CloneSetSpec :=
  {plainSpec 1 with lifecycle := some ⟨none,some ⟨[],["example/drain"],true⟩,none⟩}

def hookedPod : World where
  pod := {readyPod "web-a" "web-1" with finalizers := ["example/drain"]}
  readinessGate := true
  condition := none
  updateCompleted := false
  updateRevision := "web-1"

theorem hookedPod_init : Init hookedPod := ⟨rfl,fun _ => rfl⟩

theorem hookedPod_run {ok : World → Label → Prop} : Run quietEnv hookedSpec ok hookedPod :=
  .start hookedPod_init

def hookedNext (w : World) (l : Label) : Option World := some (step quietEnv hookedSpec w l)

theorem hookedNext_step (w : World) (l : Label) (w' : World) (h : hookedNext w l=some w') :
    step quietEnv hookedSpec w l=w' := Option.some.inj h

/- The CloneSet goes back from web-2 to web-1 while the hook blocks. -/
def rollback : List Label :=
  [.setRevision "web-2",.updatePod "web-2" true .updated,.setRevision "web-1",.refreshPodState]

theorem rollback_leaves_key :
    inPlaceHook hookedSpec=some ⟨[],["example/drain"],true⟩ ∧
      ∃ w,Run quietEnv hookedSpec (fun _ _ => True) w ∧ w.pod.lifecycleState=.normal ∧
        hasKey w.condition (getReadinessMessage preparingUpdateHookKey) := by
  refine ⟨rfl,?_⟩
  have he : ((runLabels hookedNext rollback hookedPod).any fun w =>
      decide (w.pod.lifecycleState=.normal) &&
        hasKey w.condition (getReadinessMessage preparingUpdateHookKey)) := by decide
  obtain ⟨w,hw,hf⟩ := (any_eq_true _ _).mp he
  rw [Bool.and_eq_true,decide_eq_true_iff] at hf
  refine ⟨w,?_,hf⟩
  exact reachable_of_runLabels (fun w l w' h => ⟨hookedNext_step w l w' h,trivial⟩) rollback hookedPod_run hw

def wholeUpdate : List Label :=
  [.setRevision "web-2",.updatePod "web-2" true .updated,.user (fun _ => none) [],
    .updatePod "web-2" true .updated,.setCompleted true,.refreshPodState,
    .user (fun _ => none) ["example/drain"],.refreshPodState]

instance (cs : CloneSetSpec) (w : World) (l : Label) : Decidable (Unhooked cs w l) := by
  cases l with
  | refreshPodState => exact inferInstanceAs (Decidable (_ → _))
  | updatePod target can result => exact inferInstanceAs (Decidable True)
  | setRevision updateRevision => exact inferInstanceAs (Decidable True)
  | setCompleted updateCompleted => exact inferInstanceAs (Decidable True)
  | user labels finalizers => exact inferInstanceAs (Decidable True)

theorem wholeUpdate_not_marked :
    ∃ w,runLabels (restrict hookedNext (Unhooked hookedSpec)) wholeUpdate hookedPod=some w ∧
      w.pod.lifecycleState=.normal ∧ hasKey w.condition (getReadinessMessage preparingUpdateHookKey)=false := by
  have he : ((runLabels (restrict hookedNext (Unhooked hookedSpec)) wholeUpdate hookedPod).any
      fun w => decide (w.pod.lifecycleState=.normal)) := by decide
  obtain ⟨w,hw,hn⟩ := (any_eq_true _ _).mp he
  rw [decide_eq_true_iff] at hn
  have hr : Run quietEnv hookedSpec (Unhooked hookedSpec) w :=
    reachable_of_restrict hookedNext_step wholeUpdate hookedPod_run hw
  exact ⟨w,hw,hn,normal_pod_not_marked quietEnv hookedSpec ⟨[],["example/drain"],true⟩ rfl rfl w hr hn⟩

end Kruise.CloneSet.UpdateHook
