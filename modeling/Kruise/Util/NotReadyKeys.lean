import Kruise.Lib.Keyed
import Kruise.Lib.Transition
import Kruise.Lib.Versioned
import Kruise.Util.PodReadiness

/-!
# Agents that share the not-ready keys of a pod

Any number of agents call `addNotReadyKey` and `removeNotReadyKey` (`pod_readiness_utils.go` 30-95)
on one pod, each with messages of its own. An update is refused if the pod has changed since the
read, and the call reads again. An agent reads nothing older than its own last write.
-/

namespace Kruise.Util.NotReadyKeys

open Lib.Keyed Lib.Transition Lib.Versioned Util.PodReadiness Option

/- As much of a pod as the calls look at. -/
structure Pod where
  readinessGate : Bool
  condition : Option ReadyCondition

inductive Operation
  | add
  | remove
  deriving DecidableEq,Repr

/- The pod at hand tells that there is nothing to do. -/
def Operation.settled (op : Operation) (pod : Pod) (msg : Message) : Bool :=
  match op with
  | .add => alreadyHasKey pod.condition msg||!pod.readinessGate
  | .remove => !pod.readinessGate

def Operation.changes (op : Operation) (condition : Option ReadyCondition) (msg : Message) : Bool :=
  match op,condition with
  | .add,none => true
  | .add,some c => (addMessage c.messages msg).1
  | .remove,none => false
  | .remove,some c => (removeMessage c.messages msg).1

def Operation.apply (op : Operation) (condition : Option ReadyCondition) (msg : Message) :
    Option ReadyCondition :=
  match op with
  | .add => addNotReadyKey condition msg
  | .remove => removeNotReadyKey condition msg

/- A call in progress. Without a base it is about to read, with one it is about to update. -/
structure Call where
  op : Operation
  msg : Message
  base : Option (Stored Pod)

variable {A : Type}

/- `lastWrite` and `lastDone` record the version of an agent's last write and the last completed
operation on a message. -/
structure World (A : Type) where
  store : Store Pod
  calls : A → Option Call
  lastWrite : A → Nat
  lastDone : Message → Option Operation

section

variable [DecidableEq A]

def World.setCall (w : World A) (a : A) (call : Option Call) : World A :=
  {w with calls := Function.update w.calls a call}

def World.complete (w : World A) (a : A) (op : Operation) (msg : Message) : World A :=
  {w.setCall a none with lastDone := Function.update w.lastDone msg (some op)}

def World.write (w : World A) (a : A) (op : Operation) (msg : Message) (store : Store Pod) : World A :=
  {w.complete a op msg with
    store := store
    lastWrite := Function.update w.lastWrite a store.current.rv}

/- Copies are given by their positions. A call fails on an error of the API server and when it runs
out of attempts; `other` is a write to the rest of the pod. -/
inductive Label (A : Type)
  | call (a : A) (op : Operation) (msg : Message) (i : Nat)
  | get (a : A) (i : Nat)
  | update (a : A)
  | fail (a : A)
  | other

def next (owner : Message → A) (w : World A) : Label A → Option (World A)
  | .call a op msg i =>
    match w.calls a,w.store.at i with
    | none,some pod =>
      if owner msg=a ∧ w.lastWrite a≤pod.rv then
        if op.settled pod.obj msg then some (w.complete a op msg)
        else some (w.setCall a (some ⟨op,msg,none⟩))
      else none
    | _,_ => none
  | .get a i =>
    match w.calls a,w.store.at i with
    | some ⟨op,msg,none⟩,some pod =>
      if w.lastWrite a≤pod.rv then
        if op.changes pod.obj.condition msg then some (w.setCall a (some ⟨op,msg,some pod⟩))
        else some (w.complete a op msg)
      else none
    | _,_ => none
  | .update a =>
    match w.calls a with
    | some ⟨op,msg,some base⟩ =>
      match w.store.update base {base.obj with condition := op.apply base.obj.condition msg} with
      | some store => some (w.write a op msg store)
      | none => some (w.setCall a (some ⟨op,msg,none⟩))
    | _ => none
  | .fail a => (w.calls a).map fun _ => w.setCall a none
  | .other => some {w with store := w.store.put w.store.current.obj}

/- A pod with the readiness gate and no keys. -/
def Init (w : World A) : Prop :=
  ∃ pod : Pod,w.store=Store.start pod ∧ pod.readinessGate ∧
    (pod.condition=none ∨ pod.condition=some ⟨.isTrue,[]⟩) ∧
    (∀ a,w.calls a=none) ∧ (∀ a,w.lastWrite a=0) ∧ ∀ msg,w.lastDone msg=none

abbrev Run (owner : Message → A) : World A → Prop :=
  Reachable Init fun w l w' => next owner w l=some w'

end

theorem hasKey_apply (op : Operation) (condition : Option ReadyCondition) (msg : Message) :
    hasKey (op.apply condition msg) msg=decide (op=.add) := by
  cases op with
  | add => simp [Operation.apply,hasKey_addNotReadyKey]
  | remove => simp [Operation.apply,hasKey_removeNotReadyKey]

variable {a : A} {op : Operation} {msg : Message}

theorem hasKey_apply_of_ne (op : Operation) (condition : Option ReadyCondition) {m : Message}
    (hm : m≠msg) : hasKey (op.apply condition msg) m=hasKey condition m := by
  cases op with
  | add => simp [Operation.apply,hasKey_addNotReadyKey,hm]
  | remove => simp [Operation.apply,hasKey_removeNotReadyKey,hm]

variable {condition : Option ReadyCondition}

theorem hasKey_of_unchanged (h : op.changes condition msg=false) : hasKey condition msg=decide (op=.add) := by
  cases op with
  | add =>
    cases condition with
    | none => cases h
    | some c =>
      by_cases hmem : msg∈c.messages
      · simp [hasKey,hmem]
      · simp [Operation.changes,addMessage,hmem] at h
  | remove =>
    cases condition with
    | none => rfl
    | some c => simpa [Operation.changes,removeMessage,hasKey] using h

theorem apply_sound (hsou : ∀ c,condition=some c → c.Sound) : ∀ c,op.apply condition msg=some c → c.Sound := by
  intro c hc
  cases op with
  | add => exact addNotReadyKey_sound hsou hc
  | remove => exact removeNotReadyKey_sound hsou hc

theorem hasKey_of_settled {pod : Pod} (hg : pod.readinessGate)
    (h : op.settled pod msg) : hasKey pod.condition msg=decide (op=.add) := by
  cases op with
  | add =>
    have hk : alreadyHasKey pod.condition msg := by
      simpa [Operation.settled,hg] using h
    unfold alreadyHasKey at hk
    cases hc : pod.condition with
    | none => simp [hc] at hk
    | some c =>
      simp only [hc,any_some,Bool.and_eq_true] at hk
      simpa [hasKey] using hk.2
  | remove => simp [Operation.settled,hg] at h

structure Inv (owner : Message → A) (w : World A) : Prop where
  gate : ∀ c,w.store.Copy c → c.obj.readinessGate
  sound : ∀ c,w.store.Copy c → ∀ condition,c.obj.condition=some condition → condition.Sound
  own : ∀ msg,w.store.AgreesSince (w.lastWrite (owner msg)) fun pod => hasKey pod.condition msg
  done : ∀ msg,hasKey w.store.current.obj.condition msg=decide (w.lastDone msg=some .add)
  owned : ∀ a call,w.calls a=some call → owner call.msg=a
  base : ∀ a call base,w.calls a=some call → call.base=some base → w.store.Copy base

variable {owner : Message → A} {w : World A}

theorem Inv.init (h : Init w) : Inv owner w := by
  obtain ⟨pod,hsto,hg,hcond,hcalls,hw,hd⟩ := h
  have hk : ∀ msg,hasKey pod.condition msg=false := by
    rcases hcond with hc | hc <;> simp [hc,hasKey]
  constructor
  · intro c hc
    rw [hsto,Store.copy_start_iff] at hc
    rw [hc]
    exact hg
  · intro c hc condition hsome
    rw [hsto,Store.copy_start_iff] at hc
    rw [hc] at hsome
    rcases hcond with hn | ht
    · rw [hn] at hsome
      cases hsome
    · rw [ht] at hsome
      cases hsome
      exact ⟨List.nodup_nil,by simp⟩
  · intro msg
    rw [hsto]
    exact Store.agreesSince_start _ _ _
  · intro msg
    rw [hsto,hd]
    exact hk msg
  · intro a call hcall
    rw [hcalls] at hcall
    cases hcall
  · intro a call base hcall
    rw [hcalls] at hcall
    cases hcall

theorem Inv.other (h : Inv owner w) : Inv owner {w with store := w.store.put w.store.current.obj} := by
  constructor
  · intro c hc
    rcases (w.store.copy_put_iff _ c).mp hc with rfl | ho
    · exact h.gate w.store.current w.store.copy_current
    · exact h.gate c ho
  · intro c hc
    rcases (w.store.copy_put_iff _ c).mp hc with rfl | ho
    · exact h.sound w.store.current w.store.copy_current
    · exact h.sound c ho
  · intro m
    exact (h.own m).put rfl
  · exact h.done
  · exact h.owned
  · intro b c base hc hbase
    exact (h.base b c base hc hbase).put _

variable [DecidableEq A]

theorem Inv.setCall {call : Option Call} (h : Inv owner w) (ho : ∀ c,call=some c → owner c.msg=a)
    (hbase : ∀ c b,call=some c → c.base=some b → w.store.Copy b) : Inv owner (w.setCall a call) := by
  refine ⟨h.gate,h.sound,h.own,h.done,forall_update h.owned ho,?_⟩
  intro b c base hc
  exact forall_update (p := fun _ c => ∀ b,c.base=some b → w.store.Copy b)
    (fun b c hc base => h.base b c base hc) (fun c hc b => hbase c b hc) b c hc base

theorem Inv.complete (h : Inv owner w) (hk : hasKey w.store.current.obj.condition msg=decide (op=.add)) :
    Inv owner (w.complete a op msg) := by
  have hset : Inv owner (w.setCall a none) := h.setCall (by simp) (by simp)
  refine ⟨hset.gate,hset.sound,hset.own,?_,hset.owned,hset.base⟩
  intro m
  by_cases hm : m=msg
  · subst hm
    simpa [World.complete,World.setCall] using hk
  · simpa [World.complete,World.setCall,hm] using h.done m

theorem Inv.write {op : Operation} (h : Inv owner w) (ho : owner msg=a) :
    let pod:=w.store.current.obj
    Inv owner (w.write a op msg (w.store.put {pod with condition := op.apply pod.condition msg})) := by
  intro pod
  have hcopy:=w.store.copy_current
  have hset : Inv owner (w.setCall a none) := h.setCall (by simp) (by simp)
  constructor
  · intro c hc
    rcases (w.store.copy_put_iff _ c).mp hc with rfl | hold
    · exact h.gate w.store.current hcopy
    · exact h.gate c hold
  · intro c hc condition hsome
    rcases (w.store.copy_put_iff _ c).mp hc with rfl | hold
    · exact apply_sound (h.sound w.store.current hcopy) condition hsome
    · exact h.sound c hold condition hsome
  · intro m
    by_cases hm : owner m=a
    · -- the agent has written last, so only the new version counts
      simp only [World.write,hm,Function.update_self]
      exact Store.agreesSince_put _ _ _
    · have hne : m≠msg := fun heq => hm (heq ▸ ho)
      simp only [World.write,World.complete,World.setCall,Function.update_of_ne hm]
      exact (h.own m).put (hasKey_apply_of_ne op pod.condition hne)
  · intro m
    by_cases hm : m=msg
    · subst hm
      simpa [World.write,World.complete] using hasKey_apply op pod.condition m
    · have hsame:=hasKey_apply_of_ne op pod.condition hm
      have hd:=h.done m
      simp only [World.write,World.complete,World.setCall,Store.current_put, Function.update_of_ne hm,hsame]
      exact hd
  · exact hset.owned
  · intro b c base hc hbase
    exact (hset.base b c base hc hbase).put _

theorem Inv.calls {base : Option (Stored Pod)} (h : Inv owner w) (ho : owner msg=a)
    (hbase : ∀ b,base=some b → w.store.Copy b) : Inv owner (w.setCall a (some ⟨op,msg,base⟩)) := by
  refine h.setCall ?_ ?_
  · rintro c ⟨⟩
    exact ho
  · intro c b hc hb
    cases hc
    exact hbase b hb

variable {w' : World A}

theorem Inv.call {i : Nat} (h : Inv owner w) (hn : next owner w (.call a op msg i)=some w') : Inv owner w' := by
  simp only [next] at hn
  split at hn
  · rename_i pod _ hat
    split_ifs at hn with ho hset
    · cases hn
      have hpod:=Store.copy_at hat
      have hk:=hasKey_of_settled (h.gate pod hpod) hset
      have hsame:=h.own msg pod hpod (ho.1 ▸ ho.2)
      exact h.complete (hsame.symm.trans hk)
    · cases hn
      exact h.calls ho.1 (by simp)
  · cases hn

theorem Inv.get {i : Nat} (h : Inv owner w) (hn : next owner w (.get a i)=some w') : Inv owner w' := by
  simp only [next] at hn
  split at hn
  · rename_i op msg pod hcall hat
    have ho:=h.owned a _ hcall
    have hpod:=Store.copy_at hat
    split_ifs at hn with hnew hchanges
    · cases hn
      refine h.calls ho ?_
      intro b hb
      exact some.inj hb ▸ hpod
    · cases hn
      have hsame:=h.own msg pod hpod (ho.symm ▸ hnew)
      have hk:=hasKey_of_unchanged (Bool.eq_false_iff.mpr hchanges)
      exact h.complete (hsame.symm.trans hk)
  · cases hn

theorem Inv.update (h : Inv owner w) (hn : next owner w (.update a)=some w') : Inv owner w' := by
  simp only [next] at hn
  split at hn
  · rename_i op msg base hcall
    have ho:=h.owned a _ hcall
    have hbase:=h.base a _ base hcall rfl
    split at hn
    · rename_i store hu
      cases hn
      obtain ⟨rfl,rfl⟩ := w.store.update_eq_some _ _ _ hbase hu
      exact h.write ho
    · cases hn
      exact h.calls ho (by simp)
  · cases hn

theorem Inv.next {l : Label A} (h : Inv owner w) (hn : next owner w l=some w') : Inv owner w' := by
  cases l with
  | call a op msg i => exact h.call hn
  | get a i => exact h.get hn
  | update a => exact h.update hn
  | fail a =>
    obtain ⟨call,-,rfl⟩ := map_eq_some_iff.mp hn
    exact h.setCall (by simp) (by simp)
  | other =>
    cases hn
    exact h.other

/-- In every reachable state the stored condition lists exactly the messages that were added last,
each once, and is true exactly when there is none. -/
theorem notReadyKeys_exact (owner : Message → A) (w : World A) (h : Run owner w) :
    (∀ msg,hasKey w.store.current.obj.condition msg ↔ w.lastDone msg=some .add) ∧
      ∀ c,w.store.current.obj.condition=some c → c.messages.Nodup ∧ (c.status=.isTrue ↔ c.messages=[]) := by
  have hi : Inv owner w :=
    h.invariant (fun _ hinit => Inv.init hinit) (fun _ _ _ hi hstep => hi.next hstep)
  constructor
  · intro msg
    rw [hi.done msg,decide_eq_true_iff]
  · intro c hc
    have hsou:=hi.sound _ w.store.copy_current c hc
    exact ⟨hsou.nodup,hsou.ready⟩

/- Two agents add at the same time, so that the second update is refused once; then the first agent
removes its key with a copy of the version it has written. -/
def twoAgents : List (Label String) :=
  let drain : Message := ⟨"drain", "node-1"⟩
  let hook : Message := ⟨"hook", "update"⟩
  [.call "drain" .add drain 0,.call "hook" .add hook 0,.get "drain" 0,.get "hook" 0,
    .update "drain",.update "hook",.get "hook" 0,.update "hook",
    .call "drain" .remove drain 1,.get "drain" 0,.update "drain"]

def noKeys : World String :=
  ⟨Store.start ⟨true,none⟩,fun _ => none,fun _ => 0,fun _ => none⟩

theorem twoAgents_exact :
    ∃ w,runLabels (next Message.userAgent) twoAgents noKeys=some w ∧
      (∀ msg,hasKey w.store.current.obj.condition msg ↔ w.lastDone msg=some .add) ∧
      ∀ c,w.store.current.obj.condition=some c → c.messages.Nodup ∧ (c.status=.isTrue ↔ c.messages=[]) := by
  have hrun : (runLabels (next Message.userAgent) twoAgents noKeys).isSome := by
    decide +kernel
  obtain ⟨w,hw⟩ := isSome_iff_exists.mp hrun
  have hsta : Run Message.userAgent noKeys :=
    .start ⟨⟨true,none⟩,rfl,rfl,.inl rfl,fun _ => rfl,fun _ => rfl,fun _ => rfl⟩
  have hr : Run Message.userAgent w :=
    reachable_of_runLabels (fun _ _ _ h => h) twoAgents hsta hw
  exact ⟨w,hw,notReadyKeys_exact Message.userAgent w hr⟩

end Kruise.Util.NotReadyKeys
