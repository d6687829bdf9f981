import Mathlib.Data.List.Sort

/-!
# Not-ready keys of a pod

`pod_readiness_utils.go` 30-178: several writers keep a pod not ready by putting their message into
its `KruisePodReady` condition.
-/

namespace Kruise.Util.PodReadiness

open List Option

structure Message where
  userAgent : String
  key : String
  deriving DecidableEq

inductive ConditionStatus
  | unset
  | isTrue
  | isFalse
  deriving DecidableEq

structure ReadyCondition where
  status : ConditionStatus
  messages : List Message
  deriving DecidableEq

def Message.le (m n : Message) : Prop :=
  if m.userAgent=n.userAgent then m.key≤n.key else m.userAgent<n.userAgent
  deriving Decidable

variable (messages : List Message)

/- The order in which `messageList.dump` writes the messages. -/
def dump : List Message := messages.insertionSort Message.le

def hasKey (condition : Option ReadyCondition) (msg : Message) : Bool :=
  condition.any fun c => decide (msg∈c.messages)

def alreadyHasKey (condition : Option ReadyCondition) (msg : Message) : Bool :=
  condition.any fun c => decide (c.status≠.isTrue)&&decide (msg∈c.messages)

def addMessage (base : List Message) (msg : Message) : Bool × List Message :=
  if msg∈base then (false,base) else (true,base++[msg])

def removeMessage (base : List Message) (msg : Message) : Bool × List Message :=
  (decide (msg∈base),base.filter fun m => m≠msg)

/- What the update inside `addNotReadyKey` makes of the condition. -/
def addNotReadyKey (condition : Option ReadyCondition) (msg : Message) : Option ReadyCondition :=
  match condition with
  | none => some ⟨.unset,dump (addMessage [] msg).2⟩
  | some c =>
    match addMessage c.messages msg with
    | (false,_) => some c
    | (true,messages) => some ⟨.isFalse,dump messages⟩

/- What the update inside `removeNotReadyKey` makes of the condition. -/
def removeNotReadyKey (condition : Option ReadyCondition) (msg : Message) : Option ReadyCondition :=
  match condition with
  | none => none
  | some c =>
    match removeMessage c.messages msg with
    | (false,_) => some c
    | (true,messages) => some ⟨if messages=[] then .isTrue else c.status,dump messages⟩

@[simp] theorem mem_dump (msg : Message) :
    msg∈dump messages ↔ msg∈messages := mem_insertionSort _

theorem dump_eq_nil_iff : dump messages=[] ↔ messages=[] := by
  unfold dump
  rw [← length_eq_zero_iff,length_insertionSort,length_eq_zero_iff]

/- A condition as the writers of keys leave it. -/
structure ReadyCondition.Sound (c : ReadyCondition) : Prop where
  nodup : c.messages.Nodup
  ready : c.status=.isTrue ↔ c.messages=[]

theorem addNotReadyKey_sound {condition : Option ReadyCondition} {c' : ReadyCondition}
    (hsou : ∀ c,condition=some c → c.Sound) {msg : Message}
    (h : addNotReadyKey condition msg=some c') : c'.Sound := by
  have hnonempty : ∀ base : List Message,dump (base++[msg])≠[] := by
    intro base hnil
    rw [dump_eq_nil_iff] at hnil
    simp at hnil
  cases condition with
  | none =>
    cases h
    refine ⟨?_,by simp [addMessage,dump]⟩
    simp [addMessage,dump]
  | some c =>
    have hc:=hsou c rfl
    unfold addNotReadyKey addMessage at h
    by_cases hmem : msg∈c.messages
    · simp only [hmem,if_true] at h
      exact some.inj h ▸ hc
    · simp only [hmem,if_false] at h
      cases h
      constructor
      · refine (perm_insertionSort _ _).nodup_iff.mpr ?_
        exact nodup_append.mpr ⟨hc.nodup,nodup_singleton msg,by
          intro m hm n hn heq
          rw [mem_singleton.mp hn] at heq
          exact hmem (heq ▸ hm)⟩
      · constructor
        · rintro ⟨⟩
        · intro hnil
          exact absurd hnil (hnonempty c.messages)

theorem removeNotReadyKey_sound {condition : Option ReadyCondition} {c' : ReadyCondition}
    (hsou : ∀ c,condition=some c → c.Sound) {msg : Message}
    (h : removeNotReadyKey condition msg=some c') : c'.Sound := by
  cases condition with
  | none => cases h
  | some c =>
    have hc:=hsou c rfl
    unfold removeNotReadyKey removeMessage at h
    by_cases hm : msg∈c.messages
    · simp only [hm,decide_true] at h
      cases h
      refine ⟨(perm_insertionSort _ _).nodup_iff.mpr (hc.nodup.filter _),?_⟩
      rw [dump_eq_nil_iff]
      generalize c.messages.filter (fun m => m≠msg)=rest
      by_cases hn : rest=[]
      · simp [hn]
      · have hsts : c.status≠.isTrue := by
          intro ht
          rw [hc.ready.mp ht] at hm
          cases hm
        simp [hn,hsts]
    · simp only [hm,decide_false] at h
      exact some.inj h ▸ hc

variable (condition : Option ReadyCondition)

theorem hasKey_addNotReadyKey (msg m : Message) :
    hasKey (addNotReadyKey condition msg) m=(decide (m=msg)||hasKey condition m) := by
  cases condition with
  | none => simp [addNotReadyKey,addMessage,hasKey]
  | some c =>
    unfold addNotReadyKey addMessage
    by_cases hmem : msg∈c.messages
    · simp only [hasKey,hmem,if_true,any_some]
      by_cases hm : m=msg
      · simp [hm,hmem]
      · simp [hm]
    · simp only [hasKey,hmem,if_false,any_some,mem_dump,mem_append,mem_singleton]
      by_cases hm : m=msg <;> simp [hm]

theorem hasKey_removeNotReadyKey (msg m : Message) :
    hasKey (removeNotReadyKey condition msg) m=(decide (m≠msg)&&hasKey condition m) := by
  cases condition with
  | none => simp [removeNotReadyKey,hasKey]
  | some c =>
    unfold removeNotReadyKey removeMessage
    by_cases hmem : msg∈c.messages
    · by_cases hm : m=msg <;> simp [hasKey,hmem,hm]
    · by_cases hm : m=msg <;> simp [hasKey,hmem,hm]

end Kruise.Util.PodReadiness
