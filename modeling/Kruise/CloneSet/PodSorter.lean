import Kruise.CloneSet.Types
import Kruise.Lib.Sorting
import Mathlib.Order.WithBot

/-!
# The order in which pods are given up

`ActivePodsWithRanks.Less` (`pod_sorter.go:56-116`) and the older `ActivePods.Less`
(`k8s.io/kubernetes/pkg/controller/controller_utils.go:716-751`), the default order of an update.
Each compares one key after the other.
-/

namespace Kruise.CloneSet

open Util.IntStr Lib.Sorting

/- `podPhaseToOrdinal`, a map from which a missing phase reads as zero. -/
def phaseOrdinal : PodPhase → Nat
  | .pending => 0
  | .unknown => 1
  | .running => 2
  | .succeeded => 0
  | .failed => 0

-- `podutil.IsPodReady`
def isConditionReady (pod : Pod) : Bool := pod.ready.any (·.status=.true)

def podReadyTime (pod : Pod) : Option Int :=
  if isConditionReady pod then pod.ready.bind (·.lastTransitionTime) else none

def maxContainerRestarts (pod : Pod) : Int := pod.restartCounts.foldl max 0

def afterOrZero (t1 t2 : Option Int) : Bool :=
  match t1,t2 with
  | some t1,some t2 => t1 > t2
  | t1,_ => t1.isNone

def validFirstDigit (str : String) : Bool :=
  match str.toList with
  | [] => false
  | c::_ => c = '-'||(c = '0'&&str = "0")||('1'≤c&&c ≤ '9')

/- `getDeletionCostFromPodAnnotations`, of which the error is not used. -/
def deletionCostOf (pod : Pod) : Int :=
  match pod.deletionCost with
  | none => 0
  | some value => if validFirstDigit value then (parseInt32 value).toOption.getD 0 else 0

def ageLess (a b : Pod) : Bool :=
  if isConditionReady a ∧ isConditionReady b ∧ podReadyTime a≠podReadyTime b then
    afterOrZero (podReadyTime a) (podReadyTime b)
  else if maxContainerRestarts a≠maxContainerRestarts b then
    maxContainerRestarts a > maxContainerRestarts b
  else if a.creationTime≠b.creationTime then
    afterOrZero a.creationTime b.creationTime
  else false

section

variable {R : Type} [LinearOrder R]

/-- `ActivePodsWithRanks.Less`; `rank` is constant without a ranker. -/
def activePodsWithRanksLess (availableFunc : Option (Pod → Bool)) (rank : Pod → R) (a b : Pod) : Bool :=
  if a.nodeName≠b.nodeName ∧ (a.nodeName = "" ∨ b.nodeName = "") then a.nodeName = ""
  else if phaseOrdinal a.phase≠phaseOrdinal b.phase then
    phaseOrdinal a.phase<phaseOrdinal b.phase
  else if availableFunc.any fun f => f a≠f b then availableFunc.any fun f => !f a
  else if isConditionReady a≠isConditionReady b then !isConditionReady a
  else if deletionCostOf a≠deletionCostOf b then deletionCostOf a<deletionCostOf b
  else if rank a≠rank b then rank a > rank b
  else ageLess a b

def activePodsLess (a b : Pod) : Bool :=
  if a.nodeName≠b.nodeName ∧ (a.nodeName = "" ∨ b.nodeName = "") then a.nodeName = ""
  else if phaseOrdinal a.phase≠phaseOrdinal b.phase then
    phaseOrdinal a.phase<phaseOrdinal b.phase
  else if isConditionReady a≠isConditionReady b then !isConditionReady a
  else ageLess a b

/- The order of `afterOrZero`: no time at all, then later times before earlier ones. -/
def latestFirst (t : Option Int) : WithBot (OrderDual Int) := t.map OrderDual.toDual

theorem latestFirst_injective : Function.Injective latestFirst :=
  Option.map_injective OrderDual.toDual.injective

theorem lexLess_latestFirst_of_ne {t1 t2 : Option Int} (h : t1≠t2) (next : Option Int → Option Int → Bool) :
    lexLess latestFirst next t1 t2=afterOrZero t1 t2 := by
  rw [lexLess,if_pos (latestFirst_injective.ne h)]
  cases t1 with
  | none =>
    cases t2 with
    | none => exact absurd rfl h
    | some t2 => exact decide_eq_true (WithBot.bot_lt_coe _)
  | some t1 =>
    cases t2 with
    | none => exact decide_eq_false not_lt_bot
    | some t2 =>
      apply decide_eq_decide.mpr
      exact WithBot.coe_lt_coe (a := OrderDual.toDual t1) (b := OrderDual.toDual t2)

theorem lexLess_latestFirst (time : Pod → Option Int) (next : Pod → Pod → Bool) (a b : Pod) :
    lexLess (fun p => latestFirst (time p)) next a b =
      if time a≠time b then afterOrZero (time a) (time b) else next a b := by
  by_cases h : time a=time b
  · rw [lexLess_of_eq next (congrArg latestFirst h),if_neg (not_not.mpr h)]
  · rw [if_pos h]
    exact lexLess_latestFirst_of_ne h fun _ _ => next a b

def assigned (pod : Pod) : Bool := pod.nodeName ≠ ""

theorem lexLess_assigned (next : Pod → Pod → Bool) (a b : Pod) : lexLess assigned next a b =
      if a.nodeName≠b.nodeName ∧ (a.nodeName = "" ∨ b.nodeName = "") then
        decide (a.nodeName = "")
      else next a b := by
  rw [lexLess_bool]
  unfold assigned
  by_cases ha : a.nodeName = ""
  · by_cases hb : b.nodeName = ""
    · simp [ha,hb]
    · simp [ha,hb,Ne.symm hb]
  · by_cases hb : b.nodeName = "" <;> simp [ha,hb]

/- The ready time of a pod that is not ready is the zero time. -/
def ageKeys : Pod → Pod → Bool :=
  lexLess (fun p => latestFirst (podReadyTime p))
    (lexLess (fun p => OrderDual.toDual (maxContainerRestarts p))
      (lexLess (fun p => latestFirst p.creationTime) fun _ _ => false))

theorem ageLess_eq {a b : Pod} (h : isConditionReady a=isConditionReady b) : ageLess a b=ageKeys a b := by
  unfold ageLess ageKeys
  rw [lexLess_latestFirst,lexLess_dual,lexLess_latestFirst]
  cases ha : isConditionReady a with
  | true => simp [← h,ha]
  | false =>
    have hb:=h.symm.trans ha
    simp [podReadyTime,ha,hb]

theorem strictWeak_ageKeys : StrictWeak ageKeys :=
  strictWeak_lexLess _ (strictWeak_lexLess _ (strictWeak_lexLess _ strictWeak_never))

def availableKey (availableFunc : Option (Pod → Bool)) (pod : Pod) : Bool :=
  availableFunc.any fun f => f pod

variable (availableFunc : Option (Pod → Bool))

theorem activePodsWithRanksLess_eq (rank : Pod → R) : activePodsWithRanksLess availableFunc rank =
      lexLess assigned (lexLess (fun p => phaseOrdinal p.phase)
        (lexLess (availableKey availableFunc) (lexLess isConditionReady
          (lexLess deletionCostOf (lexLess (fun p => OrderDual.toDual (rank p)) ageKeys))))) := by
  funext a b
  rw [lexLess_assigned,lexLess,lexLess_bool,lexLess_bool,lexLess,lexLess_dual]
  refine ite_congr rfl (fun _ => rfl) fun _ => ite_congr rfl (fun _ => rfl) fun _ => ?_
  refine ite_congr ?_ ?_ fun _ => ite_congr rfl (fun _ => rfl) fun hr =>
    ite_congr rfl (fun _ => rfl) fun _ => ite_congr rfl (fun _ => rfl) fun _ =>
      ageLess_eq (not_not.mp hr)
  · cases availableFunc <;> simp [availableKey]
  · intro hsome
    cases availableFunc with
    | none => exact absurd rfl hsome
    | some f => rfl

theorem strictWeak_activePodsWithRanksLess (rank : Pod → R) :
    StrictWeak (activePodsWithRanksLess availableFunc rank) := by
  rw [activePodsWithRanksLess_eq]
  have hr:=strictWeak_lexLess (fun p => OrderDual.toDual (rank p)) strictWeak_ageKeys
  have hrdy:=strictWeak_lexLess isConditionReady (strictWeak_lexLess deletionCostOf hr)
  exact strictWeak_lexLess _ (strictWeak_lexLess _ (strictWeak_lexLess _ hrdy))

theorem activePodsLess_eq :
    activePodsLess=lexLess assigned (lexLess (fun p => phaseOrdinal p.phase)
      (lexLess isConditionReady ageKeys)) := by
  funext a b
  rw [lexLess_assigned,lexLess,lexLess_bool]
  refine ite_congr rfl (fun _ => rfl) fun _ => ite_congr rfl (fun _ => rfl) fun _ => ?_
  exact ite_congr rfl (fun _ => rfl) fun hr => ageLess_eq (not_not.mp hr)

theorem strictWeak_activePodsLess : StrictWeak activePodsLess := by
  rw [activePodsLess_eq]
  exact strictWeak_lexLess _ (strictWeak_lexLess _ (strictWeak_lexLess _ strictWeak_ageKeys))

end

/-! ## Ranks of pods on the same node (`pod_sorter.go:174-200`) -/

def podsOnNode (pods : List Pod) (node : String) : List Pod := pods.filter (·.nodeName=node)

def nodesOf (pods : List Pod) : List String := ((pods.map (·.nodeName)).filter (· ≠ "")).dedup

/- The pods of one node but the last, the first with the highest rank. -/
def groupRanks (podsOnSameNode : List Pod) : List (String × Nat) :=
  podsOnSameNode.dropLast.zipIdx.map fun e => (e.1.uid,podsOnSameNode.dropLast.length-e.2)

/-- `NewSameNodeRanker`. `sortGroup` is the sort of the pods on one node. -/
def newSameNodeRanker (sortGroup : List Pod → List Pod) (pods : List Pod) : List (String × Nat) :=
  (nodesOf pods).flatMap fun node =>
    if (podsOnNode pods node).length≤1 then [] else groupRanks (sortGroup (podsOnNode pods node))

def getRank (podRanks : List (String × Nat)) (pod : Pod) : Nat :=
  (podRanks.lookup pod.uid).getD 0

end Kruise.CloneSet
