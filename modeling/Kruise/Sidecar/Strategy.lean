import Kruise.Sidecar.Protocol
import Kruise.UpdateSort.Priority
import Kruise.UpdateSort.ScatterPermutes
import Mathlib.Data.List.Induction

/-!
# Which pods a SidecarSet upgrades next

`GetNextUpgradePods` (`sidecarset_strategy.go` 39-231). The pods that wait are sorted, the partition
is cut off at the end, and of the rest as many are taken as `maxUnavailable` allows; pods that are
not ready do not count. Percentages are rounded down, so that a small one of few pods is no pod at
all.
-/

namespace Kruise.Sidecar

open Util.IntStr Util.Selector UpdateSort List

structure UpdateStrategy where
  selector : Option LabelSelector
  partition : Option IntOrString
  maxUnavailable : Option IntOrString
  priorityStrategy : Option UpdatePriorityStrategy
  scatterStrategy : List ScatterTerm

/-- What one call works with. `withoutImage` and `podWithoutImage` are the hashes without images in
the annotations, and `sortSlice` is `sort.Slice` by `GetPodsSortFunc`. -/
structure Upgrade where
  env : Externals
  set : SidecarSet
  strategy : UpdateStrategy
  withoutImage : String
  podWithoutImage : Pod → String
  floats : ScatterFloat
  sortSlice : List Pod → List Nat → List Nat
  sortSlice_perm : ∀ pods indexes,(sortSlice pods indexes).Perm indexes

def isPositiveIntOrPercent : IntOrString → Bool
  | .int k => 0≤k
  | .str s => s.toList.getLast?=some '%'&&s.toList.dropLast≠[] &&
      s.toList.dropLast.all Char.isDigit

structure AcceptedStrategy (s : UpdateStrategy) : Prop where
  partition : ∀ v,s.partition=some v → isPositiveIntOrPercent v
  maxUnavailable : ∀ v,s.maxUnavailable=some v → isPositiveIntOrPercent v

def resolved (v : Option IntOrString) (default : Int) (total : Nat) : Int :=
  match v with
  | none => default
  | some v => (getValueFromIntOrPercent v total false).getD 0

/-- The image that the empty container of this name has to have, or the empty text. -/
def emptyImageOf (set : SidecarSet) (pod : Pod) (name : String) : String :=
  (((set.containers.filter fun s =>
    s.hotUpgrade&&(getPodHotUpgradeContainers s.name pod).2=name).getLast?).map
      SidecarContainer.hotUpgradeEmptyImage).getD ""

def isPodReady (set : SidecarSet) (pod : Pod) : Bool :=
  pod.containers.all (fun c =>
    emptyImageOf set pod c.name = "" || c.image=emptyImageOf set pod c.name) &&
  pod.runningAndReady

def insertUpdateScatterTerm (scatter : List ScatterTerm) (term : ScatterTerm) : List ScatterTerm :=
  if term∈scatter then scatter else scatter++[term]

def matchScatterTerms (pods : List Pod) (key : String) : List ScatterTerm :=
  pods.filterMap fun pod => (pod.labels key).map fun value => ⟨key,value⟩

def parseUpdateScatterTerms (scatter : List ScatterTerm) (pods : List Pod) : List ScatterTerm :=
  scatter.foldl (fun acc term =>
    if term.value ≠ "*" then insertUpdateScatterTerm acc term
    else (matchScatterTerms pods term.key).foldl insertUpdateScatterTerm acc) []

def upgradeLoop (ready : Nat → Bool) (maxUnavailable : Int) : Int → List Nat → Nat
  | _,[] => 0
  | unavailable,i::rest =>
    if !ready i then upgradeLoop ready maxUnavailable unavailable rest+1
    else if unavailable ≥ maxUnavailable then 0
    else upgradeLoop ready maxUnavailable (unavailable+1) rest+1

namespace Upgrade

variable (u : Upgrade) (pods : List Pod) (pod : Pod)

def isUpdated : Bool := pod.hash u.set.name=u.env.getSidecarSetRevision u.set

def isSelected : Bool :=
  match u.strategy.selector with
  | none => true
  | some selector => selector.matches pod.labels

def canUpgrade : Bool := u.podWithoutImage pod=u.withoutImage

def isUpgradable : Bool :=
  u.canUpgrade pod&&isSidecarSetUpgradable u.env u.set pod

def waits : Bool := !u.isUpdated pod&&u.isSelected pod&&u.isUpgradable pod

def indexesOf (test : Pod → Bool) (pods : List Pod) : List Nat :=
  (range pods.length).filter fun i => (pods[i]?).any test

/-- A step that panics is `none`. -/
def sortUpdateIndexes (indexes : List Nat) : Option (List Nat) :=
  let labelsAt:=fun i => ((pods[i]?).map Pod.labels).getD fun _ => none
  scatterSort u.floats (parseUpdateScatterTerms u.strategy.scatterStrategy pods)
    (pods.map fun pod => some pod.labels)
    (prioritySort u.strategy.priorityStrategy labelsAt (u.sortSlice pods indexes))

def partition : Int := resolved u.strategy.partition 0 pods.length

def maxUnavailable : Int := resolved u.strategy.maxUnavailable 1 pods.length

def upgradeAndNotReady : Nat :=
  pods.countP fun pod =>
    u.isUpdated pod&&(!isPodStateConsistent u.env u.set pod []||!isPodReady u.set pod)

def calculateUpgradeCount (indexes : List Nat) (pods : List Pod) : Nat :=
  if (indexes.length : Int)-u.partition pods≤0 then 0
  else upgradeLoop (fun i => (pods[i]?).any (isPodReady u.set)) (u.maxUnavailable pods)
    (u.upgradeAndNotReady pods) (indexes.take (indexes.length-u.partition pods).toNat)

/-- The indexes of the pods to upgrade, and of those that cannot be. -/
def getNextUpgradePods : Option (List Nat × List Nat) :=
  (u.sortUpdateIndexes pods (indexesOf u.waits pods)).map fun sorted =>
    (sorted.take (u.calculateUpgradeCount sorted pods),
      indexesOf (fun pod => !u.isUpdated pod&&u.isSelected pod&&!u.canUpgrade pod) pods)

end Upgrade

theorem atoi_nonneg {s : String} {z : Int} (h : atoi s=some z) (hsign : '-'∉s.toList) : 0≤z := by
  obtain ⟨hv,_⟩ := Option.filter_eq_some_iff.mp h
  unfold parseDecimal at hv
  split at hv
  · rename_i heq
    exact absurd (heq ▸ mem_cons_self) hsign
  all_goals
    obtain ⟨n,hn,rfl⟩ := Option.map_eq_some_iff.mp hv
    obtain ⟨m,_,hm⟩ := Option.bind_eq_some_iff.mp hn
    exact Option.some.inj hm ▸ Int.natCast_nonneg m

theorem resolved_nonneg {v : Option IntOrString} {default : Int} (hdef : 0≤default)
    (h : ∀ w,v=some w → isPositiveIntOrPercent w) (total : Nat) : 0≤resolved v default total := by
  cases v with
  | none => exact hdef
  | some w =>
    have hw:=h w rfl
    cases w with
    | int k => simpa [resolved,getValueFromIntOrPercent,isPositiveIntOrPercent] using hw
    | str s =>
      simp only [isPositiveIntOrPercent,Bool.and_eq_true,decide_eq_true_eq,all_eq_true] at hw
      obtain ⟨⟨hl,_⟩,hd⟩ := hw
      obtain ⟨cs,hcs⟩ := getLast?_eq_some_iff.mp hl
      rw [hcs,dropLast_concat] at hd
      unfold resolved getValueFromIntOrPercent
      cases hz : atoi (String.ofList (s.toList.filter (· ≠ '%'))) with
      | none => exact le_of_eq (congrArg (Option.getD · 0) (congrArg (Option.map _) hz)).symm
      | some z =>
        have hn : 0≤z := by
          refine atoi_nonneg hz fun hm => ?_
          rw [String.toList_ofList,mem_filter,hcs] at hm
          rcases mem_append.mp hm.1 with hin | hin
          · exact absurd (hd _ hin) (by decide)
          · exact absurd hin (by decide)
        simp only [hz,Option.map_some,Option.getD_some,percentOf,Bool.false_eq_true,if_false]
        exact Int.ediv_nonneg (Int.mul_nonneg hn (Int.natCast_nonneg _)) (by decide)

section

variable (ready : Nat → Bool) (limit : Int)

theorem upgradeLoop_le (unavailable : Int) (xs : List Nat) : upgradeLoop ready limit unavailable xs≤xs.length := by
  induction xs generalizing unavailable with
  | nil => exact Nat.le_refl 0
  | cons x xs ih =>
    unfold upgradeLoop
    split_ifs
    · exact Nat.succ_le_succ (ih _)
    · exact Nat.zero_le _
    · exact Nat.succ_le_succ (ih _)

theorem countP_upgradeLoop (unavailable : Int) (xs : List Nat) :
    ((xs.take (upgradeLoop ready limit unavailable xs)).countP ready : Int) ≤ max 0 (limit-unavailable) := by
  induction xs generalizing unavailable with
  | nil => simp [upgradeLoop]
  | cons x xs ih =>
    unfold upgradeLoop
    split_ifs with hr hf
    · have hn : ¬ready x := by simpa using hr
      rw [take_succ_cons,countP_cons_of_neg hn]
      exact ih unavailable
    · simp
    · have hx : ready x := by simpa using hr
      have hrest:=ih (unavailable+1)
      rw [take_succ_cons,countP_cons_of_pos hx]
      omega

/-- When all are ready, as many are taken as the limit leaves. -/
theorem upgradeLoop_ready {xs : List Nat} (h : ∀ x∈xs,ready x) (unavailable : Int) :
    (upgradeLoop ready limit unavailable xs : Int) = min (xs.length : Int) (max 0 (limit-unavailable)) := by
  induction xs generalizing unavailable with
  | nil => simp [upgradeLoop]
  | cons x xs ih =>
    have hr:=ih (fun y hy => h y (mem_cons_of_mem _ hy)) (unavailable+1)
    unfold upgradeLoop
    rw [h x mem_cons_self]
    simp only [Bool.not_true,Bool.false_eq_true,if_false,length_cons]
    split_ifs <;> omega

end

namespace Upgrade

variable (u : Upgrade) {pods : List Pod}

theorem mem_indexesOf {test : Pod → Bool} {i : Nat} :
    i∈indexesOf test pods ↔ ∃ pod,pods[i]?=some pod ∧ test pod := by
  unfold indexesOf
  rw [mem_filter,mem_range,Option.any_eq_true]
  refine and_iff_right_of_imp ?_
  rintro ⟨pod,hpod,_⟩
  exact (List.getElem?_eq_some_iff.mp hpod).1

theorem nodup_indexesOf (test : Pod → Bool) : (indexesOf test pods).Nodup :=
  nodup_range.filter _

theorem length_indexesOf (test : Pod → Bool) : (indexesOf test pods).length=pods.countP test := by
  unfold indexesOf
  induction pods using reverseRecOn with
  | nil => rfl
  | append_singleton pods pod ih =>
    rw [length_append,length_singleton,range_succ,filter_append,length_append,countP_append,← ih]
    congr 1
    · refine congrArg List.length (filter_congr fun i hi => ?_)
      rw [getElem?_append_left (mem_range.mp hi)]
    · cases h : test pod <;> simp [h]

theorem sortUpdateIndexes_perm {indexes : List Nat} (hnd : indexes.Nodup) (hm : ∀ i∈indexes,i<pods.length) :
    ∃ sorted,u.sortUpdateIndexes pods indexes=some sorted ∧ sorted.Perm indexes := by
  have hprio:=(prioritySort_perm u.strategy.priorityStrategy
    (fun i => ((pods[i]?).map Pod.labels).getD fun _ => none) (u.sortSlice pods indexes)).trans
      (u.sortSlice_perm pods indexes)
  have hval : ValidIndexes (pods.map fun pod => some pod.labels) _ :=
    ⟨hprio.nodup_iff.mpr hnd,fun i hi => by simp [podLabels,hm i (hprio.mem_iff.mp hi)]⟩
  obtain ⟨sorted,hsrt,hperm⟩ := scatterSort_perm u.floats
    (parseUpdateScatterTerms u.strategy.scatterStrategy pods) hval
  exact ⟨sorted,hsrt,hperm.trans hprio⟩

/-- The sorted list of a call, and the part of it that is chosen. -/
theorem getNextUpgradePods_eq (pods : List Pod) :
    ∃ sorted rest,u.sortUpdateIndexes pods (indexesOf u.waits pods)=some sorted ∧
      sorted.Perm (indexesOf u.waits pods) ∧
      u.getNextUpgradePods pods = some (sorted.take (u.calculateUpgradeCount sorted pods),rest) := by
  obtain ⟨sorted,hsrt,hperm⟩ := u.sortUpdateIndexes_perm (nodup_indexesOf u.waits)
    fun i hi => mem_range.mp (mem_of_mem_filter hi)
  exact ⟨sorted,_,hsrt,hperm,by rw [getNextUpgradePods,hsrt]; rfl⟩

theorem calculateUpgradeCount_le (hpart : 0≤u.partition pods) (indexes : List Nat) :
    (u.calculateUpgradeCount indexes pods : Int) ≤ max 0 ((indexes.length : Int)-u.partition pods) := by
  unfold calculateUpgradeCount
  split_ifs with hn
  · exact le_max_left _ _
  · have hle:=upgradeLoop_le (fun i => (pods[i]?).any (isPodReady u.set)) (u.maxUnavailable pods)
      (u.upgradeAndNotReady pods) (indexes.take (indexes.length-u.partition pods).toNat)
    rw [length_take] at hle
    omega

/-- What one call promises of the pods it selects. -/
structure WithinBudget (pods : List Pod) (chosen : List Nat) : Prop where
  distinct : chosen.Nodup
  waiting : ∀ i∈chosen,∃ pod,pods[i]?=some pod ∧ u.isUpdated pod=false ∧
    u.isSelected pod ∧ u.isUpgradable pod
  budget : (chosen.countP (fun i => (pods[i]?).any (isPodReady u.set)) : Int) ≤
    max 0 (u.maxUnavailable pods-u.upgradeAndNotReady pods)
  left : min (pods.countP u.waits : Int) (u.partition pods) ≤
    pods.countP u.waits-chosen.length
  leftUnselected : min (pods.countP fun pod => !u.isUpdated pod&&u.isUpgradable pod : Int)
      (u.partition pods) ≤
    (pods.countP fun pod => !u.isUpdated pod&&u.isUpgradable pod : Int)-chosen.length
  firsts : ∃ sorted,u.sortUpdateIndexes pods (indexesOf u.waits pods)=some sorted ∧
    chosen <+: sorted

/-- A call of `GetNextUpgradePods` for an accepted strategy returns and keeps to its budget. -/
theorem getNextUpgradePods_within_budget (haccepted : AcceptedStrategy u.strategy) (pods : List Pod) :
    ∃ chosen rest,u.getNextUpgradePods pods=some (chosen,rest) ∧ u.WithinBudget pods chosen := by
  obtain ⟨sorted,rest,hsrt,hperm,hn⟩ := u.getNextUpgradePods_eq pods
  have hpart : 0≤u.partition pods :=
    resolved_nonneg (le_refl 0) haccepted.partition pods.length
  have hlen : (sorted.length : Int)=pods.countP u.waits := by
    rw [hperm.length_eq,length_indexesOf]
  have hcnt:=u.calculateUpgradeCount_le hpart sorted
  have htk : ((sorted.take (u.calculateUpgradeCount sorted pods)).length : Int) ≤
      max 0 ((pods.countP u.waits : Int)-u.partition pods) := by
    rw [length_take]
    omega
  have hwt : pods.countP u.waits ≤ pods.countP fun pod => !u.isUpdated pod&&u.isUpgradable pod := by
    refine countP_mono_left fun pod _ hpod => ?_
    simp only [waits,Bool.and_eq_true] at hpod ⊢
    exact ⟨hpod.1.1,hpod.2⟩
  refine ⟨_,rest,hn,(hperm.nodup_iff.mpr (nodup_indexesOf _)).sublist
    (take_sublist _ _),?_,?_,?_,?_,sorted,hsrt, take_prefix _ _⟩
  · intro i hi
    obtain ⟨pod,hpod,hw⟩ := mem_indexesOf.mp (hperm.mem_iff.mp (mem_of_mem_take hi))
    simp only [waits,Bool.and_eq_true,Bool.not_eq_true'] at hw
    exact ⟨pod,hpod,hw.1.1,hw.1.2,hw.2⟩
  · unfold calculateUpgradeCount
    split_ifs with hnone
    · simp
    · have hl:=countP_upgradeLoop (fun i => (pods[i]?).any (isPodReady u.set))
        (u.maxUnavailable pods) (u.upgradeAndNotReady pods)
        (sorted.take (sorted.length-u.partition pods).toNat)
      rwa [take_take,min_eq_left] at hl
      have hle:=upgradeLoop_le (fun i => (pods[i]?).any (isPodReady u.set))
        (u.maxUnavailable pods) (u.upgradeAndNotReady pods)
        (sorted.take (sorted.length-u.partition pods).toNat)
      rw [length_take] at hle
      omega
  · omega
  · omega

def agentSet : SidecarSet :=
  {meshSet with containers := [⟨"agent", "v2",false, "",.beforeAppContainer⟩]}

def agentPod : Pod :=
  {webPod with
    containers := [⟨"web", "web"⟩,⟨"agent", "v1"⟩]
    statuses := [⟨"web",true, "web", "id-web"⟩,⟨"agent",true, "v1", "id-1"⟩]
    runningAndReady := true}

def agentUpgrade (maxUnavailable : IntOrString) : Upgrade where
  env := tagImages
  set := agentSet
  strategy := ⟨none,none,some maxUnavailable,none,[]⟩
  withoutImage := ""
  podWithoutImage := fun _ => ""
  floats := exactFloat
  sortSlice := fun _ indexes => indexes
  sortSlice_perm := fun _ _ => Perm.refl _

theorem agentUpgrade_accepted {v : IntOrString} (h : isPositiveIntOrPercent v) :
    AcceptedStrategy (agentUpgrade v).strategy where
  partition := fun _ hv => absurd hv (Option.some_ne_none _).symm
  maxUnavailable := fun _ hv => Option.some.inj hv ▸ h

theorem two_of_three_agents :
    (agentUpgrade (.int 2)).getNextUpgradePods (replicate 3 agentPod)=some ([0,1],[]) ∧
      ∃ chosen rest,(agentUpgrade (.int 2)).getNextUpgradePods (replicate 3 agentPod) = some (chosen,rest) ∧
        (agentUpgrade (.int 2)).WithinBudget (replicate 3 agentPod) chosen :=
  ⟨by decide +kernel,getNextUpgradePods_within_budget _ (agentUpgrade_accepted (by decide)) _⟩

end Upgrade

end Kruise.Sidecar
