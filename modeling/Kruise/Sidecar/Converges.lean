import Kruise.Sidecar.Strategy

/-!
# Rounds of a SidecarSet rollout

One round upgrades the pods that `GetNextUpgradePods` chooses; before the next one they are ready
and consistent again. The API text of `maxUnavailable` promises rounding up (`sidecarset_types.go`
252-263), and `calculateUpgradeCount` rounds down.
-/

namespace Kruise.Sidecar.Upgrade

open Util.IntStr List Option

variable (u : Upgrade)

/-- A ready pod that is updated and consistent, or upgradable. -/
structure Settled (pod : Pod) : Prop where
  ready : isPodReady u.set pod
  state : (if u.isUpdated pod then isPodStateConsistent u.env u.set pod []
    else u.isUpgradable pod)=true

/-- A chosen pod is upgraded and settles, every other one stays as it is. -/
def Advances (chosen : List Nat) (i : Nat) (pod pod' : Pod) : Prop :=
  if i∈chosen then pod'.hash=(updatePodSidecarContainer u.env u.set pod).hash ∧ u.Settled pod'
  else pod'=pod

def Round (pods pods' : List Pod) : Prop :=
  ∃ chosen rest,u.getNextUpgradePods pods=some (chosen,rest) ∧ pods'.length=pods.length ∧
    ∀ i pod,pods[i]?=some pod → ∃ pod',pods'[i]?=some pod' ∧ u.Advances chosen i pod pod'

/-- Every sequence of rounds comes to rest with as many updated pods as the partition allows. -/
def Converges (pods : List Pod) : Prop :=
  ∀ run : Nat → List Pod,run 0=pods → (∀ k,u.Round (run k) (run (k+1))) →
    ∃ K,∀ k ≥ K,run k=run K ∧ ((run k).countP u.isUpdated : Int) =
      max (pods.countP u.isUpdated : Int) (pods.length-u.partition pods)

/-- The limit is at least one pod of `n`. -/
def AllowsOne (n : Nat) : Prop :=
  match u.strategy.maxUnavailable with
  | none => True
  | some (.int k) => 1≤k
  | some (.str s) => ∃ v,atoi (String.ofList (s.toList.filter (· ≠ '%')))=some v ∧ 100≤v*n

theorem allowsOne_iff (pods : List Pod) : u.AllowsOne pods.length ↔ 1≤u.maxUnavailable pods := by
  unfold AllowsOne maxUnavailable resolved
  cases u.strategy.maxUnavailable with
  | none => simp
  | some v =>
    cases v with
    | int k => exact Iff.rfl
    | str s =>
      dsimp only [getValueFromIntOrPercent]
      cases atoi (String.ofList (s.toList.filter (· ≠ '%'))) with
      | none => simp
      | some z =>
        simp only [some.injEq,exists_eq_left',map_some,getD_some,percentOf, Bool.false_eq_true,if_false]
        omega

variable {u} {pods pods' : List Pod}

section

variable (hselector : u.strategy.selector=none) (hsettled : ∀ pod∈pods,u.Settled pod)
include hselector hsettled

theorem countP_waits : (pods.countP u.waits : Int)=pods.length-pods.countP u.isUpdated := by
  have hwt : pods.countP u.waits=pods.countP fun pod => !u.isUpdated pod := by
    refine countP_congr fun pod hpod => ?_
    have hst:=(hsettled pod hpod).state
    cases hu : u.isUpdated pod <;> simp_all [waits,isSelected]
  have hspl : pods.length=pods.countP u.isUpdated+pods.countP fun pod => !u.isUpdated pod := by
    simpa using length_eq_countP_add_countP u.isUpdated (l := pods)
  omega

/-- As many pods are chosen as the partition leaves and the limit allows. -/
theorem length_chosen (hpart : 0≤u.partition pods) {chosen rest : List Nat}
    (h : u.getNextUpgradePods pods=some (chosen,rest)) :
    (chosen.length : Int)=min (max 0 (pods.length-pods.countP u.isUpdated-u.partition pods))
        (max 0 (u.maxUnavailable pods)) := by
  obtain ⟨sorted,rest',_,hperm,hn⟩ := u.getNextUpgradePods_eq pods
  obtain ⟨rfl,-⟩ := Prod.mk.inj (some.inj (h.symm.trans hn))
  have hlen : (sorted.length : Int)=pods.length-pods.countP u.isUpdated := by
    rw [hperm.length_eq,length_indexesOf,countP_waits hselector hsettled]
  have hqt : u.upgradeAndNotReady pods=0 := by
    refine countP_eq_zero.mpr fun pod hpod => ?_
    have hst:=(hsettled pod hpod).state
    cases hu : u.isUpdated pod <;> simp_all [(hsettled pod hpod).ready]
  have hr : ∀ i∈sorted.take (sorted.length-u.partition pods).toNat,
      (fun i => (pods[i]?).any (isPodReady u.set)) i := by
    intro i hi
    obtain ⟨pod,hpod,_⟩ := mem_indexesOf.mp (hperm.mem_iff.mp (mem_of_mem_take hi))
    simp [hpod,(hsettled pod (mem_of_getElem? hpod)).ready]
  have hl:=upgradeLoop_ready _ (u.maxUnavailable pods) hr (u.upgradeAndNotReady pods)
  rw [length_take,hqt] at hl
  rw [length_take]
  unfold calculateUpgradeCount
  split_ifs with hnone
  · omega
  · rw [hqt]
    omega

theorem Round.step (h : u.Round pods pods') (hpart : 0≤u.partition pods) :
    (∀ pod∈pods',u.Settled pod) ∧ pods'.length=pods.length ∧
      (pods'.countP u.isUpdated : Int)=pods.countP u.isUpdated +
        min (max 0 (pods.length-pods.countP u.isUpdated-u.partition pods)) (max 0 (u.maxUnavailable pods)) := by
  obtain ⟨chosen,rest,hn,hl,hpods⟩ := h
  have hback : ∀ i pod',pods'[i]?=some pod' → ∃ pod,pods[i]?=some pod ∧ u.Advances chosen i pod pod' := by
    intro i pod' hpod'
    have hi : i<pods.length := hl ▸ (List.getElem?_eq_some_iff.mp hpod').1
    obtain ⟨pod'',hpod'',ha⟩ := hpods i _ (getElem?_eq_getElem hi)
    obtain rfl := some.inj (hpod'.symm.trans hpod'')
    exact ⟨_,getElem?_eq_getElem hi,ha⟩
  refine ⟨?_,hl,?_⟩
  · intro pod' hm
    obtain ⟨i,hi⟩ := mem_iff_getElem?.mp hm
    obtain ⟨pod,hpod,ha⟩ := hback i pod' hi
    unfold Advances at ha
    split_ifs at ha
    · exact ha.2
    · exact ha ▸ hsettled pod (mem_of_getElem? hpod)
  · rw [← length_chosen hselector hsettled hpart hn]
    obtain ⟨sorted,rest',_,hperm,hn'⟩ := u.getNextUpgradePods_eq pods
    obtain ⟨hcho,-⟩ := Prod.mk.inj (some.inj (hn.symm.trans hn'))
    have hf : ∀ i∈chosen,∃ pod,pods[i]?=some pod ∧ u.isUpdated pod=false := by
      intro i hi
      rw [hcho] at hi
      obtain ⟨pod,hpod,hwt⟩ := mem_indexesOf.mp (hperm.mem_iff.mp (mem_of_mem_take hi))
      simp only [waits,Bool.and_eq_true,Bool.not_eq_true'] at hwt
      exact ⟨pod,hpod,hwt.1.1⟩
    -- the updated pods are those from before and the chosen ones
    have hunion : (indexesOf u.isUpdated pods').Perm (indexesOf u.isUpdated pods++chosen) := by
      have hnd : (indexesOf u.isUpdated pods++chosen).Nodup := by
        refine nodup_append.mpr ⟨nodup_indexesOf _,hcho ▸
          (hperm.nodup_iff.mpr (nodup_indexesOf _)).sublist (take_sublist _ _),?_⟩
        rintro i hi _ hi' rfl
        obtain ⟨pod,hpod,hu⟩ := mem_indexesOf.mp hi
        obtain ⟨pod',hpod',hnot⟩ := hf i hi'
        rw [some.inj (hpod'.symm.trans hpod),hu] at hnot
        cases hnot
      refine (perm_ext_iff_of_nodup (nodup_indexesOf _) hnd).mpr fun i => ?_
      rw [mem_append,mem_indexesOf,mem_indexesOf]
      constructor
      · rintro ⟨pod',hpod',hu⟩
        obtain ⟨pod,hpod,ha⟩ := hback i pod' hpod'
        unfold Advances at ha
        split_ifs at ha with hin
        · exact .inr hin
        · exact .inl ⟨pod,hpod,ha ▸ hu⟩
      · rintro (⟨pod,hpod,hu⟩ | hin)
        · obtain ⟨pod',hpod',ha⟩ := hpods i pod hpod
          refine ⟨pod',hpod',?_⟩
          unfold Advances at ha
          split_ifs at ha with hin
          · obtain ⟨pod'',hpod'',hnot⟩ := hf i hin
            rw [some.inj (hpod''.symm.trans hpod),hu] at hnot
            cases hnot
          · rw [ha]
            exact hu
        · obtain ⟨pod,hpod,_⟩ := hf i hin
          obtain ⟨pod',hpod',ha⟩ := hpods i pod hpod
          rw [Advances,if_pos hin] at ha
          refine ⟨pod',hpod',?_⟩
          simp [isUpdated,ha.1,updatePodSidecarContainer,updatePodAnnotationsInUpgrade, updatePodSidecarSetHash]
    have hcnt:=hunion.length_eq
    rw [length_append,length_indexesOf,length_indexesOf] at hcnt
    omega

theorem Round.eq_of_none (h : u.Round pods pods') (hpart : 0≤u.partition pods)
    (hnone : min (max 0 (pods.length-pods.countP u.isUpdated-u.partition pods))
      (max 0 (u.maxUnavailable pods))=0) : pods'=pods := by
  obtain ⟨chosen,rest,hn,hl,hpods⟩ := h
  have hz:=length_chosen hselector hsettled hpart hn
  obtain rfl : chosen=[] := eq_nil_of_length_eq_zero (by omega)
  refine ext_getElem? fun i => ?_
  cases hpod : pods[i]? with
  | none =>
    rw [getElem?_eq_none_iff] at hpod ⊢
    omega
  | some pod =>
    obtain ⟨pod',hpod',rfl⟩ := hpods i pod hpod
    exact hpod'

end

/-- A rollout without selector over settled pods converges exactly if the limit is at least one of
the pods when a percentage is rounded down, or there is nothing to be updated. -/
theorem rollout_converges_iff (haccepted : AcceptedStrategy u.strategy)
    (hselector : u.strategy.selector=none) (hsettled : ∀ pod∈pods,u.Settled pod) :
    u.Converges pods ↔ u.AllowsOne pods.length ∨ (pods.length : Int)-u.partition pods≤pods.countP u.isUpdated := by
  have hparti : 0≤u.partition pods :=
    resolved_nonneg (le_refl 0) haccepted.partition pods.length
  rw [u.allowsOne_iff]
  constructor
  · intro hconv
    by_contra hnot
    have hstuck : u.Round pods pods := by
      obtain ⟨sorted,rest,_,_,hn⟩ := u.getNextUpgradePods_eq pods
      have hz:=length_chosen hselector hsettled hparti hn
      have hnil : sorted.take (u.calculateUpgradeCount sorted pods)=[] :=
        eq_nil_of_length_eq_zero (by omega)
      rw [hnil] at hn
      exact ⟨[],rest,hn,rfl,fun i pod hpod => ⟨pod,hpod,rfl⟩⟩
    obtain ⟨K,hK⟩ := hconv (fun _ => pods) rfl fun _ => hstuck
    have hcnt:=(hK K (le_refl K)).2
    omega
  · intro hcond run hsta hr
    -- each round brings the number of updated pods closer to the target
    have hrun : ∀ k,(∀ pod∈run k,u.Settled pod) ∧ (run k).length=pods.length ∧
        (pods.countP u.isUpdated : Int)≤(run k).countP u.isUpdated ∧
        min ((pods.length : Int)-u.partition pods) (pods.countP u.isUpdated+k) ≤ (run k).countP u.isUpdated ∧
        ((run k).countP u.isUpdated : Int) ≤
          max (pods.countP u.isUpdated : Int) (pods.length-u.partition pods) := by
      intro k
      induction k with
      | zero =>
        rw [hsta]
        exact ⟨hsettled,rfl,le_refl _,by simp,le_max_left _ _⟩
      | succ k ih =>
        obtain ⟨hset,hl,hlow,hg,hh⟩ := ih
        have hpart : u.partition (run k)=u.partition pods := by rw [partition,partition,hl]
        have hlim : u.maxUnavailable (run k)=u.maxUnavailable pods := by
          rw [maxUnavailable,maxUnavailable,hl]
        obtain ⟨hset',hl',hcnt⟩ :=
          (hr k).step hselector hset (hpart ▸ hparti)
        refine ⟨hset',hl'.trans hl,?_,?_,?_⟩ <;> push_cast <;> omega
    have hd : ∀ k ≥ pods.length,((run k).countP u.isUpdated : Int) =
        max (pods.countP u.isUpdated : Int) (pods.length-u.partition pods) := by
      intro k hk
      obtain ⟨_,_,hlow,hg,hh⟩ := hrun k
      omega
    refine ⟨pods.length,fun k hk => ⟨?_,hd k hk⟩⟩
    induction k,hk using Nat.le_induction with
    | base => rfl
    | succ k hk ih =>
      obtain ⟨hset,hl,_⟩ := hrun k
      have hpart : u.partition (run k)=u.partition pods := by rw [partition,partition,hl]
      refine ((hr k).eq_of_none hselector hset (hpart ▸ hparti) ?_).trans ih
      omega

theorem agentPod_settled (v : IntOrString) (n : Nat) :
    ∀ pod∈List.replicate n agentPod,(agentUpgrade v).Settled pod := by
  intro pod hpod
  have hsettled : (agentUpgrade (.int 1)).Settled agentPod := ⟨by decide +kernel,by decide +kernel⟩
  rw [eq_of_mem_replicate hpod]
  exact ⟨hsettled.ready,hsettled.state⟩

/-- One percent of ten pods is no pod: an accepted rollout that never starts. -/
theorem one_percent_never_starts :
    AcceptedStrategy (agentUpgrade (.str "1%")).strategy ∧
      (∀ pod∈List.replicate 10 agentPod,(agentUpgrade (.str "1%")).Settled pod) ∧
      ¬(agentUpgrade (.str "1%")).Converges (replicate 10 agentPod) := by
  refine ⟨agentUpgrade_accepted (by decide),agentPod_settled _ 10,fun hconv => ?_⟩
  have hstuck : (agentUpgrade (.str "1%")).Round (replicate 10 agentPod) (replicate 10 agentPod) :=
    ⟨[],[],by decide +kernel,rfl,fun i pod hpod => ⟨pod,hpod,rfl⟩⟩
  obtain ⟨K,hK⟩ := hconv (fun _ => replicate 10 agentPod) rfl fun _ => hstuck
  exact absurd (hK K (le_refl K)).2 (by decide +kernel)

theorem ten_percent_converges : (agentUpgrade (.str "10%")).Converges (replicate 10 agentPod) :=
  (rollout_converges_iff (agentUpgrade_accepted (by decide)) rfl (agentPod_settled _ 10)).mpr
    (.inl ⟨10,by decide +kernel,by decide⟩)

end Kruise.Sidecar.Upgrade
