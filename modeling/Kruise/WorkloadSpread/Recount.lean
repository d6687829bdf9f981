import Kruise.WorkloadSpread.Types
import Mathlib.Data.List.Perm.Subperm

/-!
# What the controller's recount makes of pods and records

Every active pod takes a replica from what is missing and every one with a deletion record gives
one back, both cut off. They cancel out unless a pod with a record is met when nothing is missing:
it gives back a replica that another pod holds. `creditsInTime` says that this does not happen.
-/

namespace Kruise.WorkloadSpread

open Util Util.IntStr List

/- Along the list, with `room` replicas missing at its head. -/
def creditsInTime (deleting : Records) : Int → List Pod → Bool
  | _,[] => true
  | room,p::ps =>
    if !p.active then creditsInTime deleting room ps
    else if p.name∈deleting then 0<room&&creditsInTime deleting room ps
    else creditsInTime deleting (if room > 0 then room-1 else room) ps

def occupied (deleting : Records) (pods : List Pod) : Nat :=
  pods.countP fun p => p.active&&!decide (p.name∈deleting)

/- A deletion of the pod is recorded and its record still counts. -/
def deletionPending (now : Int) (deleting : Records) (p : Pod) : Bool :=
  (deleting.lookup p.name).any fun time => !expired deletePodTimeout now time

section

variable (now maxReplicas : Int) (oldDeleting : Records) (t : Tally) (p : Pod)

theorem tallyPod_creating : (tallyPod now maxReplicas oldDeleting t p).creating=t.creating.erase p.key := by
  unfold tallyPod
  split_ifs
  · rfl
  · split
    · rfl
    · split_ifs <;> rfl

theorem mem_tallyPod_deleting {n : String} : n∈(tallyPod now maxReplicas oldDeleting t p).deleting ↔
    n∈t.deleting ∨ p.active ∧ deletionPending now oldDeleting p ∧ p.name=n := by
  unfold tallyPod deletionPending
  cases p.active with
  | false => simp
  | true =>
    cases oldDeleting.lookup p.name with
    | none => simp
    | some time => cases he : expired deletePodTimeout now time <;> simp [he,eq_comm,or_comm]

theorem foldl_tallyPod_creating (pods : List Pod) :
    (pods.foldl (tallyPod now maxReplicas oldDeleting) t).creating.entries.Sublist t.creating.entries ∧
      ∀ k,k∈(pods.foldl (tallyPod now maxReplicas oldDeleting) t).creating ↔ k∈t.creating ∧ ∀ p∈pods,p.key≠k := by
  induction pods generalizing t with
  | nil => simp
  | cons p pods ih =>
    rw [foldl_cons]
    obtain ⟨hsub,hm⟩ := ih (tallyPod now maxReplicas oldDeleting t p)
    rw [tallyPod_creating] at hsub
    refine ⟨hsub.trans (kerase_sublist _ _),?_⟩
    intro k
    rw [hm k,tallyPod_creating,AList.mem_erase,forall_mem_cons,ne_comm,and_assoc,and_left_comm]

theorem foldl_tallyPod_deleting (pods : List Pod) (n : String) :
    n∈(pods.foldl (tallyPod now maxReplicas oldDeleting) t).deleting ↔
      n∈t.deleting ∨ ∃ p∈pods,p.active ∧ deletionPending now oldDeleting p ∧ p.name=n := by
  induction pods generalizing t with
  | nil => simp
  | cons p pods ih => rw [foldl_cons,ih,mem_tallyPod_deleting,exists_mem_cons_iff,or_assoc]

variable {maxReplicas t}

theorem tallyPod_missing (hn : 0≤t.missing) (hle : t.missing ≤ maxReplicas) :
    (tallyPod now maxReplicas oldDeleting t p).missing =
      if !p.active then t.missing
      else if deletionPending now oldDeleting p then max t.missing (min 1 maxReplicas)
      else max 0 (t.missing-1) := by
  unfold tallyPod deletionPending
  cases p.active with
  | false => rfl
  | true =>
    cases oldDeleting.lookup p.name with
    | none => grind
    | some time => cases he : expired deletePodTimeout now time <;> grind

variable {now oldDeleting} (hf : noneExpired deletePodTimeout now oldDeleting)
include hf

theorem deletionPending_iff : deletionPending now oldDeleting p ↔ p.name∈oldDeleting := by
  unfold deletionPending
  rw [← AList.lookup_isSome]
  cases ht : oldDeleting.lookup p.name with
  | none => rfl
  | some time => simp [expired_of_noneExpired hf ht]

theorem foldl_tallyPod_missing (pods : List Pod) (hnonneg : 0≤t.missing) (hle : t.missing ≤ maxReplicas)
    (hcrd : maxReplicas=0 ∨ creditsInTime oldDeleting t.missing pods) :
    (pods.foldl (tallyPod now maxReplicas oldDeleting) t).missing =
      max 0 (t.missing-occupied oldDeleting pods) := by
  induction pods generalizing t with
  | nil => simp [occupied,hnonneg]
  | cons p pods ih =>
    have hstep:=tallyPod_missing now oldDeleting p hnonneg hle
    simp only [deletionPending_iff p hf] at hstep
    unfold creditsInTime at hcrd
    unfold occupied at ih ⊢
    rw [foldl_cons,countP_cons,ih]
    all_goals
      rw [hstep]
      grind

end

theorem foldl_tallyCreating_missing (now : Int) (entries : List (Sigma fun _ : String => Int))
    (acc : Records × Int) (hnonneg : 0≤acc.2) :
    (entries.foldl (tallyCreating now) acc).2 =
      max 0 (acc.2-entries.countP fun e => !expired creatPodTimeout now e.2) := by
  induction entries generalizing acc with
  | nil => simp [hnonneg]
  | cons e entries ih =>
    rw [foldl_cons,countP_cons]
    unfold tallyCreating
    cases he : expired creatPodTimeout now e.2 with
    | true =>
      exact ih acc hnonneg
    | false =>
      simp only [Bool.false_eq_true,if_false,Bool.not_false,if_true]
      have hn : 0 ≤ if acc.2 > 0 then acc.2-1 else acc.2 := by
        split_ifs <;> omega
      refine (ih _ hn).trans ?_
      split_ifs <;> omega

theorem foldl_tallyCreating_keys {now : Int} (entries : List (Sigma fun _ : String => Int))
    (acc : Records × Int) (hf : ∀ e∈entries,expired creatPodTimeout now e.2=false) (k : String) :
    k∈(entries.foldl (tallyCreating now) acc).1 ↔ k∈acc.1 ∨ k∈entries.map Sigma.fst := by
  induction entries generalizing acc with
  | nil => simp
  | cons e entries ih =>
    rw [foldl_cons,ih _ fun x hx => hf x (mem_cons_of_mem e hx),tallyCreating,hf e mem_cons_self]
    simp only [Bool.false_eq_true,if_false]
    rw [AList.mem_insert,map_cons,mem_cons,or_assoc,or_left_comm]

structure Unexpired (now : Int) (s : SubsetStatus) : Prop where
  creating : noneExpired creatPodTimeout now s.creatingPods
  deleting : noneExpired deletePodTimeout now s.deletingPods

structure RecountOf (maxReplicas : Int) (old : SubsetStatus) (pods : List Pod) (st : SubsetStatus) : Prop where
  creating : ∀ k,k∈st.creatingPods ↔ k∈old.creatingPods ∧ ∀ p∈pods,p.key≠k
  deleting : ∀ n,n∈st.deletingPods ↔
    n∈old.deletingPods ∧ ∃ p∈pods,p.active ∧ p.name=n
  nonneg : 0 ≤ st.missingReplicas
  missing : ∀ keys : List String,keys.Nodup → (∀ k∈keys,k∈st.creatingPods) →
    st.missingReplicas ≤ max 0 (maxReplicas-occupied old.deletingPods pods-keys.length)

theorem calculateWorkloadSpreadSubsetStatus_spec {now workloadReplicas maxReplicas : Int}
    {pods : List Pod} {s : SubsetSpec} {old st : SubsetStatus} (hmax : 0 ≤ maxReplicas)
    (hspec : subsetMaxReplicas s workloadReplicas=some maxReplicas) (hf : Unexpired now old)
    (hcrd : maxReplicas=0 ∨ creditsInTime old.deletingPods maxReplicas pods)
    (h : calculateWorkloadSpreadSubsetStatus now pods s (some old) workloadReplicas=some st) :
    st.name=s.name ∧ RecountOf maxReplicas old pods st := by
  unfold calculateWorkloadSpreadSubsetStatus at h
  rw [hspec] at h
  simp only [Option.map_some,Option.getD_some,Option.some.injEq] at h
  have hm:=foldl_tallyPod_missing (t := ⟨old.creatingPods,∅,maxReplicas,0⟩) hf.deleting pods
    hmax (Int.le_refl _) hcrd
  obtain ⟨hsub,hcre⟩ := foldl_tallyPod_creating now maxReplicas old.deletingPods
    ⟨old.creatingPods,∅,maxReplicas,0⟩ pods
  have hd:=foldl_tallyPod_deleting now maxReplicas old.deletingPods ⟨old.creatingPods,∅,maxReplicas,0⟩ pods
  generalize pods.foldl (tallyPod now maxReplicas old.deletingPods)
    ⟨old.creatingPods,∅,maxReplicas,0⟩=t at h hm hsub hcre hd
  have hents : ∀ e∈t.creating.entries,expired creatPodTimeout now e.2=false := by
    intro e he
    simpa using all_eq_true.mp hf.creating e (hsub.subset he)
  have hr:=foldl_tallyCreating_missing now t.creating.entries (∅,t.missing) (by rw [hm]; exact le_max_left _ _)
  rw [countP_eq_length.mpr (by simpa using hents)] at hr
  subst h
  have hmem : ∀ k,k∈(t.creating.entries.foldl (tallyCreating now) (∅,t.missing)).1 ↔ k∈t.creating := by
    intro k
    rw [foldl_tallyCreating_keys _ _ hents]
    simp only [AList.notMem_empty,false_or]
    exact Iff.rfl
  refine ⟨rfl,?_,?_,?_,?_⟩
  · intro k
    rw [← hcre k]
    exact hmem k
  · intro n
    rw [hd n]
    simp only [AList.notMem_empty,false_or,deletionPending_iff _ hf.deleting]
    grind
  · rw [hr]
    exact le_max_left _ _
  · intro keys hnd ha
    have hsubs : keys ⊆ t.creating.entries.map Sigma.fst := by
      intro k hk
      exact (hmem k).mp (ha k hk)
    have hl:=(hnd.subperm hsubs).length_le
    rw [length_map] at hl
    dsimp only at hm ⊢
    omega

end Kruise.WorkloadSpread
