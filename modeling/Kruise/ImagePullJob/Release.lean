import Kruise.ImagePullJob.Secrets
import Kruise.Lib.Transition

/-!
# Runs of attempts to release a job's secrets

Under replies that can be repeated every copy is either untouched or released. That a loop does
not stop early and no attempt loses a copy is a condition on the state before each attempt.
-/

namespace Kruise.ImagePullJob

open Lib.Keyed Lib.Transition List

variable {job : Owner} {c : Copy} {copies : List Copy}

/- No copy for a job in the namespace of the copies, one copy for a source, the copies that other
jobs need at the end of the loops, and for a copy that only this job needs replies that can be
repeated. -/
structure Careful (job : Owner) (s : Config) (a : Attempt) : Prop where
  outside : job.key.ns=daemonConfigNamespace → ∀ t∈s.targets,heldBy job t=false
  ownUID : ∀ wanted,((heldTargets job wanted s.targets).map Secret.sourceUID).Nodup
  sharedLast : ∀ wanted,∀ t∈(a.visit (heldTargets job wanted s.targets)).dropLast,
    referenceSet t.references=[job.key]
  replies : ∀ t∈s.targets,heldBy job t → Repeatable job a t

structure SecretsInv (job : Owner) (copies : List Copy) (s : Config) : Prop where
  names : (s.targets.map Secret.name).Nodup
  known : s.targets.map Secret.name ⊆ copies.map Copy.name
  kept : ∀ c∈copies,Kept job.key c (findKey Secret.name c.name s.targets)
  released : s.released →
    ∀ c∈copies,Released job.key c (findKey Secret.name c.name s.targets)

variable {s : Config} {a : Attempt} {targets : List Secret} {t : Secret}

theorem SecretsInv.copy_of_mem (h : SecretsInv job copies s) (ht : t∈s.targets) :
    ∃ c∈copies,findKey Secret.name c.name s.targets=some t := by
  obtain ⟨c,hc,hn⟩ := mem_map.mp (h.known (mem_map_of_mem ht))
  exact ⟨c,hc,hn ▸ findKey_of_mem h.names ht⟩

theorem SecretsInv.untouched (h : SecretsInv job copies s) (ht : t∈s.targets)
    (hh : heldBy job t) : ∃ c∈copies,IsFor job c ∧ t=c.stored c.jobs := by
  obtain ⟨c,hc,hf⟩ := h.copy_of_mem ht
  rcases hf ▸ h.kept c hc with hsto | hr
  · cases hsto
    exact ⟨c,hc,(heldBy_stored (.refl _) c.nodup).mp hh,rfl⟩
  · rw [heldBy_of_released hr] at hh
    cases hh

theorem bySourceUID_eq (h : (targets.map Secret.sourceUID).Nodup) : bySourceUID targets=targets :=
  pwFilter_eq_self.mpr (pairwise_map.mp h)

theorem mem_heldTargets {wanted : Bool} : t∈heldTargets job wanted targets ↔
      t∈targets ∧ heldBy job t ∧ isWanted job t=wanted := by
  unfold heldTargets
  rw [mem_filter,Bool.and_eq_true,beq_iff_eq]

theorem SecretsInv.visits (h : SecretsInv job copies s) (hcar : Careful job s a) (wanted : Bool) :
    Visits job copies a (a.visit (heldTargets job wanted s.targets)) s.targets := by
  have hperm:=a.visit_perm (heldTargets job wanted s.targets)
  have hh : ∀ t∈a.visit (heldTargets job wanted s.targets), t∈s.targets ∧ heldBy job t := by
    intro t ht
    obtain ⟨hmem,hh,-⟩ := mem_heldTargets.mp (hperm.subset ht)
    exact ⟨hmem,hh⟩
  refine ⟨?_,?_,?_,?_,hcar.sharedLast wanted⟩
  · exact (hperm.map _).nodup_iff.mpr ((filter_sublist.map _).nodup h.names)
  · intro t ht
    exact h.untouched (hh t ht).1 (hh t ht).2
  · intro t ht
    exact findKey_of_mem h.names (hh t ht).1
  · intro t ht
    exact hcar.replies t (hh t ht).1 (hh t ht).2

structure SyncSpec (job : Owner) (copies : List Copy) (before : List Secret)
    (after : List Secret × Bool) : Prop where
  names : (after.1.map Secret.name).Sublist (before.map Secret.name)
  kept : ∀ c∈copies,Kept job.key c (findKey Secret.name c.name after.1)
  released : after.2 → ∀ c∈copies,
    Released job.key c (findKey Secret.name c.name after.1)

theorem SecretsInv.released_of_unheld (h : SecretsInv job copies s) (hc : c∈copies)
    (hu : c.stored c.jobs∈s.targets → heldBy job (c.stored c.jobs)=false) :
    Released job.key c (findKey Secret.name c.name s.targets) := by
  rcases h.kept c hc with hsto | hr
  · rw [hsto]
    refine released_of_not_isFor fun hf => ?_
    have hh:=(heldBy_stored (.refl _) c.nodup).mpr hf
    rw [hu (findKey_some hsto).1] at hh
    cases hh
  · exact hr

theorem SecretsInv.apart (h : SecretsInv job copies s) (ht : t∈a.visit (heldTargets job true s.targets)) :
    t.name∉(a.visit (heldTargets job false s.targets)).map Secret.name := by
  intro hmem
  obtain ⟨u,hu,hname⟩ := mem_map.mp hmem
  obtain ⟨htmem,-,htrue⟩ := mem_heldTargets.mp ((a.visit_perm _).subset ht)
  obtain ⟨humem,-,hf⟩ := mem_heldTargets.mp ((a.visit_perm _).subset hu)
  rw [inj_on_of_nodup_map h.names humem htmem hname,htrue] at hf
  cases hf

theorem SecretsInv.released_of_unvisited (h : SecretsInv job copies s) (a : Attempt) (hc : c∈copies)
    (hn : ∀ wanted,c.name∉(a.visit (heldTargets job wanted s.targets)).map Secret.name) :
    Released job.key c (findKey Secret.name c.name s.targets) := by
  refine h.released_of_unheld hc fun hmem => ?_
  rw [← Bool.not_eq_true]
  intro hh
  have hm:=mem_heldTargets.mpr ⟨hmem,hh,rfl⟩
  exact hn _ (mem_map.mpr ⟨c.stored c.jobs,(a.visit_perm _).mem_iff.mpr hm,rfl⟩)

theorem syncSecrets_spec (hcop : (copies.map Copy.name).Nodup) (h : SecretsInv job copies s)
    (hcar : Careful job s a) : SyncSpec job copies s.targets (syncSecrets job a s.targets) := by
  unfold syncSecrets getTargetSecretMap
  by_cases hns : job.key.ns=daemonConfigNamespace
  · rw [if_pos hns]
    refine ⟨.refl _,h.kept,?_⟩
    intro _ c hc
    exact h.released_of_unheld hc fun hmem => hcar.outside hns _ hmem
  rw [if_neg hns]
  simp only [bySourceUID_eq (hcar.ownUID true),bySourceUID_eq (hcar.ownUID false)]
  have hfst:=h.visits hcar false
  have hsnd:=h.visits hcar true
  have hl:=releaseTargetSecrets_spec hcop hfst
  generalize releaseTargetSecrets job.key a (a.visit (heldTargets job false s.targets)) s.targets = result at hl ⊢
  obtain ⟨targets,ok⟩ := result
  cases ok with
  | false =>
    refine ⟨hl.names,?_,nofun⟩
    intro c hc
    rcases hfst.mem_or hcop hc with hmem | hn
    · exact hl.kept c hc hmem
    · exact hl.others c.name hn ▸ h.kept c hc
  | true =>
    -- the first loop leaves the second map alone
    have hnext:=hsnd.frame fun t ht => hl.others t.name (h.apart ht)
    have hl':=releaseTargetSecrets_spec hcop hnext
    have hf : ∀ c∈copies,c.name∉(a.visit (heldTargets job true s.targets)).map Secret.name →
        Released job.key c (findKey Secret.name c.name targets) := by
      intro c hc hnotSecond
      rcases hfst.mem_or hcop hc with hmem | hn
      · exact hl.released rfl c hc hmem
      · refine hl.others c.name hn ▸ h.released_of_unvisited a hc fun wanted => ?_
        cases wanted with
        | true => exact hnotSecond
        | false => exact hn
    refine ⟨hl'.names.trans hl.names,?_,?_⟩
    · intro c hc
      rcases hnext.mem_or hcop hc with hmem | hn
      · exact hl'.kept c hc hmem
      · exact .inr (hl'.others c.name hn ▸ hf c hc hn)
    · intro hok c hc
      rcases hnext.mem_or hcop hc with hmem | hn
      · exact hl'.released hok c hc hmem
      · exact hl'.others c.name hn ▸ hf c hc hn

theorem SecretsInv.unheld (h : SecretsInv job copies s) (hr : s.released)
    (ht : t∈s.targets) : heldBy job t=false := by
  obtain ⟨c,hc,hf⟩ := h.copy_of_mem ht
  exact heldBy_of_released (hf ▸ h.released hr c hc)

theorem syncSecrets_of_unheld (h : ∀ t∈targets,heldBy job t=false) : syncSecrets job a targets=(targets,true) := by
  have hn : ∀ wanted,a.visit (bySourceUID (heldTargets job wanted targets))=[] := by
    intro wanted
    have hh : heldTargets job wanted targets=[] := by
      refine List.filter_eq_nil_iff.mpr ?_
      intro t ht
      simp [h t ht]
    rw [hh]
    exact (a.visit_perm _).eq_nil
  unfold syncSecrets getTargetSecretMap
  simp only [hn,releaseTargetSecrets]
  split_ifs <;> rfl

theorem SecretsInv.finalize (hcop : (copies.map Copy.name).Nodup) (h : SecretsInv job copies s)
    (hcar : Careful job s a) : SecretsInv job copies (finalize job s a) := by
  unfold ImagePullJob.finalize
  by_cases hf : s.finalizer
  · rw [hf,if_neg (by decide)]
    by_cases hrel : s.released
    · rw [syncSecrets_of_unheld fun _ ht => h.unheld hrel ht]
      exact ⟨h.names,h.known,h.kept,fun _ => h.released hrel⟩
    have hsync:=syncSecrets_spec hcop h hcar
    generalize syncSecrets job a s.targets=result at hsync ⊢
    obtain ⟨targets,ok⟩ := result
    have hn:=hsync.names.nodup h.names
    have hk:=List.Subset.trans hsync.names.subset h.known
    cases ok with
    | false => exact ⟨hn,hk,hsync.kept,fun hr => absurd hr hrel⟩
    | true => exact ⟨hn,hk,hsync.kept,fun _ => hsync.released rfl⟩
  · rw [if_pos (by simpa using hf)]
    exact h

/-- Reading a written set back is the identity exactly on the sets that are not empty. And in a run
whose attempts are all careful, once one has succeeded no target holds the job, and of every copy
there is what a release is for. -/
theorem release_leaves_no_reference (hcopies : (copies.map Copy.name).Nodup) {s : Config}
    (h : Reachable (· = ⟨copies.map fun c => c.stored c.jobs,true,false⟩)
      (Restricted (finalizes job) (Careful job)) s) :
    (∀ keys : List Key,(∀ k∈keys,k.Plain) → keys.Nodup → (referenceSet (referenceText keys)=keys ↔ keys≠[])) ∧
      (s.released → (∀ t∈s.targets,heldBy job t=false ∧ t.name∈copies.map Copy.name) ∧
          ∀ c∈copies,Released job.key c (findKey Secret.name c.name s.targets)) := by
  have hi : SecretsInv job copies s := by
    refine h.invariant ?_ ?_
    · rintro s rfl
      have hn : (copies.map fun c => c.stored c.jobs).map Secret.name=copies.map Copy.name := by
        rw [map_map]
        rfl
      refine ⟨hn ▸ hcopies,hn.symm ▸ .refl _,?_,nofun⟩
      intro c hc
      exact .inl (findKey_of_mem (hn ▸ hcopies) (mem_map_of_mem hc))
    · rintro s a s' hs ⟨rfl,hcar⟩
      exact hs.finalize hcopies hcar
  refine ⟨?_,?_⟩
  · intro keys hpl hnd
    refine ⟨?_,referenceSet_referenceText hpl hnd⟩
    rintro hr rfl
    cases hr
  · intro hrel
    refine ⟨?_,hi.released hrel⟩
    intro t ht
    exact ⟨hi.unheld hrel ht,hi.known (mem_map_of_mem ht)⟩

def jobKey (name : String) : Key := ⟨"default".toList,name.toList⟩

def puller : Owner := ⟨jobKey "puller",["registry".toList, "mirror".toList],by decide⟩

def soleCopy : Copy :=
  ⟨"sole", "uid-1", "default/registry".toList, "token",false,[jobKey "puller"],by decide,
    by decide⟩

def sharedCopy : Copy :=
  ⟨"shared", "uid-2", "default/mirror".toList, "token",false,[jobKey "puller",jobKey "other"],
    by decide,by decide⟩

def copied (copies : List Copy) : Config := ⟨copies.map fun c => c.stored c.jobs,true,false⟩

def attempt (delete : Reply) : Attempt where
  visit l := l
  visit_perm _ := Perm.refl _
  write _ l := l
  write_perm _ _ := Perm.refl _
  update _ := .ok
  delete _ := delete
  removeFinalizer := .ok

/-- A copy that another job needs ends the loop, and the copy behind it keeps the job. A copy whose
deletion fails is not found by the next attempt and stays for no job. -/
theorem release_leaves_copies_behind :
    (∃ s,Reachable (· = copied [sharedCopy,soleCopy]) (finalizes puller) s ∧
      s.released ∧ s.targets.map (heldBy puller)=[false,true]) ∧
    (∃ s,Reachable (· = copied [soleCopy]) (finalizes puller) s ∧
      s.released ∧ s.targets=[soleCopy.stored []]) ∧
    referenceSet (referenceText [])≠[] := by
  have hsta : ∀ copies,Reachable (· = copied copies) (finalizes puller) (copied copies) :=
    fun _ => Reachable.start rfl
  have hstep : ∀ {start s : Config} (a : Attempt),Reachable (· = start) (finalizes puller) s →
      Reachable (· = start) (finalizes puller) (finalize puller s a) :=
    fun _ h => h.next rfl
  refine ⟨⟨_,hstep (attempt .ok) (hsta _),?_⟩,
    ⟨_,hstep (attempt .ok) (hstep (attempt .refused) (hsta _)),?_⟩,by decide⟩
  · decide +kernel
  · decide +kernel

instance (a : Attempt) (t : Secret) : Decidable (Repeatable job a t) := by
  unfold Repeatable
  infer_instance

theorem release_leaves_shared_copy :
    ∃ s,Reachable (· = copied [soleCopy,sharedCopy]) (Restricted (finalizes puller) (Careful puller)) s ∧
      s.released ∧ Released puller.key soleCopy (findKey Secret.name "sole" s.targets) ∧
      s.targets=[sharedCopy.stored [jobKey "other"]] := by
  have hcar : Careful puller (copied [soleCopy,sharedCopy]) (attempt .ok) :=
    ⟨by decide +kernel,by decide +kernel,by decide +kernel,by decide +kernel⟩
  have hr : Reachable (· = copied [soleCopy,sharedCopy]) (Restricted (finalizes puller) (Careful puller))
      (finalize puller (copied [soleCopy,sharedCopy]) (attempt .ok)) :=
    Reachable.next (Reachable.start rfl) (And.intro rfl hcar)
  have hrel : (finalize puller (copied [soleCopy,sharedCopy]) (attempt .ok)).released := by
    decide +kernel
  refine ⟨_,hr,hrel,?_,by decide +kernel⟩
  exact ((release_leaves_no_reference (by decide) hr).2 hrel).2 soleCopy (by simp)

end Kruise.ImagePullJob
