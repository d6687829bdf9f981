import Kruise.WorkloadSpread.Fits
import Mathlib.Algebra.Order.BigOperators.Group.List

/-!
# The statuses of all subsets

What the webhook and the controller do to the list of statuses, and that it fits the pods.
-/

namespace Kruise.WorkloadSpread

open Util Util.IntStr Lib.Keyed Lib.Versioned List

def Config.targetSubset (c : Config) : SubsetSpec := ⟨c.target,some (.int c.limit)⟩

/- What a webhook starts from when the version has no entry. -/
def Config.emptyStatus (c : Config) : SubsetStatus := initializedSubsetStatus 0 c.targetSubset

theorem Config.eq_targetSubset (c : Config) {s : SubsetSpec} (hs : s∈c.spec)
    (hn : s.name=c.target) : s=c.targetSubset :=
  inj_on_of_nodup_map c.distinct hs c.targetSpec hn

theorem Config.exists_target (c : Config) {sts : Statuses}
    (hn : sts.map SubsetStatus.name=c.spec.map SubsetSpec.name) :
    ∃ st∈sts,st.name=c.target := by
  refine mem_map.mp ?_
  rw [hn]
  exact mem_map_of_mem c.targetSpec

structure StatusesOk (c : Config) (pods pending : List Pod) (sts : Statuses) : Prop where
  names : sts=[] ∨ sts.map SubsetStatus.name=c.spec.map SubsetSpec.name
  fits : ∀ st∈sts,st.name=c.target → Fits c pods pending st
  empty : sts=[] → Fits c pods pending c.emptyStatus

variable {c : Config} {pods pending : List Pod} {spec : List SubsetSpec} {replicas now : Int}
    {sts : Statuses}

theorem StatusesOk.imp {pods' pending' : List Pod} (h : StatusesOk c pods pending sts)
    (hi : ∀ st,(st∈sts ∧ st.name=c.target ∨ st=c.emptyStatus) →
      Fits c pods pending st → Fits c pods' pending' st) : StatusesOk c pods' pending' sts :=
  ⟨h.names,fun st hst hname => hi st (.inl ⟨hst,hname⟩) (h.fits st hst hname),
    fun hn => hi _ (.inr rfl) (h.empty hn)⟩

theorem StatusesOk.of_names (hn : sts.map SubsetStatus.name=c.spec.map SubsetSpec.name)
    (hf : ∀ st∈sts,st.name=c.target → Fits c pods pending st) : StatusesOk c pods pending sts := by
  refine ⟨.inr hn,hf,?_⟩
  rintro rfl
  obtain ⟨st,hst,-⟩ := c.exists_target hn
  cases hst

theorem StatusesOk.exists_fits (h : StatusesOk c pods pending sts) : ∃ st,Fits c pods pending st := by
  rcases h.names with hn | hnms
  · exact ⟨_,h.empty hn⟩
  · obtain ⟨st,hst,hname⟩ := c.exists_target hnms
    exact ⟨st,h.fits st hst hname⟩

theorem replaceSubset_eq (s : SubsetStatus) (sts : Statuses) :
    replaceSubset s sts=replaceKey SubsetStatus.name s sts := by
  induction sts with
  | nil => rfl
  | cons t sts ih => rw [replaceSubset,replaceKey,ih]

theorem StatusesOk.statusesFor (h : StatusesOk c pods pending sts) (replicas : Int) :
    (statusesFor c.spec replicas sts).map SubsetStatus.name=c.spec.map SubsetSpec.name ∧
      ∀ st∈statusesFor c.spec replicas sts,st.name=c.target → Fits c pods pending st := by
  unfold WorkloadSpread.statusesFor
  split_ifs with hl
  · have hn:=eq_nil_of_length_eq_zero hl
    refine ⟨?_,?_⟩
    · simp [initializedSubsetStatuses,Function.comp_def,initializedSubsetStatus]
    · intro st hst hname
      obtain ⟨s,hs,rfl⟩ := mem_map.mp hst
      rw [c.eq_targetSubset hs hname]
      exact h.empty hn
  · refine ⟨h.names.resolve_left ?_,h.fits⟩
    rintro rfl
    exact hl rfl

theorem statusesOk_replaceSubset {s : SubsetStatus} (hn : sts.map SubsetStatus.name=c.spec.map SubsetSpec.name)
    (hs : s.name=c.target → Fits c pods pending s)
    (hr : ∀ st∈sts,st.name=c.target → st.name≠s.name → Fits c pods pending st) :
    StatusesOk c pods pending (replaceSubset s sts) := by
  have hnd : (sts.map SubsetStatus.name).Nodup := by
    rw [hn]
    exact c.distinct
  rw [replaceSubset_eq]
  refine .of_names (by rw [map_key_replaceKey,hn]) ?_
  intro st hst hname
  rcases mem_replaceKey hnd hst with rfl | ⟨hm,hne⟩
  · exact hs hname
  · exact hr st hm hname hne

variable {st : SubsetStatus}

theorem isPodRecordedInSubset_none {podName : String} (h : isPodRecordedInSubset sts podName=none)
    (hst : st∈sts) : podName∉st.deletingPods := by
  have hn:=List.find?_eq_none.mp h st hst
  unfold isRecordedIn at hn
  simp only [Bool.or_eq_true,decide_eq_true_eq,not_or] at hn
  exact hn.2

variable {stored : Statuses}

theorem updateSubsetForPod_create_changed {podName uid subset uid' : String}
    (h : updateSubsetForPod spec replicas stored now (.create podName uid)=.changed sts subset uid') :
    ∃ s∈statusesFor spec replicas stored,0<s.missingReplicas ∧ subset=s.name ∧
      (podName ≠ "" → ∀ t∈statusesFor spec replicas stored,podName∉t.deletingPods) ∧
      uid'=(if podName ≠ "" then "" else uid) ∧
      sts=replaceSubset (charge s (if podName ≠ "" then podName else uid) now)
        (statusesFor spec replicas stored) := by
  unfold updateSubsetForPod at h
  dsimp only at h
  split at h
  · cases h
  rename_i hrec
  unfold createInSubset at h
  split at h
  · cases h
  · rename_i s hs
    have hmem:=mem_of_find?_eq_some hs
    have hr:=List.find?_some hs
    have hpos : s.missingReplicas ≠ -1 → 0<s.missingReplicas := by
      unfold hasRoom at hr
      simp only [Bool.and_eq_true,Bool.or_eq_true,decide_eq_true_eq] at hr
      exact fun hne => hr.2.resolve_right hne
    split_ifs at h with hone hname
    · cases h
      refine ⟨s,hmem,hpos hone,rfl,?_,by rw [if_pos hname],by rw [if_pos hname]⟩
      intro _ t ht
      rw [if_pos hname] at hrec
      exact isPodRecordedInSubset_none hrec ht
    · cases h
      refine ⟨s,hmem,hpos hone,rfl,fun hne => absurd hne hname,by rw [if_neg hname], by rw [if_neg hname]⟩

/- The subset of a creation that changes nothing: one that records the name, none, or one
without a limit. -/
theorem updateSubsetForPod_create_same {podName uid : String} {subset : Option String}
    (h : updateSubsetForPod spec replicas stored now (.create podName uid)=.same subset) :
    (podName ≠ "" ∧ ∃ s,isPodRecordedInSubset (statusesFor spec replicas stored) podName=some s ∧
        subset=some s.name) ∨
      subset=none ∨
      ∃ s∈statusesFor spec replicas stored,s.missingReplicas = -1 ∧ subset=some s.name := by
  unfold updateSubsetForPod at h
  dsimp only at h
  split at h
  · rename_i s hr
    cases h
    split_ifs at hr with hn
    exact .inl ⟨hn,s,hr,rfl⟩
  · right
    unfold createInSubset at h
    split at h
    · cases h
      exact .inl rfl
    · rename_i s hs
      split_ifs at h with ho
      cases h
      exact .inr ⟨s,mem_of_find?_eq_some hs,ho,rfl⟩

theorem updateSubsetForPod_delete_changed {podName subset subset' uid' : String}
    (h : updateSubsetForPod spec replicas stored now (.delete podName subset)=.changed sts subset' uid') :
    ∃ s∈statusesFor spec replicas stored,s.name=subset ∧
      (∀ t∈statusesFor spec replicas stored,podName∉t.deletingPods) ∧
      sts=replaceSubset (credit s podName now) (statusesFor spec replicas stored) := by
  unfold updateSubsetForPod at h
  dsimp only at h
  split at h
  · cases h
  rename_i hr
  unfold deleteInSubset at h
  split at h
  · cases h
  · rename_i s hs
    split_ifs at h
    cases h
    have hn:=List.find?_some hs
    refine ⟨s,mem_of_find?_eq_some hs,of_decide_eq_true hn,?_,rfl⟩
    intro t ht
    exact isPodRecordedInSubset_none hr ht

theorem subsetMaxReplicas_isSome (c : Config) {s : SubsetSpec} (hs : s∈c.spec)
    (hr : 0≤replicas) : ∃ n,subsetMaxReplicas s replicas=some n := by
  unfold subsetMaxReplicas
  cases hm : s.maxReplicas with
  | none => exact ⟨-1,rfl⟩
  | some v =>
    obtain ⟨k,hk,hnonneg⟩ := c.valid s hs v hm
    obtain ⟨n,hn,hn0⟩ := getValueFromIntOrPercent_nonneg hk hnonneg hr
    exact ⟨n,by simp [hn,hn0]⟩

theorem subsetMaxReplicas_target (c : Config) (replicas : Int) :
    subsetMaxReplicas c.targetSubset replicas=some (c.limit : Int) := by
  simp [subsetMaxReplicas,Config.targetSubset,getValueFromIntOrPercent]

theorem calculateWorkloadSpreadSubsetStatuses_some (now : Int) (old : Statuses) (pods : List Pod)
    (unschedulable : String → Bool) (hval : ∀ s∈spec,∃ n,subsetMaxReplicas s replicas=some n) :
    ∃ sts,calculateWorkloadSpreadSubsetStatuses now old pods replicas unschedulable spec = some sts ∧
      sts.map SubsetStatus.name=spec.map SubsetSpec.name ∧
      ∀ st∈sts,∃ s∈spec,∃ st', calculateWorkloadSpreadSubsetStatus now (pods.filter fun p => p.subset=some s.name) s
          (old.find? fun o => o.name=s.name) replicas=some st' ∧
        st={st' with unschedulable := unschedulable s.name} := by
  induction spec with
  | nil => exact ⟨[],rfl,rfl,fun st hst => by cases hst⟩
  | cons s spec ih =>
    obtain ⟨sts,hsts,hnms,hm⟩ := ih fun t ht => hval t (mem_cons_of_mem s ht)
    obtain ⟨n,hn⟩ := hval s mem_cons_self
    have hst : ∃ st',calculateWorkloadSpreadSubsetStatus now
        (pods.filter fun p => p.subset=some s.name) s (old.find? fun o => o.name=s.name)
        replicas=some st' ∧ st'.name=s.name := by
      unfold calculateWorkloadSpreadSubsetStatus
      rw [hn]
      exact ⟨_,rfl,rfl⟩
    obtain ⟨st',hst',hname⟩ := hst
    refine ⟨{st' with unschedulable := unschedulable s.name}::sts,?_,?_,?_⟩
    · simp only [calculateWorkloadSpreadSubsetStatuses,hst',hsts,Option.bind_some,Option.map_some]
    · simp [hnms,hname]
    · intro st hm'
      rcases mem_cons.mp hm' with rfl | hm'
      · exact ⟨s,mem_cons_self,st',hst',rfl⟩
      · obtain ⟨t,ht,hr⟩ := hm st hm'
        exact ⟨t,mem_cons_of_mem s ht,hr⟩

def Config.oldStatus (c : Config) (sts : Statuses) : SubsetStatus :=
  (sts.find? fun o => o.name=c.target).getD c.emptyStatus

theorem StatusesOk.oldStatus (h : StatusesOk c pods pending sts) : Fits c pods pending (c.oldStatus sts) := by
  unfold Config.oldStatus
  cases hf : sts.find? fun o => decide (o.name=c.target) with
  | some o =>
    have hname:=List.find?_some hf
    exact h.fits o (mem_of_find?_eq_some hf) (of_decide_eq_true hname)
  | none =>
    refine h.empty ?_
    rcases h.names with hn | hnms
    · exact hn
    · obtain ⟨st,hst,hname⟩ := c.exists_target hnms
      exact absurd (decide_eq_true hname) (find?_eq_none.mp hf st hst)

theorem StatusesOk.oldStatus_eq (h : StatusesOk c pods pending sts) (hst : st∈sts)
    (hname : st.name=c.target) : c.oldStatus sts=st := by
  have hn : sts.map SubsetStatus.name=c.spec.map SubsetSpec.name := by
    refine h.names.resolve_left ?_
    rintro rfl
    cases hst
  unfold Config.oldStatus
  cases hf : sts.find? fun o => decide (o.name=c.target) with
  | none => exact absurd (decide_eq_true hname) (find?_eq_none.mp hf st hst)
  | some o =>
    have ho:=List.find?_some hf
    have hnd : (sts.map SubsetStatus.name).Nodup := by
      rw [hn]
      exact c.distinct
    exact inj_on_of_nodup_map hnd (mem_of_find?_eq_some hf) hst ((of_decide_eq_true ho).trans hname.symm)

theorem unexpired_oldStatus (c : Config) (h : unexpiredStatuses now sts) : Unexpired now (c.oldStatus sts) := by
  unfold Config.oldStatus
  cases hf : sts.find? fun o => decide (o.name=c.target) with
  | none => exact ⟨rfl,rfl⟩
  | some o =>
    have hboth:=all_eq_true.mp h o (mem_of_find?_eq_some hf)
    obtain ⟨hc,hd⟩ := Bool.and_eq_true_iff.mp hboth
    exact ⟨hc,hd⟩

theorem calculateWorkloadSpreadSubsetStatus_oldStatus (c : Config) (now : Int) (pods : List Pod)
    (sts : Statuses) (replicas : Int) :
    calculateWorkloadSpreadSubsetStatus now pods c.targetSubset (sts.find? fun o => o.name=c.target) replicas =
      calculateWorkloadSpreadSubsetStatus now pods c.targetSubset (some (c.oldStatus sts)) replicas := by
  unfold Config.oldStatus
  cases sts.find? fun o => decide (o.name=c.target) <;> rfl

/- The reconcile meets no pod with a deletion record after the limit is used up. -/
def Config.listsInTime (c : Config) (sts : Statuses) (listed : List Pod) : Prop :=
  c.limit=0 ∨ creditsInTime (c.oldStatus sts).deletingPods c.limit
    (listed.filter fun p => p.subset=some c.target)

theorem recount_target {sts' : Statuses} {listed : List Pod} {unschedulable : String → Bool}
    (hf : unexpiredStatuses now sts) (ht : c.listsInTime sts listed) (h : ∀ st∈sts',∃ s∈c.spec,∃ st',
      calculateWorkloadSpreadSubsetStatus now (listed.filter fun p => p.subset=some s.name) s
        (sts.find? fun o => o.name=s.name) replicas=some st' ∧
      st={st' with unschedulable := unschedulable s.name}) (hst : st∈sts')
    (hn : st.name=c.target) :
    RecountOf c.limit (c.oldStatus sts) (listed.filter fun p => p.subset=some c.target) st := by
  obtain ⟨s,hs,st',hst',rfl⟩ := h st hst
  have hsname : s.name=c.target := by
    obtain ⟨m,_,rfl⟩ := Option.map_eq_some_iff.mp hst'
    exact hn
  rw [hsname,c.eq_targetSubset hs hsname,calculateWorkloadSpreadSubsetStatus_oldStatus] at hst'
  have hcrd : (c.limit : Int)=0 ∨ creditsInTime (c.oldStatus sts).deletingPods c.limit
      (listed.filter fun p => p.subset=some c.target) :=
    ht.imp_left fun hz => by exact_mod_cast hz
  obtain ⟨_,hspec⟩ := calculateWorkloadSpreadSubsetStatus_spec (Int.natCast_nonneg _)
    (subsetMaxReplicas_target c replicas) (unexpired_oldStatus c hf) hcrd hst'
  exact ⟨hspec.creating,hspec.deleting,hspec.nonneg,hspec.missing⟩

theorem creatingPods_of_isEmptySubsetStatuses (he : isEmptySubsetStatuses sts)
    (hz : ∀ st∈sts,st.replicas=0) (hst : st∈sts) (k : String) : k∉st.creatingPods := by
  have hsum:=of_decide_eq_true he
  have hn : ∀ x∈sts.map (fun s => s.replicas+((s.creatingPods.keys.length : Int) +
      (s.deletingPods.keys.length : Int))),0≤x := by
    intro x hx
    obtain ⟨t,ht,rfl⟩ := mem_map.mp hx
    rw [hz t ht]
    omega
  have hle:=single_le_sum hn _ (mem_map_of_mem hst)
  rw [hsum,hz st hst] at hle
  have hl : st.creatingPods.keys.length=0 := by omega
  intro hk
  have hm:=AList.mem_keys.mp hk
  rw [eq_nil_of_length_eq_zero hl] at hm
  cases hm

theorem fits_emptyStatus (hn : ∀ p∈pending,c.inTarget p=false) : Fits c [] pending c.emptyStatus := by
  have hcnt : pending.countP c.inTarget=0 := by
    rw [countP_eq_zero]
    intro p hp
    rw [hn p hp]
    exact Bool.false_ne_true
  have hm : c.emptyStatus.missingReplicas=c.limit := rfl
  refine ⟨?_,?_,?_,?_,?_⟩
  · omega
  · rw [hm,hcnt]
    exact Int.le_refl _
  · simp +contextual [hn]
  · rintro p ⟨⟩
  · simp +contextual [hn]

theorem statusesOk_calculate {listed : List Pod} (ho : Fits c pods pending (c.oldStatus sts).recordsOnly)
    (he : sts=[] → pods=[] → Fits c pods pending c.emptyStatus)
    (hpods : PodsOk c pods pending) (hperm : listed.Perm pods) (unschedulable : String → Bool)
    (hf : unexpiredStatuses now sts) (hreplicas : 0≤replicas) (ht : c.listsInTime sts listed) :
    StatusesOk c pods pending (calculateWorkloadSpreadStatus now c.spec sts listed replicas unschedulable) ∧
      ∀ st∈calculateWorkloadSpreadStatus now c.spec sts listed replicas unschedulable,
        st.name=c.target → ∀ n∈st.deletingPods,n∈(c.oldStatus sts).deletingPods := by
  obtain ⟨sts',hsome,hnms,hm⟩ := calculateWorkloadSpreadSubsetStatuses_some
    now sts listed unschedulable fun s hs => subsetMaxReplicas_isSome c hs hreplicas
  have hr : ∀ st∈sts',st.name=c.target → RecountOf c.limit (c.oldStatus sts)
      (listed.filter fun p => p.subset=some c.target) st :=
    fun st hst hname => recount_target hf ht hm hst hname
  unfold calculateWorkloadSpreadStatus
  rw [hsome]
  simp only [Option.getD_some]
  split_ifs with hd
  · -- no pods, and no records that need the entry
    simp only [Bool.and_eq_true,Bool.or_eq_true,List.isEmpty_iff] at hd
    obtain ⟨hl,hw⟩ := hd
    have hnil : pods=[] := by
      rw [hl] at hperm
      exact hperm.nil_eq.symm
    refine ⟨⟨.inl rfl,(fun st hst => by cases hst),fun _ => ?_⟩,fun st hst => by cases hst⟩
    rcases hw with hnone | hno
    · exact he hnone hnil
    · have hz : ∀ st∈sts',st.replicas=0 := by
        intro st hst
        obtain ⟨s,_,st',hst',rfl⟩ := hm st hst
        obtain ⟨m,_,rfl⟩ := Option.map_eq_some_iff.mp hst'
        rw [hl]
        rfl
      obtain ⟨st,hst,hname⟩ := c.exists_target hnms
      have hfits:=ho.recount hpods hperm (hr st hst hname)
      rw [hnil]
      refine fits_emptyStatus ?_
      intro p hp
      rw [Bool.eq_false_iff]
      intro hin
      exact creatingPods_of_isEmptySubsetStatuses hno hz hst _ (hfits.creating p hp hin)
  · refine ⟨.of_names hnms ?_,?_⟩
    · intro st hst hname
      exact ho.recount hpods hperm (hr st hst hname)
    · intro st hst hname n hn
      exact ((hr st hst hname).deleting n |>.mp hn).1

end Kruise.WorkloadSpread
