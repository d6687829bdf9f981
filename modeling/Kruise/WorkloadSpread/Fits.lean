import Kruise.Lib.Keyed
import Kruise.WorkloadSpread.Protocol

/-!
# When a status fits the pods

What it reports missing and the pods that hold a replica stay within the limit: the active pods
without a deletion record and the pending ones, each of which has a creation record.
-/

namespace Kruise.WorkloadSpread

open Util Util.IntStr Lib.Versioned List
open Lib.Keyed (forall_mem_concat)

theorem Apart.symm {a b : Pod} (h : Apart a b) : Apart b a := by
  refine ⟨?_,h.nameUid,h.uidName,?_⟩
  · intro hb heq
    rw [heq] at hb
    exact h.uids hb heq.symm
  · intro hb heq
    rw [heq] at hb
    exact h.names hb heq.symm

instance : Std.Symm Apart := ⟨fun _ _ => Apart.symm⟩

theorem Apart.key_ne {a b : Pod} (h : Apart a b) (ha : a.key ≠ "") : a.key≠b.key := by
  unfold Pod.key at ha ⊢
  split_ifs at ha ⊢ with hau hbu hbu
  · exact h.uids hau
  · exact h.uidName hau
  · exact fun heq => h.nameUid hbu heq.symm
  · exact h.names ha

def Config.holders (c : Config) (deleting : Records) (pods : List Pod) : Nat :=
  pods.countP fun p => c.inTarget p&&(p.active&&!decide (p.name∈deleting))

structure Fits (c : Config) (pods pending : List Pod) (st : SubsetStatus) : Prop where
  nonneg : 0 ≤ st.missingReplicas
  room : st.missingReplicas+(c.holders st.deletingPods pods+pending.countP c.inTarget)≤c.limit
  creating : ∀ p∈pending,c.inTarget p → p.key∈st.creatingPods
  deleting : ∀ p∈pods,c.inTarget p → p.name∈st.deletingPods →
    p.deletionAdmitted
  fresh : ∀ p∈pending,c.inTarget p → p.name ≠ "" → p.name∉st.deletingPods

structure PodsOk (c : Config) (pods pending : List Pod) : Prop where
  apart : (pods++pending).Pairwise Apart
  active : ∀ p∈pods,p.deletionAdmitted=false → p.active
  named : ∀ p∈pods,p.name ≠ ""
  subset : ∀ p∈pods++pending,c.inTarget p → p.subset=some c.target
  keyed : ∀ p∈pending,c.inTarget p → p.key ≠ ""
  waiting : ∀ p∈pending,p.deletionAdmitted=false
  alive : ∀ p∈pending,p.active

variable {c : Config} {pods pending : List Pod} {st : SubsetStatus}

theorem Fits.undeleted_le (h : Fits c pods pending st) (hpods : PodsOk c pods pending) :
    (pods++pending).countP (fun p => c.inTarget p&&!p.deletionAdmitted)≤c.limit := by
  rw [countP_append]
  have he : pods.countP (fun p => c.inTarget p&&!p.deletionAdmitted) ≤ c.holders st.deletingPods pods := by
    refine countP_mono_left ?_
    intro p hp hcnt
    simp only [Bool.and_eq_true,Bool.not_eq_true',decide_eq_false_iff_not] at hcnt ⊢
    obtain ⟨hin,hd⟩ := hcnt
    refine ⟨hin,hpods.active p hp hd,?_⟩
    intro hr
    rw [h.deleting p hp hin hr] at hd
    cases hd
  have hw : pending.countP (fun p => c.inTarget p&&!p.deletionAdmitted) ≤ pending.countP c.inTarget := by
    refine countP_mono_left ?_
    intro p _ hcnt
    exact (Bool.and_eq_true_iff.mp hcnt).1
  have hroom:=h.room
  have hn:=h.nonneg
  omega

/- Changes of pods that keep their names and give nothing back. -/
structure Keeps (c : Config) (f : Pod → Pod) : Prop where
  name : ∀ p,(f p).name=p.name
  uid : ∀ p,(f p).uid=p.uid
  inSubset : ∀ p,(f p).inSubset=p.inSubset
  active : ∀ p,(f p).active → p.active
  admitted : ∀ p,p.deletionAdmitted → (f p).deletionAdmitted
  deleted : ∀ p,(p.deletionAdmitted=false → p.active) →
    (f p).deletionAdmitted=false → (f p).active
  subset : ∀ p,p.subset=some c.target → (f p).subset=some c.target

variable {f : Pod → Pod}

theorem Keeps.inTarget (hf : Keeps c f) (p : Pod) : c.inTarget (f p)=c.inTarget p := by
  unfold Config.inTarget
  rw [hf.inSubset]

theorem Fits.map (hf : Keeps c f) (h : Fits c pods pending st) : Fits c (pods.map f) pending st := by
  refine ⟨h.nonneg,?_,h.creating,?_,h.fresh⟩
  · have hle : c.holders st.deletingPods (pods.map f)≤c.holders st.deletingPods pods := by
      unfold Config.holders
      rw [countP_map]
      refine countP_mono_left ?_
      intro p _ hcnt
      simp only [Function.comp_apply,Bool.and_eq_true,hf.inTarget,hf.name] at hcnt ⊢
      exact ⟨hcnt.1,hf.active p hcnt.2.1,hcnt.2.2⟩
    have hroom:=h.room
    omega
  · intro q hq hin hr
    obtain ⟨p,hp,rfl⟩ := mem_map.mp hq
    rw [hf.inTarget] at hin
    rw [hf.name] at hr
    exact hf.admitted p (h.deleting p hp hin hr)

theorem PodsOk.map (hf : Keeps c f) (h : PodsOk c pods pending) : PodsOk c (pods.map f) pending := by
  have happ:=pairwise_append.mp h.apart
  refine ⟨?_,?_,?_,?_,h.keyed,h.waiting,h.alive⟩
  · refine pairwise_append.mpr ⟨?_,happ.2.1,?_⟩
    · refine pairwise_map.mpr (happ.1.imp ?_)
      intro a b hab
      rwa [apart_iff,hf.uid,hf.uid,hf.name,hf.name,← apart_iff]
    · intro q hq b hb
      obtain ⟨a,ha,rfl⟩ := mem_map.mp hq
      rw [apart_iff,hf.uid,hf.name,← apart_iff]
      exact happ.2.2 a ha b hb
  · exact forall_mem_map.mpr fun p hp => hf.deleted p (h.active p hp)
  · refine forall_mem_map.mpr fun p hp => ?_
    rw [hf.name]
    exact h.named p hp
  · obtain ⟨hpods,hpend⟩ := forall_mem_append.mp h.subset
    refine forall_mem_append.mpr ⟨forall_mem_map.mpr fun p hp hin => ?_,hpend⟩
    rw [hf.inTarget] at hin
    exact hf.subset p (hpods p hp hin)

theorem keeps_markDeletion (c : Config) (serial : Nat) : Keeps c (markDeletion serial) := by
  refine ⟨?_,?_,?_,?_,?_,?_,?_⟩ <;> intro p <;> unfold markDeletion <;> split_ifs <;>
    simp_all

theorem keeps_terminatePod (c : Config) (serial : Nat) : Keeps c (terminatePod serial) := by
  refine ⟨?_,?_,?_,?_,?_,?_,?_⟩ <;> intro p <;> unfold terminatePod <;> split_ifs <;>
    simp_all

theorem keeps_adoptPod (c : Config) (adopt : Nat → Option String) : Keeps c (adoptPod adopt) := by
  refine ⟨?_,?_,?_,?_,?_,?_,?_⟩ <;> intro p <;> unfold adoptPod <;> split_ifs <;> simp_all

theorem Fits.filter (q : Pod → Bool) (h : Fits c pods pending st) : Fits c (pods.filter q) pending st := by
  refine ⟨h.nonneg,?_,h.creating,?_,h.fresh⟩
  · have hle : c.holders st.deletingPods (pods.filter q)≤c.holders st.deletingPods pods :=
      filter_sublist.countP_le
    have hr:=h.room
    omega
  · intro p hp
    exact h.deleting p (mem_of_mem_filter hp)

theorem PodsOk.filter (q : Pod → Bool) (h : PodsOk c pods pending) : PodsOk c (pods.filter q) pending := by
  have hsub : (pods.filter q++pending).Sublist (pods++pending) :=
    filter_sublist.append (.refl pending)
  refine ⟨h.apart.sublist hsub,?_,?_,?_,h.keyed,h.waiting,h.alive⟩
  · intro p hp
    exact h.active p (mem_of_mem_filter hp)
  · intro p hp
    exact h.named p (mem_of_mem_filter hp)
  · intro p hp
    exact h.subset p (hsub.subset hp)

structure Appears (pods pending : List Pod) (p : Pod) (name : String) : Prop where
  mem : p∈pending
  nonempty : name ≠ ""
  own : p.name ≠ "" → name=p.name
  pods : ∀ q∈pods,q.name≠name ∧ q.uid≠name
  pending : ∀ q∈pending,q.serial≠p.serial → q.name≠name ∧ q.uid≠name

variable {p : Pod} {name : String}

theorem Appears.apart_of_mem {q : Pod} (ha : Appears pods pending p name)
    (h : PodsOk c pods pending) (hq : q∈pods) : Apart q {p with name := name} := by
  obtain ⟨h1,h2,h3,h4⟩ := (pairwise_append.mp h.apart).2.2 q hq p ha.mem
  obtain ⟨hn,hu⟩ := ha.pods q hq
  exact ⟨h1,fun _ => hu,h3,fun _ => hn⟩

theorem Appears.apart_of_pending {q : Pod} (ha : Appears pods pending p name)
    (h : PodsOk c pods pending) (hq : q∈pending) (hser : q.serial≠p.serial) : Apart {p with name := name} q := by
  have hne : p≠q := by
    rintro rfl
    exact hser rfl
  obtain ⟨h1,h2,h3,h4⟩ := (pairwise_append.mp h.apart).2.1.forall ha.mem hq hne
  obtain ⟨hn,hu⟩ := ha.pending q hq hser
  exact ⟨h1,h2,fun _ => hu,fun _ => Ne.symm hn⟩

theorem PodsOk.appear (h : PodsOk c pods pending) (ha : Appears pods pending p name) :
    PodsOk c (pods++[{p with name := name}]) (pending.filter fun q => q.serial≠p.serial) := by
  obtain ⟨hpods,hpend,hcross⟩ := pairwise_append.mp h.apart
  have hf : (pending.filter fun q => decide (q.serial≠p.serial)).Sublist pending :=
    filter_sublist
  refine ⟨?_,?_,?_,?_,?_,?_,?_⟩
  · refine pairwise_append.mpr ⟨?_,hpend.sublist hf,?_⟩
    · refine pairwise_append.mpr ⟨hpods,pairwise_singleton _ _,fun q hq => ?_⟩
      exact forall_mem_singleton.mpr (ha.apart_of_mem h hq)
    · refine forall_mem_concat.mpr ⟨fun q hq r hr => hcross q hq r (hf.subset hr),?_⟩
      intro r hr
      obtain ⟨hm,hser⟩ := mem_filter.mp hr
      exact ha.apart_of_pending h hm (of_decide_eq_true hser)
  · exact forall_mem_concat.mpr ⟨h.active,fun _ => h.alive p ha.mem⟩
  · exact forall_mem_concat.mpr ⟨h.named,ha.nonempty⟩
  · obtain ⟨ho,hn⟩ := forall_mem_append.mp h.subset
    exact forall_mem_append.mpr ⟨forall_mem_concat.mpr ⟨ho,hn p ha.mem⟩, fun q hq => hn q (hf.subset hq)⟩
  · intro q hq
    exact h.keyed q (hf.subset hq)
  · intro q hq
    exact h.waiting q (hf.subset hq)
  · intro q hq
    exact h.alive q (hf.subset hq)

theorem Fits.appear (h : Fits c pods pending st) (ha : Appears pods pending p name)
    (hn : c.inTarget p → p.name = "" → name∉st.deletingPods) :
    Fits c (pods++[{p with name := name}]) (pending.filter fun q => q.serial≠p.serial) st := by
  have hf : (pending.filter fun q => decide (q.serial≠p.serial)).Sublist pending :=
    filter_sublist
  refine ⟨h.nonneg,?_,?_,?_,?_⟩
  · -- the pod moves from one count to the other
    have ho : (pending.filter fun q => decide (q.serial≠p.serial)).countP c.inTarget +
        (if c.inTarget p then 1 else 0)≤pending.countP c.inTarget := by
      have hperm:=perm_cons_erase ha.mem
      have hsub : (pending.filter fun q => decide (q.serial≠p.serial)).Sublist (pending.erase p) := by
        rw [← erase_of_not_mem (a := p) (l := pending.filter fun q => decide (q.serial≠p.serial)) (by simp)]
        exact hf.erase p
      have hle:=hsub.countP_le (p := c.inTarget)
      rw [hperm.countP_eq,countP_cons]
      omega
    have hnew : c.holders st.deletingPods (pods++[{p with name := name}]) ≤
        c.holders st.deletingPods pods+if c.inTarget p then 1 else 0 := by
      unfold Config.holders
      rw [countP_append,countP_singleton]
      have hsame : c.inTarget {p with name := name}=c.inTarget p := rfl
      rw [hsame]
      cases c.inTarget p <;> simp
      split_ifs <;> omega
    have hroom:=h.room
    omega
  · intro q hq
    exact h.creating q (hf.subset hq)
  · refine forall_mem_concat.mpr ⟨h.deleting,fun hin hr => ?_⟩
    have hin' : c.inTarget p := hin
    have hr' : name∈st.deletingPods := hr
    by_cases he : p.name = ""
    · exact absurd hr' (hn hin' he)
    · rw [ha.own he] at hr'
      exact absurd hr' (h.fresh p ha.mem hin' he)
  · intro q hq
    exact h.fresh q (hf.subset hq)

theorem PodsOk.create (h : PodsOk c pods pending) (hap : ∀ q∈pods++pending,Apart q p)
    (hsub : c.inTarget p → p.subset=some c.target)
    (hk : c.inTarget p → p.key ≠ "") (hd : p.deletionAdmitted=false)
    (ha : p.active) : PodsOk c pods (pending++[p]) := by
  refine ⟨?_,h.active,h.named,?_,?_,?_,?_⟩
  · rw [← append_assoc]
    refine pairwise_append.mpr ⟨h.apart,pairwise_singleton _ _,fun q hq => ?_⟩
    exact forall_mem_singleton.mpr (hap q hq)
  · rw [← append_assoc]
    exact forall_mem_concat.mpr ⟨h.subset,hsub⟩
  · exact forall_mem_concat.mpr ⟨h.keyed,hk⟩
  · exact forall_mem_concat.mpr ⟨h.waiting,hd⟩
  · exact forall_mem_concat.mpr ⟨h.alive,ha⟩

theorem Fits.create_elsewhere (h : Fits c pods pending st) (hp : c.inTarget p=false) :
    Fits c pods (pending++[p]) st := by
  have hp' : ¬c.inTarget p := Bool.eq_false_iff.mp hp
  refine ⟨h.nonneg,?_,?_,h.deleting,?_⟩
  · rw [countP_append,countP_singleton,hp]
    exact h.room
  · exact forall_mem_concat.mpr ⟨h.creating,fun hin => absurd hin hp'⟩
  · exact forall_mem_concat.mpr ⟨h.fresh,fun hin => absurd hin hp'⟩

theorem Fits.charge (h : Fits c pods pending st) (hin : c.inTarget p)
    (hr : 0<st.missingReplicas) (hn : p.name ≠ "" → p.name∉st.deletingPods) (now : Int) :
    Fits c pods (pending++[p]) (charge st p.key now) := by
  have hm : (WorkloadSpread.charge st p.key now).missingReplicas=st.missingReplicas-1 := by
    simp [WorkloadSpread.charge,hr]
  refine ⟨by omega,?_,?_,h.deleting,?_⟩
  · have ho:=h.room
    rw [countP_append,countP_singleton,hin,hm]
    simp only [if_true]
    change st.missingReplicas-1+((c.holders st.deletingPods pods : Int)+_)≤_
    omega
  · refine forall_mem_concat.mpr ⟨?_,fun _ => AList.mem_insert _ |>.mpr (.inl rfl)⟩
    intro q hq hq'
    exact AList.mem_insert _ |>.mpr (.inr (h.creating q hq hq'))
  · exact forall_mem_concat.mpr ⟨h.fresh,fun _ => hn⟩

theorem Fits.charge_again (h : Fits c pods pending st) (hr : 0<st.missingReplicas)
    (key : String) (now : Int) : Fits c pods pending (WorkloadSpread.charge st key now) := by
  have hm : (WorkloadSpread.charge st key now).missingReplicas=st.missingReplicas-1 := by
    simp [WorkloadSpread.charge,hr]
  refine ⟨by omega,?_,?_,h.deleting,h.fresh⟩
  · have ho:=h.room
    rw [hm]
    change st.missingReplicas-1+((c.holders st.deletingPods pods : Int)+_)≤_
    omega
  · intro q hq hin
    exact AList.mem_insert _ |>.mpr (.inr (h.creating q hq hin))

theorem PodsOk.eq_of_name (h : PodsOk c pods pending) {q : Pod} (hp : p∈pods) (hq : q∈pods)
    (hn : p.name=q.name) : p=q := by
  by_contra hne
  have hpods:=(pairwise_append.mp h.apart).1
  exact (hpods.forall hp hq hne).names (h.named p hp) hn

theorem Fits.credit {x : Pod} (h : Fits c pods pending st) (hpods : PodsOk c pods pending)
    (hx : x∈pods) (hin : c.inTarget x) (ha : x.active) (hname : x.name∉st.deletingPods) (now : Int) :
    Fits c (pods.map (markDeletion x.serial)) pending (credit st x.name now) := by
  have hkp:=keeps_markDeletion c x.serial
  have hn:=h.nonneg
  have hm : (WorkloadSpread.credit st x.name now).missingReplicas=st.missingReplicas+1 := by
    simp [WorkloadSpread.credit,hn]
  have hmem : ∀ n,n∈(WorkloadSpread.credit st x.name now).deletingPods ↔
      n=x.name ∨ n∈st.deletingPods := fun n => AList.mem_insert _
  refine ⟨by omega,?_,h.creating,?_,?_⟩
  · -- the pod with the new record no longer holds its replica
    have hle : c.holders (WorkloadSpread.credit st x.name now).deletingPods
        (pods.map (markDeletion x.serial))+1≤c.holders st.deletingPods pods := by
      unfold Config.holders
      rw [countP_map,(perm_cons_erase hx).countP_eq, (perm_cons_erase hx).countP_eq,countP_cons,countP_cons]
      have hrest : (pods.erase x).countP ((fun p => c.inTarget p&&(p.active &&
          !decide (p.name∈(WorkloadSpread.credit st x.name now).deletingPods))) ∘ markDeletion x.serial) ≤
          (pods.erase x).countP fun p => c.inTarget p&&(p.active && !decide (p.name∈st.deletingPods)) := by
        refine countP_mono_left ?_
        intro p _ hcnt
        simp only [Function.comp_apply,Bool.and_eq_true,hkp.inTarget,hkp.name,
          Bool.not_eq_true',decide_eq_false_iff_not,hmem,not_or] at hcnt ⊢
        exact ⟨hcnt.1,hkp.active p hcnt.2.1,hcnt.2.2.2⟩
      have hg : ((fun p => c.inTarget p&&(p.active &&
          !decide (p.name∈(WorkloadSpread.credit st x.name now).deletingPods))) ∘
            markDeletion x.serial) x=false := by
        simp [hkp.name,hmem]
      have hh : (c.inTarget x&&(x.active&&!decide (x.name∈st.deletingPods))) := by
        simp [hin,ha,hname]
      rw [hg,hh]
      simp only [Bool.false_eq_true,if_false,if_true]
      omega
    have hroom:=h.room
    omega
  · intro q hq hq' hr
    obtain ⟨p,hp,rfl⟩ := mem_map.mp hq
    rw [hkp.inTarget] at hq'
    rw [hkp.name,hmem] at hr
    rcases hr with hr | hr
    · rw [hpods.eq_of_name hp hx hr]
      simp [markDeletion]
    · exact hkp.admitted p (h.deleting p hp hq' hr)
  · intro p hp hp' hne hr
    rcases (hmem _).mp hr with hr | hr
    · have hcross:=(pairwise_append.mp hpods.apart).2.2 x hx p hp
      exact hcross.names (hpods.named x hx) hr.symm
    · exact h.fresh p hp hp' hne hr

def SubsetStatus.recordsOnly (st : SubsetStatus) : SubsetStatus := {st with missingReplicas := 0}

theorem Fits.recordsOnly (h : Fits c pods pending st) : Fits c pods pending st.recordsOnly := by
  refine ⟨Int.le_refl 0,?_,h.creating,h.deleting,h.fresh⟩
  have hr:=h.room
  have hn:=h.nonneg
  change 0+((c.holders st.deletingPods pods : Int)+_)≤_
  omega

theorem Fits.recount {listed : List Pod} {old : SubsetStatus}
    (h : Fits c pods pending old.recordsOnly) (hpods : PodsOk c pods pending) (hperm : listed.Perm pods)
    (hst : RecountOf c.limit old (listed.filter fun p => p.subset=some c.target) st) :
    Fits c pods pending st := by
  have hl : ∀ p∈pods,c.inTarget p → p∈listed.filter fun p => decide (p.subset=some c.target) := by
    intro p hp hin
    refine mem_filter.mpr ⟨hperm.mem_iff.mpr hp,?_⟩
    exact decide_eq_true (hpods.subset p (mem_append_left _ hp) hin)
  have hkept : ∀ p∈pods,c.inTarget p → p.active → p.name∉st.deletingPods → p.name∉old.deletingPods := by
    intro p hp hin hact hn hold
    exact hn ((hst.deleting p.name).mpr ⟨hold,p,hl p hp hin,hact,rfl⟩)
  have hcre : ∀ p∈pending,c.inTarget p → p.key∈st.creatingPods := by
    intro p hp hin
    refine (hst.creating p.key).mpr ⟨h.creating p hp hin,?_⟩
    intro q hq
    have hq':=hperm.mem_iff.mp (mem_of_mem_filter hq)
    have hcross:=(pairwise_append.mp hpods.apart).2.2 q hq' p hp
    exact Ne.symm (hcross.symm.key_ne (hpods.keyed p hp hin))
  refine ⟨hst.nonneg,?_,hcre,?_,?_⟩
  · have hkeys : ((pending.filter c.inTarget).map Pod.key).Nodup := by
      have hpend:=(pairwise_append.mp hpods.apart).2.1
      refine pairwise_map.mpr ?_
      refine (hpend.filter c.inTarget).imp_of_mem ?_
      intro a b ha _ hab
      obtain ⟨hmem,hin⟩ := mem_filter.mp ha
      exact hab.key_ne (hpods.keyed a hmem hin)
    have hm:=hst.missing _ hkeys (by
      intro k hk
      obtain ⟨p,hp,rfl⟩ := mem_map.mp hk
      obtain ⟨hmem,hin⟩ := mem_filter.mp hp
      exact hcre p hmem hin)
    rw [length_map,← countP_eq_length_filter] at hm
    have hh : c.holders st.deletingPods pods≤c.holders old.deletingPods pods := by
      refine countP_mono_left ?_
      intro p hp hcnt
      simp only [Bool.and_eq_true,Bool.not_eq_true',decide_eq_false_iff_not] at hcnt ⊢
      exact ⟨hcnt.1,hcnt.2.1,hkept p hp hcnt.1 hcnt.2.1 hcnt.2.2⟩
    have ho : c.holders old.deletingPods pods ≤
        occupied old.deletingPods (listed.filter fun p => p.subset=some c.target) := by
      unfold occupied Config.holders
      rw [countP_filter,hperm.countP_eq]
      refine countP_mono_left ?_
      intro p hp hcnt
      obtain ⟨hin,hrest⟩ := Bool.and_eq_true_iff.mp hcnt
      rw [hrest,Bool.true_and]
      exact decide_eq_true (hpods.subset p (mem_append_left _ hp) hin)
    have hroom : 0+((c.holders old.deletingPods pods : Int)+_)≤_ := h.room
    omega
  · intro p hp hin hr
    exact h.deleting p hp hin ((hst.deleting p.name).mp hr).1
  · intro p hp hin hne hr
    exact h.fresh p hp hin hne ((hst.deleting p.name).mp hr).1

end Kruise.WorkloadSpread
