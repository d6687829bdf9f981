import Kruise.CloneSet.RolloutScale

/-!
# `Update` in a rollout

It fills in missing `pod-template-hash` labels first, and otherwise moves at least one and at most
the needed number of pods to the target revision.
-/

namespace Kruise.CloneSet

open Util.IntStr Lib.Counting List Function

variable {r : Rollout} {w : World} {apis : Apis} (now minReadySeconds : Int)

theorem limitUpdateIndexes_take (diffs : ExpectationDiffs) (indexes : List Nat) (pods : List Pod)
    (targetRevision : String) :
    ∃ m : Nat,limitUpdateIndexes now minReadySeconds diffs indexes pods targetRevision =
      indexes.take m ∧ (m : Int) ≤ intAbs diffs.updateNum := by
  unfold limitUpdateIndexes
  rw [take_take]
  refine ⟨_,rfl,?_⟩
  have ha : 0 ≤ intAbs diffs.updateNum := Int.natCast_nonneg _
  omega

section

variable (r : Rollout) (apis : Apis) (w : World)

def Rollout.updateNum : Int :=
  (updateDiffs r.env w.now r.cs r.currentRevision r.updateRevision w.pods).updateNum

def Rollout.target : String :=
  targetRevision r.env w.now r.cs r.currentRevision r.updateRevision w.pods

def Rollout.waiting : List Nat :=
  sortUpdateIndexes apis.sorters w.pods (waitUpdateIndexes (r.updateNum w) r.updateRevision w.pods)

def Rollout.indexes : List Nat :=
  selectedIndexes r.env apis.sorters w.now r.cs r.currentRevision r.updateRevision w.pods

def Rollout.selected : List Pod :=
  selectedPods r.env apis.sorters w.now r.cs r.currentRevision r.updateRevision w.pods

theorem Rollout.indexes_take :
    ∃ m : Nat,(m : Int) ≤ intAbs (r.updateNum w) ∧ r.indexes apis w=(r.waiting apis w).take m := by
  by_cases hn : r.updateNum w=0
  · refine ⟨0,Int.natCast_nonneg _,?_⟩
    exact if_pos hn
  · obtain ⟨m,heq,hle⟩ := limitUpdateIndexes_take w.now r.cs.minReadySeconds
      (updateDiffs r.env w.now r.cs r.currentRevision r.updateRevision w.pods) (r.waiting apis w) w.pods (r.target w)
    exact ⟨m,hle,(if_neg hn).trans heq⟩

theorem Rollout.mem_indexes (i : Nat) (hi : i∈r.indexes apis w) :
    i<w.pods.length ∧ podAt w.pods (canUpdate (r.updateNum w) r.updateRevision) i := by
  obtain ⟨m,_,heq⟩ := r.indexes_take apis w
  rw [heq] at hi
  have hm:=(sortUpdateIndexes_perm apis.sorters w.pods _).mem_iff.mp (mem_of_mem_take hi)
  obtain ⟨hr,hcan⟩ := mem_filter.mp hm
  exact ⟨mem_range.mp hr,hcan⟩

theorem Rollout.selected_canUpdate (p : Pod) (hp : p∈r.selected apis w) :
    canUpdate (r.updateNum w) r.updateRevision p := by
  obtain ⟨i,hi,hg⟩ := mem_filterMap.mp hp
  have hcan:=(r.mem_indexes apis w i hi).2
  simpa [podAt,hg] using hcan

theorem Rollout.selected_length : (r.selected apis w).length=(r.indexes apis w).length := by
  refine filterMap_length_eq_length.mpr ?_
  intro i hi
  simp [(r.mem_indexes apis w i hi).1]

theorem Rollout.selected_perm : ∃ rest,w.pods.Perm (r.selected apis w++rest) := by
  obtain ⟨m,_,heq⟩ := r.indexes_take apis w
  let others:=(range w.pods.length).filter fun i =>
    !podAt w.pods (canUpdate (r.updateNum w) r.updateRevision) i
  have hr : (range w.pods.length).Perm ((r.waiting apis w).take m++((r.waiting apis w).drop m++others)) := by
    rw [← append_assoc,take_append_drop]
    exact ((Perm.append_right _ (sortUpdateIndexes_perm apis.sorters w.pods _)).trans (filter_append_perm _ _)).symm
  refine ⟨((r.waiting apis w).drop m++others).filterMap (w.pods[·]?),?_⟩
  have hpods:=hr.filterMap (w.pods[·]?)
  rw [filterMap_range_get,filterMap_append,← heq] at hpods
  exact hpods

end

def labelled (pods : List Pod) : Bool := pods.all (·.templateHash)

theorem Rollout.Settled.refreshedState_none (hw : r.Settled w) (api : UpdateApi) (p : Pod)
    (hp : p∈w.pods) : refreshedState api r.cs p r.updateRevision=none := by
  rcases hw.state p hp with h | h <;> simp [refreshedState,h]

theorem Rollout.Settled.refreshPods_eq (hw : r.Settled w) (ha : r.Accepting w apis) :
    refreshPods apis.update r.cs r.updateRevision w.pods=some (!labelled w.pods) := by
  have hl (pods : List Pod) (hsub : ∀ p∈pods,p∈w.pods) :
      refreshPods apis.update r.cs r.updateRevision pods=some (!labelled pods) := by
    induction pods with
    | nil => rfl
    | cons p pods ih =>
      have hp:=hsub p mem_cons_self
      have hst : refreshPodState apis.update r.cs p r.updateRevision=some false := by
        simp [refreshPodState,ha.refresh,hw.refreshedState_none _ p hp]
      have hh : fixPodTemplateHashLabel apis.update p=some (!p.templateHash) := by
        cases ht : p.templateHash <;> simp [fixPodTemplateHashLabel,ht,ha.templateHash]
      unfold refreshPods
      rw [hst,hh,ih fun q hq => hsub q (mem_cons_of_mem p hq)]
      simp [labelled]
  exact hl w.pods fun _ hp => hp

theorem Rollout.Settled.updatePod_eq (hw : r.Settled w) (ha : r.Accepting w apis)
    (target : String) (p : Pod) (hp : p∈w.pods) :
    updatePod apis.update r.cs target p=some (some (.inPlace target)) := by
  have hpl : updateInPlace apis.update r.cs target p=some (some (.inPlace target)) := by
    simp [updateInPlace,ha.inPlaceUpdate]
  unfold updatePod
  simp only [if_neg r.inPlace,ha.canUpdateInPlace,r.noHooks,Option.bind_none,isPodHooked,
    Bool.not_true,Bool.false_eq_true,if_false]
  rcases hw.state p hp with h | h <;> simp [h,hpl]

theorem Rollout.Settled.updatePods_eq (hw : r.Settled w) (ha : r.Accepting w apis)
    (target : String) (pods : List Pod) (hsub : ∀ p∈pods,p∈w.pods) :
    updatePods r.env apis.update r.cs target pods = ⟨false,false,pods.map fun p => (p,.inPlace target)⟩ := by
  induction pods with
  | nil => rfl
  | cons p pods ih =>
    have hg : (if r.env.podUnavailableBudgetUpdateGate then apis.update.pubAllows p
        else some true)=some true := by
      rw [ha.pubAllows,ite_self]
    unfold updatePods
    simp only [hg,hw.updatePod_eq ha target p (hsub p mem_cons_self),
      ih fun q hq => hsub q (mem_cons_of_mem p hq),map_cons]

theorem Rollout.selected_mem (p : Pod) (hp : p∈r.selected apis w) : p∈w.pods := by
  obtain ⟨rest,hperm⟩ := r.selected_perm apis w
  exact hperm.mem_iff.mpr (mem_append_left rest hp)

theorem Rollout.Settled.updateResult_eq (hw : r.Settled w) (ha : r.Accepting w apis) :
    r.updateResult apis w =
      if labelled w.pods then
        ⟨false,false,(r.selected apis w).map fun p => (p,.inPlace (r.target w))⟩
      else ⟨false,true,[]⟩ := by
  unfold Rollout.updateResult update
  rw [hw.refreshPods_eq ha]
  cases hl : labelled w.pods with
  | false => rfl
  | true =>
    simp only [Bool.not_true,r.notPaused,Bool.false_eq_true,if_false,if_true]
    exact hw.updatePods_eq ha _ _ fun p hp => r.selected_mem p hp

/-! ## Pods and numbers after `Update` -/

theorem find_selected (selected : List Pod) (target : String) (p : Pod) :
    ((selected.map fun q => (q,PodUpdate.inPlace target)).find? (·.1.name=p.name)).isSome =
      decide (p.name∈selected.map (·.name)) := by
  induction selected with
  | nil => rfl
  | cons q selected ih =>
    simp only [map_cons,find?_cons,mem_cons]
    by_cases h : q.name=p.name
    · simp [h]
    · simp only [h,decide_false,ih,Ne.symm h,false_or]

theorem applyUpdate_selected (selected pods : List Pod) (target : String) :
    r.applyUpdate apis ⟨false,false,selected.map fun p => (p,.inPlace target)⟩ pods =
      pods.map fun p => if p.name∈selected.map (·.name)
        then writeRevisionHash r.env {p with lifecycleState := .updating} target else p := by
  apply map_congr_left
  intro p _
  have hsome:=find_selected selected target p
  cases hf : (selected.map fun q => (q,PodUpdate.inPlace target)).find? (·.1.name=p.name) with
  | none =>
    rw [hf] at hsome
    rw [if_neg (by simpa using hsome.symm)]
  | some found =>
    rw [hf] at hsome
    rw [if_pos (by simpa using hsome.symm)]
    obtain ⟨q,_,rfl⟩ := mem_map.mp (mem_of_find?_eq_some hf)
    rfl

variable {pods selected rest : List Pod}

theorem countP_updated (hn : (pods.map (·.name)).Nodup) (hperm : pods.Perm (selected++rest))
    (g : Pod → Pod) (f : Pod → Bool) :
    (pods.map fun p => if p.name∈selected.map (·.name) then g p else p).countP f =
      selected.countP (fun p => f (g p))+rest.countP f := by
  have hnd : ((selected++rest).map (·.name)).Nodup := (hperm.map _).nodup_iff.mp hn
  rw [map_append,nodup_append'] at hnd
  rw [countP_map,hperm.countP_eq,countP_append]
  congr 1
  · apply countP_congr
    intro p hp
    have hm : p.name∈selected.map (·.name) := mem_map_of_mem hp
    simp only [comp_apply,if_pos hm]
  · apply countP_congr
    intro p hp
    have hm : p.name∉selected.map (·.name) :=
      fun h => hnd.2.2 h (mem_map_of_mem hp)
    simp only [comp_apply,if_neg hm]

theorem Rollout.Settled.reconcile_of_total (hw : r.Settled w) (h : (r.numbers w.pods).total=r.expected w) :
    r.reconcile apis w=r.applyUpdate apis (r.updateResult apis w) w.pods := by
  unfold Rollout.reconcile
  rw [hw.scaleResult_idle h]
  rfl

theorem Rollout.Settled.kept_map (hw : r.Settled w) (g : Pod → Pod)
    (hname : ∀ p,(g p).name=p.name) (hspec : ∀ p,(g p).specifiedDelete=p.specifiedDelete) :
    r.Kept (w.pods.map g) := by
  constructor
  · intro q hq
    obtain ⟨p,hp,rfl⟩ := mem_map.mp hq
    have hun:=hw.unmarked p hp
    unfold isSpecifiedDelete at hun ⊢
    rw [hname,hspec]
    exact hun
  · rw [map_map]
    have hn : ((·.name) ∘ g : Pod → String)=(·.name) := funext hname
    rw [hn]
    exact hw.names

def unlabelled (pods : List Pod) : Nat := pods.countP fun p => !p.templateHash

theorem Rollout.Settled.reconcile_label (hw : r.Settled w) (ha : r.Accepting w apis)
    (h : (r.numbers w.pods).total=r.expected w) (hl : labelled w.pods=false) :
    r.Kept (r.reconcile apis w) ∧ r.numbers (r.reconcile apis w)=r.numbers w.pods ∧
      unlabelled (r.reconcile apis w)<unlabelled w.pods := by
  have hpods : r.reconcile apis w=w.pods.map fun p => {p with templateHash := true} := by
    rw [hw.reconcile_of_total h,hw.updateResult_eq ha,hl]
    apply map_congr_left
    intro p hp
    rw [hw.refreshedState_none _ p hp]
    rfl
  rw [hpods]
  refine ⟨hw.kept_map _ (fun _ => rfl) (fun _ => rfl),?_,?_⟩
  · simp only [Rollout.numbers,countP_map]
    rfl
  · have hz : unlabelled (w.pods.map fun p => {p with templateHash := true})=0 := by
      simp [unlabelled,countP_map,comp_def]
    rw [hz]
    obtain ⟨p,hp,hlab⟩ : ∃ p∈w.pods,p.templateHash=false := by
      simpa [labelled] using hl
    exact countP_pos_iff.mpr ⟨p,hp,by simp [hlab]⟩

theorem limitLoop_pos (available : Nat → Bool) (maxUnavailable target unavailable : Int)
    (i : Nat) (indexes : List Nat) (ht : target < maxUnavailable) (hu : unavailable < maxUnavailable) :
    1≤limitLoop available maxUnavailable target unavailable 0 (i::indexes) := by
  unfold limitLoop
  rw [if_neg (by omega)]
  split_ifs with hav hun
  · omega
  · obtain ⟨k,heq,_⟩ := limitLoop_spec available maxUnavailable target (unavailable+1) (0+1) indexes
    omega
  · obtain ⟨k,heq,_⟩ := limitLoop_spec available maxUnavailable target unavailable (0+1) indexes
    omega

theorem limitUpdateIndexes_pos (diffs : ExpectationDiffs) (indexes : List Nat) (pods : List Pod)
    (targetRevision : String) (hne : indexes≠[]) (hnum : 1 ≤ intAbs diffs.updateNum)
    (hm : 1≤diffs.updateMaxUnavailable) (ha : ∀ p∈pods,isPodAvailable now p minReadySeconds) :
    1≤(limitUpdateIndexes now minReadySeconds diffs indexes pods targetRevision).length := by
  have hz (f : Pod → Bool) : pods.countP (fun p => !isPodAvailable now p minReadySeconds&&f p)=0 := by
    rw [countP_eq_zero]
    intro p hp
    simp [ha p hp]
  have hun : pods.countP (fun p => !isPodAvailable now p minReadySeconds)=0 := by
    simpa using hz fun _ => true
  obtain ⟨i,rest,hcut⟩ : ∃ i rest,indexes.take (intAbs diffs.updateNum).toNat=i::rest := by
    rw [← ne_nil_iff_exists_cons,ne_eq,take_eq_nil_iff]
    intro hor
    rcases hor with hz | hn
    · omega
    · exact hne hn
  have hl:=limitLoop_pos (podAt pods fun p => isPodAvailable now p minReadySeconds)
    diffs.updateMaxUnavailable 0 0 i rest (by omega) (by omega)
  unfold limitUpdateIndexes
  simp only [hcut,hun,hz,Int.natCast_zero]
  rw [length_take,length_cons]
  omega

section

variable (apis)
variable (hw : r.Settled w) (h : (r.numbers w.pods).total=r.expected w)
variable (hneed : (r.numbers w.pods).need r.rollback r.limits≠0)

include hw h

theorem Rollout.Settled.updateNum_eq :
    r.updateNum w=if (r.numbers w.pods).backward r.rollback r.limits
      then -(r.numbers w.pods).need r.rollback r.limits
      else (r.numbers w.pods).need r.rollback r.limits := by
  rw [Rollout.updateNum,hw.updateDiffs_eq]
  exact (settledDiffs_update r.rollback _ r.limits (r.numbers w.pods) h).1

theorem Rollout.Settled.selected_le :
    ((r.selected apis w).length : Int)≤(r.numbers w.pods).need r.rollback r.limits := by
  obtain ⟨m,hm,heq⟩ := r.indexes_take apis w
  have hn : 0≤(r.numbers w.pods).need r.rollback r.limits := Numbers.need_nonneg
  have hl:=length_take_le m (r.waiting apis w)
  rw [← heq] at hl
  rw [r.selected_length]
  rw [hw.updateNum_eq h] at hm
  unfold intAbs at hm
  split_ifs at hm <;> omega

include hneed

theorem Rollout.Settled.exists_waiting :
    ∃ p∈w.pods,canUpdate (r.updateNum w) r.updateRevision p := by
  have hn : 0≤(r.numbers w.pods).need r.rollback r.limits := Numbers.need_nonneg
  have hp:=r.limits.partition_nonneg
  have hr:=r.limits.partition_le
  have hfind (f : Pod → Bool) (hpos : 0<(w.pods.countP f : Int)) : ∃ p∈w.pods,f p :=
    countP_pos_iff.mp (by omega)
  rw [hw.updateNum_eq h]
  by_cases hb : (r.numbers w.pods).backward r.rollback r.limits
  · have hpos:=hb.2.2
    simp only [Numbers.newExcess] at hpos
    obtain ⟨p,hm,hnew⟩ := hfind r.isNew (by
      change 0<(r.numbers w.pods).new
      omega)
    refine ⟨p,hm,?_⟩
    have hgr:=hw.noGrace p hm
    rw [if_pos hb]
    unfold canUpdate
    rw [if_neg (by omega)]
    rcases hw.state p hm with hs | hs <;> simpa [hs,hgr,Rollout.isNew] using hnew
  · have hf : (r.numbers w.pods).forward r.limits := by
      by_contra hf
      exact hneed (Numbers.need_of_neither hf hb)
    have hpos:=hf.1
    simp only [Numbers.oldExcess] at hpos
    obtain ⟨p,hm,ho⟩ := hfind (fun p => !r.isNew p) (by
      change 0<(r.numbers w.pods).old
      omega)
    refine ⟨p,hm,?_⟩
    have hgr:=hw.noGrace p hm
    rw [if_neg hb]
    unfold canUpdate
    rw [if_pos (by omega)]
    rcases hw.state p hm with hs | hs <;> simpa [hs,hgr,Rollout.isNew] using ho

theorem Rollout.Settled.selected_pos : 1≤(r.selected apis w).length := by
  have hn:=hw.updateNum_eq h
  have hbud : (r.diffs w).updateNum≠0 → 1≤(r.diffs w).updateMaxUnavailable := (settledDiffs_update _ _ _ _ h).2
  rw [← hw.updateDiffs_eq] at hbud
  have hne : r.updateNum w≠0 := by
    rw [hn]
    split_ifs <;> omega
  have hm:=hbud hne
  obtain ⟨p,hp,hcan⟩ := hw.exists_waiting h hneed
  obtain ⟨i,hi,hg⟩ := mem_iff_getElem.mp hp
  -- the sorted list of waiting indexes has a first element, and so has its cut
  have hwait : i∈r.waiting apis w := by
    rw [Rollout.waiting,(sortUpdateIndexes_perm _ _ _).mem_iff,waitUpdateIndexes,mem_filter]
    simpa [podAt,hi,hg] using hcan
  unfold Rollout.updateNum at hne
  rw [r.selected_length,Rollout.indexes,selectedIndexes,if_neg hne]
  exact limitUpdateIndexes_pos _ _ _ _ _ _ (ne_nil_of_mem hwait) (by unfold intAbs; omega) hm hw.available

end

theorem Rollout.isNew_writeRevisionHash (p : Pod) (revision : String) :
    r.isNew (writeRevisionHash r.env {p with lifecycleState := .updating} revision) ↔
      getShortHash r.updateRevision=getShortHash revision :=
  equalToRevisionHash_writeRevisionHash r.env _ revision r.updateRevision

theorem Rollout.numbers_updated (hn : (pods.map (·.name)).Nodup)
    (hperm : pods.Perm (selected++rest)) (g : Pod → Pod) (side : Bool)
    (hbef : ∀ p∈selected,r.isNew p = !side) (ha : ∀ p,r.isNew (g p)=side) :
    r.numbers (pods.map fun p => if p.name∈selected.map (·.name) then g p else p) =
      if side then ⟨(r.numbers pods).old-selected.length,(r.numbers pods).new+selected.length⟩
      else ⟨(r.numbers pods).old+selected.length,(r.numbers pods).new-selected.length⟩ := by
  have hcnt:=countP_updated hn hperm g
  have hnew:=hcnt r.isNew
  have hold:=hcnt fun p => !r.isNew p
  have hnew0 : pods.countP r.isNew=selected.countP r.isNew+rest.countP r.isNew := by
    rw [hperm.countP_eq,countP_append]
  have ho : pods.countP (fun p => !r.isNew p) =
      selected.countP (fun p => !r.isNew p)+rest.countP fun p => !r.isNew p := by
    rw [hperm.countP_eq,countP_append]
  have h1 : selected.countP r.isNew=selected.countP fun _ => !side :=
    countP_congr fun p hp => by rw [hbef p hp]
  have h2 : selected.countP (fun p => !r.isNew p)=selected.countP fun _ => side :=
    countP_congr fun p hp => by rw [hbef p hp,Bool.not_not]
  simp only [ha] at hnew hold
  unfold Rollout.numbers
  cases side with
  | true =>
    simp only [countP_true,countP_false,const_apply,Bool.not_true] at *
    simp only [if_true,Numbers.mk.injEq]
    omega
  | false =>
    simp only [countP_true,countP_false,const_apply,Bool.not_false] at *
    simp only [Bool.false_eq_true,if_false,Numbers.mk.injEq]
    omega

theorem Rollout.Settled.reconcile_update (hw : r.Settled w) (ha : r.Accepting w apis)
    (h : (r.numbers w.pods).total=r.expected w) (hl : labelled w.pods)
    (hneed : (r.numbers w.pods).need r.rollback r.limits≠0) :
    r.Kept (r.reconcile apis w) ∧ r.Steps w.pods (r.reconcile apis w) := by
  have hpods : r.reconcile apis w=w.pods.map fun p =>
      if p.name∈(r.selected apis w).map (·.name)
      then writeRevisionHash r.env {p with lifecycleState := .updating} (r.target w) else p := by
    rw [hw.reconcile_of_total h,hw.updateResult_eq ha,if_pos hl,applyUpdate_selected]
  obtain ⟨rest,hperm⟩ := r.selected_perm apis w
  have hm:=r.numbers_updated hw.names hperm fun p =>
    writeRevisionHash r.env {p with lifecycleState := .updating} (r.target w)
  have hcan:=r.selected_canUpdate apis w
  have hle:=hw.selected_le apis h
  have hpos:=hw.selected_pos apis h hneed
  have hn:=hw.updateNum_eq h
  have ht : r.target w=if (r.numbers w.pods).backward r.rollback r.limits
      then r.currentRevision else r.updateRevision := by
    change (if r.updateNum w<0 then _ else _)=_
    rw [hn]
    split_ifs <;> first | rfl | omega
  rw [hpods]
  refine ⟨hw.kept_map _ (fun p => by split_ifs <;> rfl) (fun p => by split_ifs <;> rfl),?_⟩
  by_cases hb : (r.numbers w.pods).backward r.rollback r.limits
  · rw [if_pos hb] at hn ht
    have hd : r.currentRevision≠r.updateRevision := by
      intro hsame
      have hr:=hb.1
      simp [Rollout.rollback,rollbackAllowed,hsame] at hr
    have hside:=hm false (fun p hp => by
      have hc:=hcan p hp
      unfold canUpdate at hc
      rw [if_neg (by omega)] at hc
      simpa [Rollout.isNew] using (Bool.and_eq_true_iff.mp hc).1) (fun p => by
      rw [Bool.eq_false_iff,ne_eq,r.isNew_writeRevisionHash,ht]
      exact fun heq => hd (r.wellNamed heq.symm))
    rw [Rollout.Steps,hside]
    exact .rollback _ hb (by exact_mod_cast hpos) hle
  · have hf : (r.numbers w.pods).forward r.limits := by
      by_contra hf
      exact hneed (Numbers.need_of_neither hf hb)
    rw [if_neg hb] at hn ht
    have hside:=hm true (fun p hp => by
      have hc:=hcan p hp
      unfold canUpdate at hc
      rw [if_pos (by omega)] at hc
      simpa [Rollout.isNew] using (Bool.and_eq_true_iff.mp hc).1) (fun p => by
      rw [r.isNew_writeRevisionHash,ht])
    rw [Rollout.Steps,hside]
    exact .update _ hf (by exact_mod_cast hpos) hle

end Kruise.CloneSet
