import Kruise.WorkloadSpread.Recount
import Mathlib.Data.List.Induction

/-!
# When the recount of missing replicas is exact

`calculateWorkloadSpreadSubsetStatus` (`workloadspread_controller.go:632-742`) counts with a
decrement that stops at zero and an increment for each deletion. Once the limit is used up the
decrement of a pod that is being deleted is lost and its increment is not, so that the number is
one too high after such a pod and right again after the next one that stays: the number depends on
the order of the list.
-/

namespace Kruise.WorkloadSpread

open Util Util.IntStr List

def creatingRecords (old : Option SubsetStatus) : Records :=
  (old.map SubsetStatus.creatingPods).getD ∅

def deletingRecords (old : Option SubsetStatus) : Records :=
  (old.map SubsetStatus.deletingPods).getD ∅

def staying (now : Int) (deleting : Records) (pods : List Pod) : Nat :=
  pods.countP fun p => p.active&&!deletionPending now deleting p

def isAwaited (now : Int) (pods : List Pod) (e : Sigma fun _ : String => Int) : Bool :=
  !expired creatPodTimeout now e.2&&pods.all fun p => p.key≠e.1

def awaited (now : Int) (creating : Records) (pods : List Pod) : Nat :=
  creating.entries.countP (isAwaited now pods)

def exactMissing (now maxReplicas : Int) (old : Option SubsetStatus) (pods : List Pod) : Int :=
  max 0 (maxReplicas-staying now (deletingRecords old) pods -
    awaited now (creatingRecords old) pods)

def endsInDeletion (now : Int) (deleting : Records) (pods : List Pod) : Bool :=
  (pods.filter Pod.active).getLast?.any (deletionPending now deleting)

structure SameRecords (old old' : Option SubsetStatus) : Prop where
  creating : (creatingRecords old).entries.Perm (creatingRecords old').entries
  deleting : (deletingRecords old).entries.Perm (deletingRecords old').entries

theorem deletionPending_perm {deleting deleting' : Records}
    (h : deleting.entries.Perm deleting'.entries) (now : Int) :
    deletionPending now deleting=deletionPending now deleting' := by
  funext p
  unfold deletionPending
  rw [AList.perm_lookup h]

theorem isAwaited_perm {pods pods' : List Pod} (h : pods.Perm pods') (now : Int) :
    isAwaited now pods=isAwaited now pods' := by
  funext e
  unfold isAwaited
  rw [h.all_eq]

section

variable {pods pods' : List Pod} {old old' : Option SubsetStatus} (hpods : pods.Perm pods')
  (ho : SameRecords old old') (now maxReplicas : Int)

include hpods ho

theorem staying_perm : staying now (deletingRecords old) pods=staying now (deletingRecords old') pods' := by
  unfold staying
  rw [deletionPending_perm ho.deleting,hpods.countP_eq]

theorem awaited_perm : awaited now (creatingRecords old) pods=awaited now (creatingRecords old') pods' := by
  unfold awaited
  rw [isAwaited_perm hpods,ho.creating.countP_eq]

theorem exactMissing_perm : exactMissing now maxReplicas old pods=exactMissing now maxReplicas old' pods' := by
  unfold exactMissing
  rw [staying_perm hpods ho,awaited_perm hpods ho]

end

section

variable (now : Int) (deleting : Records)

theorem endsInDeletion_append (pods : List Pod) (p : Pod) :
    endsInDeletion now deleting (pods++[p]) =
      if p.active then deletionPending now deleting p else endsInDeletion now deleting pods := by
  unfold endsInDeletion
  cases hp : p.active with
  | true => simp [hp]
  | false => simp [hp]

theorem staying_append (pods : List Pod) (p : Pod) :
    staying now deleting (pods++[p])=staying now deleting pods +
      if p.active&&!deletionPending now deleting p then 1 else 0 := by
  unfold staying
  rw [countP_append,countP_singleton]

end

def afterPods (now maxReplicas : Int) (deleting : Records) (pods : List Pod) : Int :=
  if (staying now deleting pods : Int) < maxReplicas then maxReplicas-staying now deleting pods
  else if maxReplicas≠0 ∧ endsInDeletion now deleting pods then 1 else 0

theorem afterPods_bounds (now : Int) {maxReplicas : Int} (hm : 0 ≤ maxReplicas) (deleting : Records)
    (pods : List Pod) :
    0≤afterPods now maxReplicas deleting pods ∧ afterPods now maxReplicas deleting pods ≤ maxReplicas := by
  unfold afterPods
  split_ifs <;> omega

/- While room is left nothing is lost. After that the last active pod decides. -/
theorem foldl_tallyPod_missing_afterPods (now : Int) {maxReplicas : Int}
    (creating deleting : Records) (pods : List Pod) (hm : 0 ≤ maxReplicas) :
    (pods.foldl (tallyPod now maxReplicas deleting) ⟨creating,∅,maxReplicas,0⟩).missing =
      afterPods now maxReplicas deleting pods := by
  induction pods using reverseRecOn with
  | nil =>
    simp only [afterPods,staying,endsInDeletion,foldl_nil,filter_nil,countP_nil,getLast?_nil,Option.any_none]
    grind
  | append_singleton pods p ih =>
    have hr:=afterPods_bounds now hm deleting pods
    rw [← ih] at hr
    rw [foldl_append,foldl_cons,foldl_nil,tallyPod_missing now deleting p hr.1 hr.2,ih]
    unfold afterPods
    rw [endsInDeletion_append,staying_append]
    cases p.active with
    | false => simp
    | true => cases deletionPending now deleting p <;> grind

theorem countP_creating {now maxReplicas : Int} {deleting : Records} (pods : List Pod) (t : Tally) :
    (pods.foldl (tallyPod now maxReplicas deleting) t).creating.entries.countP
        (fun e => !expired creatPodTimeout now e.2) =
      awaited now t.creating pods := by
  obtain ⟨hsub,hm⟩ := foldl_tallyPod_creating now maxReplicas deleting t pods
  generalize pods.foldl (tallyPod now maxReplicas deleting) t=t' at hsub hm
  have hperm : t'.creating.entries.Perm (t.creating.entries.filter fun e => pods.all fun p => p.key≠e.1) := by
    refine (perm_ext_iff_of_nodup t'.creating.nodupKeys.nodup (t.creating.nodupKeys.nodup.filter _)).mpr fun e => ?_
    have hk : e.1∈t'.creating ↔ e.1∈t.creating ∧ ∀ p∈pods,p.key≠e.1 := hm e.1
    rw [mem_filter,all_eq_true]
    simp only [decide_eq_true_eq]
    constructor
    · intro he
      exact ⟨hsub.subset he,(hk.mp (mem_map_of_mem he)).2⟩
    · rintro ⟨he,hn⟩
      -- the key is left, and it has one value only
      obtain ⟨time,ht⟩ := mem_keys.mp (hk.mpr ⟨mem_map_of_mem he,hn⟩)
      have hval:=t.creating.nodupKeys.eq_of_mk_mem (hsub.subset ht) he
      rwa [hval] at ht
  rw [hperm.countP_eq,countP_filter]
  exact countP_congr fun e _ => by rw [isAwaited]

theorem calculateWorkloadSpreadSubsetStatus_missing (now : Int) {workloadReplicas maxReplicas : Int}
    {s : SubsetSpec} (pods : List Pod) (old : Option SubsetStatus)
    (hspec : subsetMaxReplicas s workloadReplicas=some maxReplicas) (hmax : 0 ≤ maxReplicas) :
    ∃ st,calculateWorkloadSpreadSubsetStatus now pods s old workloadReplicas=some st ∧
      st.missingReplicas=max 0 (afterPods now maxReplicas (deletingRecords old) pods -
        awaited now (creatingRecords old) pods) := by
  unfold calculateWorkloadSpreadSubsetStatus
  rw [hspec]
  refine ⟨_,rfl,?_⟩
  have hcnt:=@countP_creating now maxReplicas (deletingRecords old) pods ⟨creatingRecords old,∅,maxReplicas,0⟩
  have hm:=foldl_tallyPod_missing_afterPods now (creatingRecords old) (deletingRecords old) pods hmax
  have hn:=(afterPods_bounds now hmax (deletingRecords old) pods).1
  rw [← hm] at hn ⊢
  rw [← hcnt]
  exact foldl_tallyCreating_missing now _ (∅,_) hn

/- For one order of the pods the last active one decides. -/
theorem missingReplicas_eq_iff (now : Int) {workloadReplicas maxReplicas : Int} (pods : List Pod) {s : SubsetSpec}
    (old : Option SubsetStatus) (hspec : subsetMaxReplicas s workloadReplicas=some maxReplicas)
    (hmax : 0 ≤ maxReplicas) :
    ∃ st,calculateWorkloadSpreadSubsetStatus now pods s old workloadReplicas=some st ∧
      (st.missingReplicas=exactMissing now maxReplicas old pods ↔
        maxReplicas=0 ∨ (staying now (deletingRecords old) pods : Int) < maxReplicas ∨
          0<awaited now (creatingRecords old) pods ∨
          endsInDeletion now (deletingRecords old) pods=false) := by
  obtain ⟨st,hst,hm⟩ := calculateWorkloadSpreadSubsetStatus_missing now pods old hspec hmax
  refine ⟨st,hst,?_⟩
  rw [hm]
  unfold exactMissing afterPods
  cases endsInDeletion now (deletingRecords old) pods with
  | false =>
    simp only [Bool.false_eq_true,and_false,if_false,or_true,iff_true]
    split_ifs <;> omega
  | true =>
    simp only [and_true,Bool.true_eq_false,or_false]
    split_ifs <;> omega

theorem endsInDeletion_eq_false {now : Int} {deleting : Records} {pods : List Pod}
    (h : ∀ p∈pods,p.active → deletionPending now deleting p=false) : endsInDeletion now deleting pods=false := by
  unfold endsInDeletion
  rw [Option.any_eq_false]
  intro p hp
  obtain ⟨hm,hact⟩ := mem_filter.mp (mem_of_getLast? hp)
  exact Bool.not_eq_true _ ▸ h p hm hact

/-- The recount is exact for every order of the pods and of the records if and only if the limit is
zero, or is not used up by the pods that stay, or a creation is awaited, or no active pod is being
deleted. -/
theorem missingReplicas_exact_iff (now workloadReplicas maxReplicas : Int) (pods : List Pod)
    (s : SubsetSpec) (old : Option SubsetStatus)
    (hspec : subsetMaxReplicas s workloadReplicas=some maxReplicas) (hmax : 0 ≤ maxReplicas) :
    (∀ pods' old',pods.Perm pods' → SameRecords old old' →
      ∃ st,calculateWorkloadSpreadSubsetStatus now pods' s old' workloadReplicas=some st ∧
        st.missingReplicas=exactMissing now maxReplicas old pods) ↔
      maxReplicas=0 ∨ (staying now (deletingRecords old) pods : Int) < maxReplicas ∨
        0<awaited now (creatingRecords old) pods ∨
        ∀ p∈pods,p.active → deletionPending now (deletingRecords old) p=false := by
  constructor
  · intro h
    by_contra hc
    push Not at hc
    obtain ⟨hz,hs,hw,p,hp,hact,hdel⟩ := hc
    -- the list with such a pod at the end
    obtain ⟨before,after,rfl⟩ := append_of_mem hp
    have hperm : (before++p::after).Perm (before++after++[p]) :=
      perm_middle.trans (perm_append_singleton p _).symm
    have hsame : SameRecords old old := ⟨.refl _,.refl _⟩
    obtain ⟨st,hst,hex⟩ := h _ old hperm hsame
    obtain ⟨st',hst',hi⟩ := missingReplicas_eq_iff now (before++after++[p]) old hspec hmax
    cases hst.symm.trans hst'
    rw [exactMissing_perm hperm hsame] at hex
    rw [staying_perm hperm hsame] at hs
    rw [awaited_perm hperm hsame] at hw
    have hend:=endsInDeletion_append now (deletingRecords old) (before++after) p
    rw [if_pos hact,Bool.eq_true_of_not_eq_false hdel] at hend
    rcases hi.mp hex with h0 | hlt | hpos | hno
    · exact hz h0
    · omega
    · omega
    · exact absurd (hend.symm.trans hno) (by decide)
  · intro hc pods' old' hpods ho
    obtain ⟨st,hst,hi⟩ := missingReplicas_eq_iff now pods' old' hspec hmax
    refine ⟨st,hst,?_⟩
    rw [exactMissing_perm hpods ho,hi,← staying_perm hpods ho,← awaited_perm hpods ho]
    refine hc.imp_right (Or.imp_right (Or.imp_right fun hno => endsInDeletion_eq_false fun p hp hact => ?_))
    rw [← deletionPending_perm ho.deleting]
    exact hno p (hpods.mem_iff.mpr hp) hact

def zoneA : SubsetSpec := ⟨"zone-a",some (.int 1)⟩

def stays : Pod := ⟨0, "web-a", "",some "zone-a",true,some "zone-a",false⟩

def goes : Pod := ⟨1, "web-b", "",some "zone-a",true,some "zone-a",true⟩

/- The deletion of `web-b` was recorded at time zero. -/
def oneDeletion : SubsetStatus := ⟨"zone-a",false,0,∅,AList.singleton "web-b" 0,2⟩

def recounted (pods : List Pod) : Option Int :=
  (calculateWorkloadSpreadSubsetStatus 1 pods zoneA (some oneDeletion) 2).map
    SubsetStatus.missingReplicas

/-- One replica is left over for a subset of one that `web-a` fills. -/
theorem full_subset_has_room : exactMissing 1 1 (some oneDeletion) [stays,goes]=0 ∧
    recounted [stays,goes]=some 1 ∧ recounted [goes,stays]=some 0 := by
  decide

/-- With room for two the order does not matter. -/
theorem half_full_subset_exact :
    let zone : SubsetSpec := ⟨"zone-a",some (.int 2)⟩
    let missing:=exactMissing 1 2 (some oneDeletion) [stays,goes]
    missing=1 ∧ (∃ st,calculateWorkloadSpreadSubsetStatus 1 [stays,goes] zone (some oneDeletion) 2=some st ∧
        st.missingReplicas=missing) ∧
      ∃ st,calculateWorkloadSpreadSubsetStatus 1 [goes,stays] zone (some oneDeletion) 2=some st ∧
        st.missingReplicas=missing := by
  intro zone missing
  have h:=(missingReplicas_exact_iff 1 2 2 [stays,goes] zone (some oneDeletion) rfl (by decide)).mpr
    (.inr (.inl (by decide)))
  have hsame : SameRecords (some oneDeletion) (some oneDeletion) := ⟨.refl _,.refl _⟩
  exact ⟨by decide,h _ _ (.refl _) hsame,h _ _ (.swap goes stays []) hsame⟩

end Kruise.WorkloadSpread
