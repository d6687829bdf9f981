import Kruise.Lib.Sorting
import Kruise.Lib.Spread
import Kruise.UnitedDeployment.Allocation

/-!
# Repeated allocations

`specificAllocator.Alloc` (`pkg/controller/uniteddeployment/allocator.go:46-92, 148-215`) sorts
the subsets by the replicas they have and gives the larger shares from the end of that order, so
subsets that have what an allocation gave them keep their places.
-/

namespace Kruise.UnitedDeployment

open Lib.Keyed Lib.Spread Util.IntStr List

def NameToReplicas.isOpen (s : NameToReplicas) : Bool := !s.specified

theorem spreadRest_open (average : Int) (infos : List NameToReplicas) (remainder : Int) :
    ((spreadRest id average infos remainder (unspecified infos)).filter
        NameToReplicas.isOpen).map NameToReplicas.subsetName =
      (infos.filter NameToReplicas.isOpen).map NameToReplicas.subsetName ∧
    ((spreadRest id average infos remainder (unspecified infos)).filter
        NameToReplicas.isOpen).map NameToReplicas.replicas =
      (range (unspecified infos)).map fun (place : Nat) =>
        if (place : Int)<remainder then average+1 else average := by
  induction infos generalizing remainder with
  | nil => exact ⟨rfl,rfl⟩
  | cons s rest ih =>
    by_cases hs : s.specified
    · have hcld : ¬s.isOpen := by simp [NameToReplicas.isOpen,hs]
      rw [spreadRest,if_pos hs,unspecified_cons_specified hs,filter_cons_of_neg hcld,filter_cons_of_neg hcld]
      exact ih remainder
    · have ho : ∀ replicas,({s with replicas := replicas} : NameToReplicas).isOpen := by
        simpa [NameToReplicas.isOpen] using hs
      obtain ⟨hn,hvals⟩ := ih (if remainder > 0 then remainder-1 else remainder)
      rw [unspecified_cons_left hs,spreadRest_cons_left hs,filter_cons_of_pos (ho _),
        filter_cons_of_pos (ho s.replicas),map_cons,map_cons,map_cons,hn,hvals,range_succ_eq_map,map_cons,map_map]
      refine ⟨rfl,cons_eq_cons.mpr ⟨by simp,?_⟩⟩
      apply map_congr_left
      simp only [Function.comp_apply,Nat.succ_eq_add_one]
      split_ifs <;> omega

section

variable (spec : Spec) (existing : String → Option Int) (expected : Int)

/- The subsets without a value of their own, in the order in which they get their shares. -/
def openNames : List String :=
  ((infos spec existing).map NameToReplicas.subsetName).reverse.filter fun name =>
    ((limits spec expected).lookup name).isNone

theorem isOpen_mark {limits : ReplicaMap} {s : NameToReplicas} (h : s.specified=false) :
    (mark limits s).isOpen=(limits.lookup s.subsetName).isNone := by
  unfold mark NameToReplicas.isOpen
  cases limits.lookup s.subsetName with
  | none => simp [h]
  | some v => rfl

theorem openNames_eq : openNames spec existing expected =
    ((marked spec existing expected).reverse.filter NameToReplicas.isOpen).map NameToReplicas.subsetName := by
  have hf:=infos_fresh spec existing
  unfold openNames marked
  generalize infos spec existing=infos at hf ⊢
  rw [← map_reverse,← map_reverse,filter_map,filter_map,map_map]
  have hfil : infos.reverse.filter (NameToReplicas.isOpen ∘ mark (limits spec expected)) =
        infos.reverse.filter ((fun name => ((limits spec expected).lookup name).isNone) ∘
            NameToReplicas.subsetName) := by
    apply filter_congr
    intro s hs
    exact isOpen_mark (hf s (mem_reverse.mp hs))
  rw [hfil]
  apply map_congr_left
  intro s _
  exact (mark_subsetName _ s).symm

theorem length_openNames :
    (openNames spec existing expected).length=leftCount spec existing expected := by
  rw [openNames_eq,length_map,← countP_eq_length_filter,countP_reverse]
  rfl

theorem mem_openNames {name : String} : name∈openNames spec existing expected ↔
      name∈spec.subsets.map Subset.name ∧ (limits spec expected).lookup name=none := by
  have hperm:=(infos_perm spec existing).map NameToReplicas.subsetName
  unfold getSubsetInfos at hperm
  rw [map_map] at hperm
  rw [openNames,mem_filter,mem_reverse,hperm.mem_iff,Option.isNone_iff_eq_none]
  rfl

theorem pairwise_openNames : (openNames spec existing expected).Pairwise fun a b =>
    (existing a).getD 0 ≥ (existing b).getD 0 := by
  have hsrt : (infos spec existing).Pairwise fun a b => a.replicas≤b.replicas := by
    refine Lib.Sorting.pairwise_insertionSort_of ?_ ?_ ?_ _
    · exact fun a b c hab hbc => hab.trans hbc
    · intro a b hl
      by_contra hgt
      exact hl (by rw [NameToReplicas.Less,if_pos (by omega)]; omega)
    · intro a b hl
      rw [not_not,NameToReplicas.Less] at hl
      split_ifs at hl <;> omega
  have hval : ∀ s∈infos spec existing,s.replicas=(existing s.subsetName).getD 0 := by
    intro s hs
    obtain ⟨d,-,rfl⟩ := mem_map.mp ((infos_perm spec existing).mem_iff.mp hs)
    rfl
  refine Pairwise.filter _ ?_
  rw [pairwise_reverse,pairwise_map]
  refine hsrt.imp_of_mem fun ha hb hle => ?_
  rw [← hval _ ha,← hval _ hb]
  exact hle

end

section

variable {spec : Spec} (existing : String → Option Int) {expected : Int}

def leftReplicas (spec : Spec) (expected : Int) : Int :=
  expected-sumSpecified expected spec.subsets

variable (hnodup : (spec.subsets.map Subset.name).Nodup)
include hnodup

omit hnodup in
theorem map_open_eq_shares {marked : List NameToReplicas} (hpos : (0 : Int)<unspecified marked)
    (hd : (marked.map NameToReplicas.subsetName).Nodup) (left : Int) :
    ((marked.filter NameToReplicas.isOpen).map NameToReplicas.subsetName).map
        (valueOf (toSubsetReplicaMap (spreadRest id (left / unspecified marked) marked
          (left % unspecified marked) (unspecified marked)).reverse)) =
      shares left (unspecified marked) := by
  obtain ⟨hn,hvals⟩ := spreadRest_open (left / unspecified marked) marked (left % unspecified marked)
  obtain ⟨hsh,-⟩ := spreadRest_shares (left / unspecified marked) marked
    (left % unspecified marked) (Int.emod_nonneg left (Int.ne_of_gt hpos))
    (Int.emod_lt_of_pos left hpos).le
  generalize spreadRest id (left / unspecified marked) marked (left % unspecified marked)
    (unspecified marked)=final at hn hvals hsh ⊢
  rw [← names_of_shares hsh] at hd
  have hlk : ∀ s∈final,valueOf (toSubsetReplicaMap final.reverse) s.subsetName=s.replicas := by
    intro s hs
    have hr : (final.reverse.map NameToReplicas.subsetName).Nodup := by
      rwa [map_reverse,nodup_reverse]
    unfold valueOf toSubsetReplicaMap
    rw [lookup_fill NameToReplicas.subsetName (fun s => some s.replicas) hr (mem_reverse.mpr hs)]
    rfl
  have hshs : (final.filter NameToReplicas.isOpen).map NameToReplicas.replicas =
      shares left (unspecified marked) := hvals
  rw [← hn,map_map,← hshs]
  apply map_congr_left
  intro s hs
  exact hlk s (mem_of_mem_filter hs)

variable (hf : Fits spec existing expected)
include hf

theorem map_openNames_eq_shares :
    (openNames spec existing expected).map (valueOf (allocation spec existing expected)) =
      shares (leftReplicas spec expected) (openNames spec existing expected).length := by
  by_cases hl : leftCount spec existing expected=0
  · rw [length_eq_zero_iff.mp ((length_openNames spec existing expected).trans hl)]
    rfl
  have hnonneg : 0≤leftReplicas spec expected := by
    have hle:=hf hl
    unfold leftReplicas
    omega
  have hcnt : unspecified (marked spec existing expected).reverse=leftCount spec existing expected := by
    unfold unspecified
    rw [countP_reverse]
    rfl
  have hpos : (0 : Int)<leftCount spec existing expected := by omega
  rw [allocation,normalAllocate_eq id (infos_fresh spec existing),← leftCount,← marked,if_pos hl]
  dsimp only [id]
  rw [wrappedSum_id,sum_limitsOf existing expected hnodup,← leftReplicas,
    Int.tdiv_eq_ediv_of_nonneg hnonneg,Int.tmod_eq_emod_of_nonneg hnonneg,length_openNames,openNames_eq,← hcnt]
  rw [← hcnt] at hpos
  have hd : ((marked spec existing expected).reverse.map NameToReplicas.subsetName).Nodup := by
    rw [map_reverse,nodup_reverse,names_marked]
    exact nodup_infos existing hnodup
  exact map_open_eq_shares hpos hd _

theorem lookup_allocation {s : Subset} (hs : s∈spec.subsets) :
    ∃ v,(allocation spec existing expected).lookup s.name=some v ∧
      ∀ w,specifiedReplicas expected s=some w → v=w := by
  obtain ⟨average,final,-,hm,hsh,-⟩ := allocation_shares existing expected hnodup hf
  obtain ⟨v,hv,hspec,-⟩ := lookup_final hsh hnodup hs
  rw [← hm] at hv
  exact ⟨v,hv,hspec⟩

theorem subset_of_lookup {name : String} (h : name∉spec.subsets.map Subset.name) :
    (allocation spec existing expected).lookup name=none := by
  obtain ⟨average,final,-,hm,hsh,-⟩ := allocation_shares existing expected hnodup hf
  rw [hm,AList.lookup_eq_none,AList.mem_keys,(keys_final hsh hnodup).mem_iff]
  exact h

end

section

variable {spec : Spec} {before existing : String → Option Int} {expected expected' : Int}

def IntegerReplicas (spec : Spec) : Prop :=
  ∀ s∈spec.subsets,∀ value,s.replicas=some value → ∃ n,value=.int n

theorem specifiedReplicas_integer (hint : IntegerReplicas spec) {s : Subset}
    (hs : s∈spec.subsets) (expected expected' : Int) :
    specifiedReplicas expected s=specifiedReplicas expected' s := by
  unfold specifiedReplicas
  cases hval : s.replicas with
  | none => rfl
  | some value =>
    obtain ⟨n,rfl⟩ := hint s hs value hval
    rfl

theorem sumSpecified_integer (hint : IntegerReplicas spec) (expected expected' : Int) :
    sumSpecified expected spec.subsets=sumSpecified expected' spec.subsets := by
  refine congrArg List.sum (map_congr_left fun s hs => ?_)
  rw [specifiedReplicas_integer hint hs expected expected']

variable (hnodup : (spec.subsets.map Subset.name).Nodup) (hint : IntegerReplicas spec)
include hnodup hint

theorem lookup_limits_integer (expected expected' : Int) {name : String} (hn : name∈spec.subsets.map Subset.name) :
    (limits spec expected).lookup name=(limits spec expected').lookup name := by
  obtain ⟨s,hs,rfl⟩ := mem_map.mp hn
  rw [lookup_limits expected hnodup hs,lookup_limits expected' hnodup hs,
    specifiedReplicas_integer hint hs expected expected']

theorem perm_openNames : (openNames spec existing expected').Perm (openNames spec before expected) := by
  have hd : ∀ existing expected,(openNames spec existing expected).Nodup := by
    intro existing expected
    exact (nodup_reverse.mpr (nodup_infos existing hnodup)).filter _
  refine (perm_ext_iff_of_nodup (hd _ _) (hd _ _)).mpr fun name => ?_
  rw [mem_openNames,mem_openNames]
  refine and_congr_right fun hn => ?_
  rw [lookup_limits_integer hnodup hint expected expected' hn]

theorem shares_twice (hfits : Fits spec before expected) (hfits' : Fits spec existing expected')
    (he : ∀ s∈spec.subsets,existing s.name=(allocation spec before expected).lookup s.name)
    {name : String} (hn : name∈openNames spec existing expected') :
    ∃ count place,place<count ∧ valueOf (allocation spec before expected) name =
        share (leftReplicas spec expected) count place ∧
      valueOf (allocation spec existing expected') name = share (leftReplicas spec expected') count place := by
  have hperm : (openNames spec existing expected').Perm (openNames spec before expected) :=
    perm_openNames hnodup hint
  have hf:=map_openNames_eq_shares before hnodup hfits
  have hsnd:=map_openNames_eq_shares existing hnodup hfits'
  have hsrt : (openNames spec existing expected').Pairwise fun a b =>
      valueOf (allocation spec before expected) a ≥ valueOf (allocation spec before expected) b := by
    refine (pairwise_openNames spec existing expected').imp_of_mem fun ha hb hge => ?_
    obtain ⟨s,hs,rfl⟩ := mem_map.mp ((mem_openNames spec existing expected').mp ha).1
    obtain ⟨t,ht,rfl⟩ := mem_map.mp ((mem_openNames spec existing expected').mp hb).1
    rw [he s hs,he t ht] at hge
    exact hge
  have hpl:=value_at_place (map_eq_shares_of_sorted hperm hf hsrt) hn
  rw [← hperm.length_eq] at hpl
  exact ⟨_,_,hpl.2,hpl.1,(value_at_place hsnd hn).1⟩

theorem allocation_twice (hfits : Fits spec before expected) (hfits' : Fits spec existing expected')
    (he : ∀ s∈spec.subsets,existing s.name=(allocation spec before expected).lookup s.name)
    {s : Subset} (hs : s∈spec.subsets) :
    ∃ v w,(allocation spec before expected).lookup s.name=some v ∧
      (allocation spec existing expected').lookup s.name=some w ∧
      (expected≤expected' → v≤w) ∧ (expected'≤expected → w≤v) := by
  obtain ⟨v,hv,hspec⟩ := lookup_allocation before hnodup hfits hs
  obtain ⟨w,hw,hspec'⟩ := lookup_allocation existing hnodup hfits' hs
  refine ⟨v,w,hv,hw,?_⟩
  cases hval : specifiedReplicas expected' s with
  | some value =>
    have hsame : v=w := by
      rw [hspec' value hval]
      exact hspec value ((specifiedReplicas_integer hint hs expected expected').trans hval)
    omega
  | none =>
    have ho : s.name∈openNames spec existing expected' := by
      rw [mem_openNames,lookup_limits expected' hnodup hs]
      exact ⟨mem_map_of_mem hs,hval⟩
    obtain ⟨count,place,hpl,hf,hsnd⟩ :=
      shares_twice hnodup hint hfits hfits' he ho
    have hsum:=sumSpecified_integer hint expected expected'
    rw [valueOf,hv,Option.getD_some] at hf
    rw [valueOf,hw,Option.getD_some] at hsnd
    rw [hf,hsnd]
    unfold leftReplicas
    exact ⟨fun hle => share_le_share (by omega) hpl,fun hle => share_le_share (by omega) hpl⟩

end

theorem allocation_congr {spec spec' : Spec} (h : spec'.subsets=spec.subsets)
    (existing : String → Option Int) (expected : Int) :
    allocation spec' existing expected=allocation spec existing expected ∧
      (Fits spec' existing expected ↔ Fits spec existing expected) := by
  unfold allocation Fits leftCount infos limits getSubsetInfos getSpecifiedSubsetReplicas
  rw [h]
  exact ⟨rfl,Iff.rfl⟩

/-- The same spec gives the same allocation again; with more replicas no subset gets less, and with
fewer no subset gets more. -/
theorem specificAlloc_no_churn (address : String) (spec : Spec)
    (before existing : String → Option Int) (allocated : ReplicaMap)
    (hplain : ∀ s∈spec.subsets,s.minReplicas=none ∧ s.maxReplicas=none)
    (hint : IntegerReplicas spec) (haccepted : validateUnitedDeploymentSpec address spec=[])
    (hbefore : specificAlloc int32 spec before=.ok allocated)
    (hexisting : ∀ s∈spec.subsets,existing s.name=allocated.lookup s.name) :
    (∃ again,specificAlloc int32 spec existing=.ok again ∧ ∀ name,again.lookup name=allocated.lookup name) ∧
      ∀ (address' : String) (spec' : Spec) (r r' : Int),spec'.subsets=spec.subsets →
        validateUnitedDeploymentSpec address' spec'=[] → spec.subsets≠[] →
        spec.replicas=some r → spec'.replicas=some r' →
        ∃ next,specificAlloc int32 spec' existing=.ok next ∧
          ∀ s∈spec.subsets,∃ v w,allocated.lookup s.name=some v ∧
            next.lookup s.name=some w ∧ (r≤r' → v≤w) ∧ (r'≤r → w≤v) := by
  have h:=accepted_of_validate hplain haccepted
  by_cases hsubs : spec.subsets=[]
  · refine ⟨⟨allocated,?_,fun _ => rfl⟩,fun _ _ _ _ _ _ hne => absurd hsubs hne⟩
    rw [← hbefore]
    unfold specificAlloc getSubsetInfos
    rw [hsubs]
    rfl
  have hf:=fits_of_accepted before h
  obtain rfl : allocation spec before (spec.replicas.getD (-1))=allocated := by
    have heq:=specificAlloc_eq before h exact_int32 hsubs
    rw [hbefore] at heq
    exact (Except.ok.inj heq).symm
  constructor
  · refine ⟨_,specificAlloc_eq existing h exact_int32 hsubs,fun name => ?_⟩
    have hf':=fits_of_accepted existing h
    by_cases hn : name∈spec.subsets.map Subset.name
    · obtain ⟨s,hs,rfl⟩ := mem_map.mp hn
      obtain ⟨v,w,hv,hw,hle,hge⟩ := allocation_twice h.nodup hint hf hf' hexisting hs
      rw [hv,le_antisymm (hle le_rfl) (hge le_rfl)]
      exact hw
    · exact (subset_of_lookup existing h.nodup hf' hn).trans (subset_of_lookup before h.nodup hf hn).symm
  · intro address' spec' r r' hsame haccepted' _ hr hr'
    have h' : Accepted spec' :=
      accepted_of_validate (by rw [hsame]; exact hplain) haccepted'
    obtain ⟨hal,hi⟩ := allocation_congr hsame existing (spec'.replicas.getD (-1))
    have hf':=hi.mp (fits_of_accepted existing h')
    refine ⟨_,specificAlloc_eq existing h' exact_int32 (by rw [hsame]; exact hsubs),?_⟩
    intro s hs
    obtain ⟨v,w,hv,hw,hle,hge⟩ := allocation_twice h.nodup hint hf hf' hexisting hs
    rw [← hal] at hw
    rw [hr,hr'] at hle hge
    exact ⟨v,w,hv,hw,hle,hge⟩

/- Three replicas of its own for one subset, the rest for three others. -/
def integerSubsets (replicas : Int) (hfits : -(2^31)≤replicas ∧ replicas<2^31) : Spec where
  replicas := some replicas
  subsets := [⟨"zone-a",some (.int 3),none,none⟩,⟨"zone-b",none,none,none⟩,
    ⟨"zone-c",none,none,none⟩,⟨"zone-d",none,none,none⟩]
  partitions := []
  fits := fits_some hfits

theorem integerSubsets_integer (replicas : Int) (hf : -(2^31)≤replicas ∧ replicas<2^31) :
    IntegerReplicas (integerSubsets replicas hf) := by
  intro s hs value hval
  simp only [integerSubsets,mem_cons,not_mem_nil,or_false] at hs
  obtain rfl | rfl | rfl | rfl := hs
  · exact ⟨3,(Option.some.inj hval).symm⟩
  · cases hval
  · cases hval
  · cases hval

def tenAllocated : ReplicaMap :=
  allocation (integerSubsets 10 (by decide)) (fun _ => none) 10

theorem eleven_after_ten :
    ∃ next,specificAlloc int32 (integerSubsets 11 (by decide)) tenAllocated.lookup=.ok next ∧
      ∀ s∈(integerSubsets 10 (by decide)).subsets,∃ v w,tenAllocated.lookup s.name=some v ∧
        next.lookup s.name=some w ∧ ((10 : Int)≤11 → v≤w) ∧ ((11 : Int)≤10 → w≤v) :=
  (specificAlloc_no_churn "0" (integerSubsets 10 (by decide)) (fun _ => none) tenAllocated.lookup
    tenAllocated (by decide) (integerSubsets_integer 10 (by decide)) (by decide +kernel)
    (by
      have h : validateUnitedDeploymentSpec "0" (integerSubsets 10 (by decide))=[] := by decide +kernel
      exact specificAlloc_eq (fun _ => none) (accepted_of_validate (by decide) h) exact_int32 (by decide))
    (fun _ _ => rfl)).2 "0" (integerSubsets 11 (by decide)) 10 11 rfl (by decide +kernel) (by decide) rfl rfl

end Kruise.UnitedDeployment
