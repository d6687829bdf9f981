import Kruise.UnitedDeployment.Allocator

/-!
# Every accepted spec is allocated

For a spec that the webhook accepts the controller's own check passes, its 32-bit sums stay in
range, and every subset gets what the spec says.
-/

namespace Kruise.UnitedDeployment

open Lib.Keyed Util.IntStr List

/-- The value of an `int32`. -/
theorem exact_int32 : Exact int32 := by
  intro x hl hh
  refine Int.bmod_eq_of_le ?_ ?_ <;> omega

theorem sum_filterMap {α : Type} (f : α → Option Int) (xs : List α) :
    (xs.filterMap f).sum=(xs.map fun x => (f x).getD 0).sum := by
  induction xs with
  | nil => rfl
  | cons x xs ih => cases hx : f x <;> simp [hx,ih]

section

variable (spec : Spec) (existing : String → Option Int) (expected : Int)

def infos : List NameToReplicas := sortInfos (getSubsetInfos existing spec)

def limits : ReplicaMap := getSpecifiedSubsetReplicas expected spec

def marked : List NameToReplicas := (infos spec existing).map (mark (limits spec expected))

def leftCount : Nat := leftSubsets (limits spec expected) (infos spec existing)

def allocation : ReplicaMap :=
  normalAllocate id (infos spec existing) expected (limits spec expected)

def Fits : Prop := leftCount spec existing expected≠0 → sumSpecified expected spec.subsets≤expected

theorem names_marked :
    (marked spec existing expected).map NameToReplicas.subsetName =
      (infos spec existing).map NameToReplicas.subsetName := by
  rw [marked,map_map]
  exact map_congr_left fun s _ => mark_subsetName _ s

theorem infos_perm : (infos spec existing).Perm (getSubsetInfos existing spec) :=
  perm_insertionSort _ _

theorem infos_fresh : ∀ s∈infos spec existing,s.specified=false := by
  intro s hs
  obtain ⟨d,-,rfl⟩ := mem_map.mp ((infos_perm spec existing).mem_iff.mp hs)
  rfl

variable {spec}

variable (hnd : (spec.subsets.map Subset.name).Nodup)
include hnd

theorem nodup_infos : ((infos spec existing).map NameToReplicas.subsetName).Nodup := by
  have hperm:=(infos_perm spec existing).map NameToReplicas.subsetName
  refine hperm.nodup_iff.mpr ?_
  unfold getSubsetInfos
  rw [map_map]
  exact hnd

theorem lookup_limits {s : Subset} (hs : s∈spec.subsets) :
    (limits spec expected).lookup s.name=specifiedReplicas expected s :=
  lookup_fill Subset.name (specifiedReplicas expected) hnd hs

theorem limits_values :
    (limits spec expected).entries.map Sigma.snd =
      (spec.subsets.filterMap (specifiedReplicas expected)).reverse := by
  unfold limits getSpecifiedSubsetReplicas
  rw [entries_fill_empty _ _ hnd,map_reverse,map_filterMap]
  congr 2
  funext s
  cases h : specifiedReplicas expected s <;> simp [entryOf,h]

theorem limitsOf_perm :
    (limitsOf (limits spec expected) (infos spec existing)).Perm
      (spec.subsets.filterMap (specifiedReplicas expected)) := by
  have hperm:=(infos_perm spec existing).filterMap fun s => (limits spec expected).lookup s.subsetName
  refine hperm.trans (Perm.of_eq ?_)
  unfold getSubsetInfos
  rw [filterMap_map]
  refine filterMap_congr ?_
  intro s hs
  exact lookup_limits expected hnd hs

theorem countP_limits :
    (infos spec existing).countP (fun s => ((limits spec expected).lookup s.subsetName).isSome) =
      spec.subsets.countP fun s => (specifiedReplicas expected s).isSome := by
  rw [(infos_perm spec existing).countP_eq]
  unfold getSubsetInfos
  rw [countP_map]
  refine countP_congr ?_
  intro s hs
  simp only [Function.comp_apply]
  rw [lookup_limits expected hnd hs]

theorem sum_limitsOf :
    (limitsOf (limits spec expected) (infos spec existing)).sum = sumSpecified expected spec.subsets := by
  rw [(limitsOf_perm existing expected hnd).sum_eq,sum_filterMap]
  rfl

theorem limitsOf_nonneg {v : Int} (h : v∈limitsOf (limits spec expected) (infos spec existing)) : 0≤v := by
  obtain ⟨s,-,hs⟩ := mem_filterMap.mp ((limitsOf_perm existing expected hnd).mem_iff.mp h)
  exact specifiedReplicas_nonneg hs

theorem leftCount_eq_zero_iff :
    leftCount spec existing expected=0 ↔ ∀ s∈spec.subsets,(specifiedReplicas expected s).isSome := by
  have hcnt:=(marked_specified (limits spec expected) (infos_fresh spec existing)).2
  rw [countP_limits existing expected hnd,(infos_perm spec existing).length_eq] at hcnt
  unfold getSubsetInfos at hcnt
  rw [length_map] at hcnt
  rw [← countP_eq_length]
  unfold leftCount leftSubsets
  omega

theorem allocation_shares (hf : Fits spec existing expected) :
    ∃ average final,0≤average ∧ allocation spec existing expected=toSubsetReplicaMap final ∧
      Forall₂ (Share average) (marked spec existing expected) final ∧
      sumReplicas final =
        if leftCount spec existing expected=0 then sumSpecified expected spec.subsets else expected := by
  have hsum:=sum_limitsOf existing expected hnd
  have hshares:=normalAllocate_shares (infos_fresh spec existing) fun hl => hsum.trans_le (hf hl)
  rw [hsum] at hshares
  exact hshares

end

section

variable {spec : Spec} (existing : String → Option Int)

variable (h : Accepted spec)
include h

theorem specified_iff {s : Subset} (hs : s∈spec.subsets) :
    (specifiedReplicas (spec.replicas.getD (-1)) s).isSome=s.replicas.isSome := by
  unfold specifiedReplicas
  cases hval : s.replicas with
  | none => rfl
  | some value =>
    obtain ⟨v,hv⟩ := h.parsed s hs value hval
    simp [hv,Except.toOption]

theorem validateReplicas_ok {wrap : Int → Int} (hw : Exact wrap) (hsubs : spec.subsets≠[]) :
    validateReplicas wrap (infos spec existing) (spec.replicas.getD (-1))
      (limits spec (spec.replicas.getD (-1)))=.ok () := by
  have hcnt : (infos spec existing).countP (fun s =>
        ((limits spec (spec.replicas.getD (-1))).lookup s.subsetName).isSome) =
      (infos spec existing).length ↔ ∀ s∈spec.subsets,s.replicas.isSome := by
    rw [countP_limits existing _ h.nodup,(infos_perm spec existing).length_eq]
    unfold getSubsetInfos
    rw [length_map,countP_eq_length]
    exact forall₂_congr fun s hs => by rw [specified_iff h hs]
  have hvals : ∀ v∈(limits spec (spec.replicas.getD (-1))).entries.map Sigma.snd,0≤v := by
    intro v hv
    rw [limits_values _ h.nodup,mem_reverse] at hv
    obtain ⟨s,-,hs⟩ := mem_filterMap.mp hv
    exact specifiedReplicas_nonneg hs
  have hsum : ((limits spec (spec.replicas.getD (-1))).entries.map Sigma.snd).sum =
      sumSpecified (spec.replicas.getD (-1)) spec.subsets := by
    rw [limits_values _ h.nodup,sum_reverse,sum_filterMap]
    rfl
  unfold validateReplicas
  cases hr : spec.replicas with
  | none =>
    rw [hr] at hcnt
    have ha:=hcnt.mpr (h.all_of_none hr)
    simp only [Option.getD_none,ne_eq,not_true_eq_false,if_false] at ha ⊢
    rw [if_neg (not_not.mpr ha)]
  | some r =>
    have hn:=h.nonneg r hr
    have hf:=h.fits r hr
    have hi:=(spec.fits r hr).2
    have hequal:=h.exact_of_all r hr hsubs
    simp only [hr,Option.getD_some] at hcnt hvals hsum ⊢
    have he : wrappedSum wrap 0 ((limits spec r).entries.map Sigma.snd)=sumSpecified r spec.subsets := by
      rw [wrappedSum_eq hw hvals (le_refl 0) (by omega),hsum,Int.zero_add]
    rw [he,if_pos (by omega),if_neg (by omega),if_neg]
    intro hl
    have hsame:=hequal (hcnt.mp hl.2)
    omega

theorem left_fits (hl : leftCount spec existing (spec.replicas.getD (-1))≠0) :
    ∃ r,spec.replicas=some r ∧ sumSpecified r spec.subsets≤r ∧ r<2^31 := by
  cases hr : spec.replicas with
  | none =>
    refine absurd ((leftCount_eq_zero_iff existing _ h.nodup).mpr ?_) hl
    intro s hs
    rw [specified_iff h hs]
    exact h.all_of_none hr s hs
  | some r => exact ⟨r,rfl,h.fits r hr,(spec.fits r hr).2⟩

theorem fits_of_accepted : Fits spec existing (spec.replicas.getD (-1)) := by
  intro hl
  obtain ⟨r,hr,hle,-⟩ := left_fits existing h hl
  rw [hr]
  exact hle

theorem specificAlloc_eq {wrap : Int → Int} (hw : Exact wrap) (hsubs : spec.subsets≠[]) :
    specificAlloc wrap spec existing=.ok (allocation spec existing (spec.replicas.getD (-1))) := by
  have hchk:=validateReplicas_ok existing h hw hsubs
  have hsame : normalAllocate wrap (infos spec existing) (spec.replicas.getD (-1))
      (limits spec (spec.replicas.getD (-1)))=allocation spec existing (spec.replicas.getD (-1)) := by
    refine normalAllocate_congr hw (infos_fresh spec existing)
      (fun v hv => limitsOf_nonneg existing _ h.nodup hv) ?_
    intro hl
    obtain ⟨r,hr,hle,hlt⟩ := left_fits existing h hl
    rw [sum_limitsOf existing _ h.nodup,hr]
    exact ⟨hle,hlt⟩
  unfold infos limits at *
  unfold specificAlloc allocateReplicas
  simp only [hchk,hsame,Except.map]

theorem sum_of_accepted (hsubs : spec.subsets≠[]) :
    (if leftCount spec existing (spec.replicas.getD (-1))=0 then
      sumSpecified (spec.replicas.getD (-1)) spec.subsets
    else spec.replicas.getD (-1))=spec.replicas.getD (sumSpecified (-1) spec.subsets) := by
  by_cases hl : leftCount spec existing (spec.replicas.getD (-1))=0
  · rw [if_pos hl]
    have ha:=(leftCount_eq_zero_iff existing _ h.nodup).mp hl
    cases hr : spec.replicas with
    | none => rfl
    | some r => exact h.exact_of_all r hr hsubs fun s hs => specified_iff h hs ▸ ha s hs
  · obtain ⟨r,hr,-,-⟩ := left_fits existing h hl
    rw [if_neg hl,hr]
    rfl

end

section

variable {spec : Spec} {existing : String → Option Int} {expected average : Int} {final : List NameToReplicas}

variable (hsh : Forall₂ (Share average) (marked spec existing expected) final)
include hsh

theorem names_final : final.map NameToReplicas.subsetName=(infos spec existing).map NameToReplicas.subsetName := by
  rw [names_of_shares hsh,names_marked]

variable (hnd : (spec.subsets.map Subset.name).Nodup)
include hnd

theorem lookup_final {s : Subset} (hs : s∈spec.subsets) :
    ∃ v,(toSubsetReplicaMap final).lookup s.name=some v ∧ (∀ w,specifiedReplicas expected s=some w → v=w) ∧
      (specifiedReplicas expected s=none → v=average ∨ v=average+1) := by
  have hd : (final.map NameToReplicas.subsetName).Nodup :=
    names_final hsh ▸ nodup_infos existing hnd
  have hi : ⟨s.name,(existing s.name).getD 0,false⟩∈infos spec existing :=
    (infos_perm spec existing).mem_iff.mpr (mem_map_of_mem hs)
  have hl:=lookup_limits expected hnd hs
  obtain ⟨s',hs',hname,hr⟩ := share_of_mem hsh (mem_map_of_mem hi)
  rw [mark_subsetName] at hname
  refine ⟨s'.replicas,?_,?_,?_⟩
  · have hlk:=lookup_fill NameToReplicas.subsetName (fun s => some s.replicas) hd hs'
    rw [hname] at hlk
    exact hlk
  · intro w hw
    simpa [mark,hl,hw] using hr
  · intro hn
    simpa [mark,hl,hn] using hr

omit hsh hnd in
theorem keys_toSubsetReplicaMap (hd : (final.map NameToReplicas.subsetName).Nodup) :
    (toSubsetReplicaMap final).keys=(final.map NameToReplicas.subsetName).reverse := by
  unfold toSubsetReplicaMap AList.keys List.keys
  rw [entries_fill_empty _ _ hd,map_reverse,map_filterMap]
  simp [entryOf]

theorem keys_final : (toSubsetReplicaMap final).keys.Perm (spec.subsets.map Subset.name) := by
  rw [keys_toSubsetReplicaMap (names_final hsh ▸ nodup_infos existing hnd),names_final hsh]
  refine (reverse_perm _).trans (((infos_perm spec existing).map _).trans ?_)
  unfold getSubsetInfos
  rw [map_map]
  exact Perm.refl _

theorem nonneg_final (havg : 0≤average) {name : String} {v : Int}
    (hv : (toSubsetReplicaMap final).lookup name=some v) : 0≤v := by
  have hk : name∈(toSubsetReplicaMap final).keys :=
    AList.mem_keys.mp (AList.lookup_isSome.mp (by rw [hv]; rfl))
  obtain ⟨s,hs,rfl⟩ := mem_map.mp ((keys_final hsh hnd).mem_iff.mp hk)
  obtain ⟨w,hw,hspec,ha⟩ := lookup_final hsh hnd hs
  obtain rfl : v=w := Option.some.inj (hv.symm.trans hw)
  cases hs' : specifiedReplicas expected s with
  | some w => exact hspec w hs' ▸ specifiedReplicas_nonneg hs'
  | none =>
    have hcase:=ha hs'
    omega

omit hsh hnd in
theorem total_toSubsetReplicaMap (hd : (final.map NameToReplicas.subsetName).Nodup) :
    (toSubsetReplicaMap final).total=sumReplicas final := by
  unfold toSubsetReplicaMap ReplicaMap.total sumReplicas
  rw [entries_fill_empty _ _ hd,map_reverse,map_filterMap,sum_reverse]
  simp [entryOf]

end

structure Honours (spec : Spec) (allocated : ReplicaMap) : Prop where
  keys : allocated.keys.Perm (spec.subsets.map Subset.name)
  nonneg : ∀ name v,allocated.lookup name=some v → 0≤v
  specified : ∀ s∈spec.subsets,∀ value,s.replicas=some value →
    ∃ v,parseSubsetReplicas (spec.replicas.getD (-1)) value=.ok v ∧
      allocated.lookup s.name=some v
  even : ∀ s∈spec.subsets,∀ t∈spec.subsets,s.replicas=none → t.replicas=none →
    ∀ v w,allocated.lookup s.name=some v → allocated.lookup t.name=some w → v≤w+1
  total : allocated.total=spec.replicas.getD (sumSpecified (-1) spec.subsets)

/-- The allocation of an accepted spec succeeds, is the one without a bound on the numbers, and
honours the spec. -/
theorem specificAlloc_honours_accepted_spec (address : String) (spec : Spec)
    (existing : String → Option Int) (hsubsets : spec.subsets≠[])
    (hplain : ∀ s∈spec.subsets,s.minReplicas=none ∧ s.maxReplicas=none)
    (haccepted : validateUnitedDeploymentSpec address spec=[]) :
    ∃ allocated,specificAlloc int32 spec existing=.ok allocated ∧
      specificAlloc id spec existing=.ok allocated ∧ Honours spec allocated := by
  have h:=accepted_of_validate hplain haccepted
  have hnd:=h.nodup
  refine ⟨_,specificAlloc_eq existing h exact_int32 hsubsets,
    specificAlloc_eq existing h (fun _ _ _ => rfl) hsubsets,?_⟩
  obtain ⟨average,final,ha,hm,hsh,hsum⟩ :=
    allocation_shares existing _ hnd (fits_of_accepted existing h)
  rw [hm]
  have hn : ∀ s : Subset,s.replicas=none → specifiedReplicas (spec.replicas.getD (-1)) s=none := by
    intro s hs
    simp [specifiedReplicas,hs]
  constructor
  · exact keys_final hsh hnd
  · exact fun name v hv => nonneg_final hsh hnd ha hv
  · intro s hs value hval
    obtain ⟨v,hv⟩ := h.parsed s hs value hval
    obtain ⟨w,hw,hspec,-⟩ := lookup_final hsh hnd hs
    have hparsed : specifiedReplicas (spec.replicas.getD (-1)) s=some v := by
      simp [specifiedReplicas,hval,hv,Except.toOption]
    exact ⟨v,hv,hspec v hparsed ▸ hw⟩
  · intro s hs t ht hsnone htnone v w hv hw
    obtain ⟨v',hv',-,haverage_s⟩ := lookup_final hsh hnd hs
    obtain ⟨w',hw',-,haverage_t⟩ := lookup_final hsh hnd ht
    obtain rfl : v=v' := Option.some.inj (hv.symm.trans hv')
    obtain rfl : w=w' := Option.some.inj (hw.symm.trans hw')
    have hvcase:=haverage_s (hn s hsnone)
    have hwcase:=haverage_t (hn t htnone)
    omega
  · rw [total_toSubsetReplicaMap (names_final hsh ▸ nodup_infos existing hnd),hsum]
    exact sum_of_accepted existing h hsubsets

/- Three replicas, a quarter of ten, and the other four for two subsets. -/
def tenReplicas : Spec where
  replicas := some 10
  subsets := [⟨"zone-a",some (.int 3),none,none⟩,⟨"zone-b",some (.str "25%"),none,none⟩,
    ⟨"zone-c",none,none,none⟩,⟨"zone-d",none,none,none⟩]
  partitions := []
  fits := by decide

theorem tenReplicas_honoured :
    ∃ allocated,specificAlloc int32 tenReplicas (fun _ => none)=.ok allocated ∧
      specificAlloc id tenReplicas (fun _ => none)=.ok allocated ∧
      Honours tenReplicas allocated :=
  specificAlloc_honours_accepted_spec "0" tenReplicas (fun _ => none) (by decide) (by decide) (by decide +kernel)

example : ((specificAlloc int32 tenReplicas fun _ => none).toOption.map AList.entries) =
    some [⟨"zone-d",2⟩,⟨"zone-c",2⟩,⟨"zone-b",3⟩,⟨"zone-a",3⟩] := by decide +kernel

end Kruise.UnitedDeployment
