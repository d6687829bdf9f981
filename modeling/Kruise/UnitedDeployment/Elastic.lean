import Kruise.UnitedDeployment.Allocation

/-!
# Replicas between a minimum and a maximum

`elasticAllocator` of `pkg/controller/uniteddeployment/allocator.go` 62-69 and 253-319: one pass
hands out the minima, a second one what lies between minimum and maximum.
-/

namespace Kruise.UnitedDeployment

open Lib.Keyed Util.IntStr List

def minReplicasOf (replicas : Int) (subset : Subset) : Int :=
  (parsedOr replicas 0 subset.minReplicas).1

def maxReplicasOf (replicas : Int) (subset : Subset) : Int :=
  (parsedOr replicas 1000000 subset.maxReplicas).1

def spareOf (replicas : Int) (subset : Subset) : Int :=
  maxReplicasOf replicas subset-minReplicasOf replicas subset

def validateAndCalculateMinMaxMap (replicas : Int) :
    Nat → List Subset → ReplicaMap → ReplicaMap → Except String (ReplicaMap × ReplicaMap)
  | _,[],minReplicasMap,maxReplicasMap => .ok (minReplicasMap,maxReplicasMap)
  | index,subset::rest,minReplicasMap,maxReplicasMap =>
    let minReplicas:=minReplicasOf replicas subset
    let maxReplicas:=maxReplicasOf replicas subset
    if minReplicas > maxReplicas then
      .error ("subset[" ++ toString index ++
        "].maxReplicas must be more than or equal to minReplicas")
    else validateAndCalculateMinMaxMap replicas (index+1) rest
      (minReplicasMap.insert subset.name minReplicas)
      (maxReplicasMap.insert subset.name maxReplicas)

section

variable (wrap : Int → Int)

/- A subset may get as much as `cap` says, and `put` is what the pass makes of the value in the map.
-/
def satisfy (replicas : Int) (cap : Subset → Int) (put : Int → Int → Int) :
    List Subset → Int → ReplicaMap → Int × ReplicaMap
  | [],allocated,subsetReplicas => (allocated,subsetReplicas)
  | subset::rest,allocated,subsetReplicas =>
    let addReplicas:=max (min (cap subset) (wrap (replicas-allocated))) 0
    satisfy replicas cap put rest (wrap (allocated+addReplicas))
      (subsetReplicas.insert subset.name (put (valueOf subsetReplicas subset.name) addReplicas))

def Elastic.alloc (subsets : List Subset) (replicas : Int)
    (minReplicasMap maxReplicasMap : ReplicaMap) : ReplicaMap :=
  let (allocated,subsetReplicas) :=
    satisfy wrap replicas (fun subset => valueOf minReplicasMap subset.name)
      (fun _ addReplicas => addReplicas) subsets 0 ∅
  if allocated ≥ replicas then subsetReplicas
  else (satisfy wrap replicas
    (fun subset => wrap (valueOf maxReplicasMap subset.name-valueOf minReplicasMap subset.name))
    (fun value addReplicas => wrap (value+addReplicas)) subsets allocated subsetReplicas).2

def elasticAlloc (spec : Spec) : Except String ReplicaMap :=
  let replicas:=spec.replicas.getD 1
  (validateAndCalculateMinMaxMap replicas 0 spec.subsets ∅ ∅).map fun maps =>
    Elastic.alloc wrap spec.subsets replicas maps.1 maps.2

end

def given (replicas reached cap : Int) : Int := max (min cap (replicas-reached)) 0

section

variable {replicas reached cap : Int}

theorem given_nonneg (replicas reached cap : Int) : 0≤given replicas reached cap :=
  le_max_right _ _

theorem given_le (replicas reached : Int) (hcap : 0≤cap) : given replicas reached cap≤cap :=
  max_le (min_le_left _ _) hcap

theorem given_full (hcap : 0≤cap) (h : reached+cap≤replicas) : given replicas reached cap=cap := by
  unfold given
  omega

theorem reached_lt_of_given_pos (h : 0<given replicas reached cap) : reached<replicas := by
  unfold given at h
  omega

theorem given_mono {replicas' reached' : Int} (h : replicas-reached≤replicas'-reached')
    (cap : Int) : given replicas reached cap≤given replicas' reached' cap :=
  max_le_max_right 0 (min_le_min_left cap h)

theorem given_after {first rest : Int} (hf : 0≤first) (hr : 0≤rest) (hrch : reached≤replicas) :
    given replicas (reached+given replicas reached first+rest) cap = given replicas (reached+(first+rest)) cap := by
  unfold given
  omega

end

variable {wrap : Int → Int} {replicas : Int} {cap : Subset → Int} {put : Int → Int → Int}
    {subsets : List Subset}

theorem sum_map_nonneg (h : ∀ s∈subsets,0≤cap s) : 0≤(subsets.map cap).sum := by
  refine sum_nonneg fun v hv => ?_
  obtain ⟨s,hs,rfl⟩ := mem_map.mp hv
  exact h s hs

variable {m : ReplicaMap}

theorem valueOf_insert_of_ne {name other : String} (h : other≠name) (v : Int) :
    valueOf (m.insert name v) other=valueOf m other := by
  unfold valueOf
  rw [AList.lookup_insert_ne h]

theorem satisfy_congr {cap' : Subset → Int} (h : ∀ s∈subsets,cap s=cap' s) (allocated : Int) (m : ReplicaMap) :
    satisfy wrap replicas cap put subsets allocated m = satisfy wrap replicas cap' put subsets allocated m := by
  induction subsets generalizing allocated m with
  | nil => rfl
  | cons s rest ih =>
    unfold satisfy
    rw [h s mem_cons_self]
    exact ih (fun t ht => h t (mem_cons_of_mem s ht)) _ _

/- The map grows by what the running total grows by, and every subset gets what those before it
leave. -/
structure Passed (replicas : Int) (cap : Subset → Int) (subsets : List Subset) (allocated : Int)
    (m : ReplicaMap) (result : Int × ReplicaMap) : Prop where
  handedOut : result.1=min replicas (allocated+(subsets.map cap).sum)
  total : result.2.total-m.total=result.1-allocated
  keys : ∀ name,name∈result.2 ↔ name∈m ∨ name∈subsets.map Subset.name
  others : ∀ name,name∉subsets.map Subset.name → result.2.lookup name=m.lookup name
  values : ∀ before s after,subsets=before++s::after →
    result.2.lookup s.name =
      some (valueOf m s.name+given replicas (allocated+(before.map cap).sum) (cap s))

variable {allocated : Int}

theorem satisfy_cons (hw : Exact wrap) (s : Subset) (rest : List Subset)
    (hreplicas : replicas<2^31) (hl : 0≤allocated) (hr : allocated+given replicas allocated (cap s)≤replicas)
    (hput : put (valueOf m s.name) (given replicas allocated (cap s)) =
      valueOf m s.name+given replicas allocated (cap s)) :
    satisfy wrap replicas cap put (s::rest) allocated m =
      satisfy wrap replicas cap put rest (allocated+given replicas allocated (cap s))
        (m.insert s.name (valueOf m s.name+given replicas allocated (cap s))) := by
  have ha:=given_nonneg replicas allocated (cap s)
  rw [satisfy,hw (replicas-allocated) (by omega) (by omega),← given,
    hw (allocated+given replicas allocated (cap s)) (by omega) (by omega),hput]

variable {s : Subset}

theorem Passed.cons {replicas : Int} {cap : Subset → Int} {rest : List Subset}
    {result : Int × ReplicaMap} (hs : 0≤cap s) (hr : ∀ t∈rest,0≤cap t)
    (hn : s.name∉rest.map Subset.name) (hh : allocated≤replicas)
    (tail : Passed replicas cap rest (allocated+given replicas allocated (cap s))
      (m.insert s.name (valueOf m s.name+given replicas allocated (cap s))) result) :
    Passed replicas cap (s::rest) allocated m result := by
  have hsum:=sum_map_nonneg hr
  constructor
  · rw [tail.handedOut,map_cons,sum_cons]
    unfold given
    omega
  · have ht:=tail.total
    rw [total_insert] at ht
    omega
  · intro name
    rw [tail.keys,AList.mem_insert,map_cons,mem_cons]
    tauto
  · intro name ho
    rw [map_cons,mem_cons,not_or] at ho
    rw [tail.others name ho.2,AList.lookup_insert_ne ho.1]
  · intro before t after hspl
    cases before with
    | nil =>
      obtain ⟨rfl,rfl⟩ := cons_eq_cons.mp hspl
      rw [tail.others _ hn,AList.lookup_insert]
      simp
    | cons b before =>
      obtain ⟨rfl,rfl⟩ := hspl
      have hne : t.name≠s.name := by
        intro heq
        exact hn (heq ▸ mem_map_of_mem (mem_append_right _ mem_cons_self))
      have hbef : 0≤(before.map cap).sum :=
        sum_map_nonneg fun u hu => hr u (mem_append_left _ hu)
      rw [tail.values before t after rfl,valueOf_insert_of_ne hne,map_cons, sum_cons,given_after hs hbef hh]

theorem satisfy_passed (hw : Exact wrap) (hnd : (subsets.map Subset.name).Nodup)
    (hcap : ∀ s∈subsets,0≤cap s) (hreplicas : replicas<2^31)
    (hput : ∀ s∈subsets,∀ add,0≤add → add≤cap s → put (valueOf m s.name) add=valueOf m s.name+add)
    (hl : 0≤allocated) (hh : allocated≤replicas) :
    Passed replicas cap subsets allocated m (satisfy wrap replicas cap put subsets allocated m) := by
  induction subsets generalizing allocated m with
  | nil =>
    refine ⟨?_,?_,?_,fun _ _ => rfl,?_⟩
    · simp [satisfy,hh]
    · simp [satisfy]
    · simp [satisfy]
    · intro before s after h
      simp at h
  | cons s rest ih =>
    rw [map_cons,nodup_cons] at hnd
    have hs:=hcap s mem_cons_self
    have hr : ∀ t∈rest,0≤cap t := fun t ht => hcap t (mem_cons_of_mem s ht)
    have ha:=given_nonneg replicas allocated (cap s)
    have hroom : allocated+given replicas allocated (cap s)≤replicas := by
      unfold given
      omega
    rw [satisfy_cons hw s rest hreplicas hl hroom (hput s mem_cons_self _ ha (given_le _ _ hs))]
    refine .cons hs hr hnd.1 hh (ih hnd.2 hr ?_ (by omega) hroom)
    intro t ht
    have hne : t.name≠s.name := fun heq => hnd.1 (heq ▸ mem_map_of_mem ht)
    rw [valueOf_insert_of_ne hne]
    exact hput t (mem_cons_of_mem s ht)

theorem validateAndCalculateMinMaxMap_ok
    (h : ∀ s∈subsets,minReplicasOf replicas s ≤ maxReplicasOf replicas s) (index : Nat) (mins maxs : ReplicaMap) :
    validateAndCalculateMinMaxMap replicas index subsets mins maxs =
      .ok (fill Subset.name (fun s => some (minReplicasOf replicas s)) subsets mins,
        fill Subset.name (fun s => some (maxReplicasOf replicas s)) subsets maxs) := by
  induction subsets generalizing index mins maxs with
  | nil => rfl
  | cons s rest ih =>
    have hs:=h s mem_cons_self
    rw [validateAndCalculateMinMaxMap,if_neg (by omega),ih fun t ht => h t (mem_cons_of_mem s ht)]
    rfl

structure Bounded (replicas : Int) (subsets : List Subset) : Prop where
  nonneg : 0≤replicas
  int32 : replicas<2^31
  nodup : (subsets.map Subset.name).Nodup
  min_nonneg : ∀ s∈subsets,0 ≤ minReplicasOf replicas s
  min_le_max : ∀ s∈subsets,minReplicasOf replicas s ≤ maxReplicasOf replicas s
  max_int32 : ∀ s∈subsets,maxReplicasOf replicas s<2^31

section

variable (replicas : Int) (subsets : List Subset)

def sumMin (subsets : List Subset) : Int := (subsets.map (minReplicasOf replicas)).sum

def sumMax (subsets : List Subset) : Int := (subsets.map (maxReplicasOf replicas)).sum

def elasticShare (before : List Subset) (subset : Subset) : Int :=
  given replicas (sumMin replicas before) (minReplicasOf replicas subset) +
    given replicas (min replicas (sumMin replicas subsets) +
        (sumMax replicas before-sumMin replicas before)) (spareOf replicas subset)

variable {replicas subsets}

theorem sum_between (subsets : List Subset) :
    (subsets.map (spareOf replicas)).sum=sumMax replicas subsets-sumMin replicas subsets := by
  induction subsets with
  | nil => rfl
  | cons s rest ih =>
    unfold sumMax sumMin at ih ⊢
    simp only [map_cons,sum_cons,ih,spareOf]
    omega

theorem Bounded.between_nonneg (h : Bounded replicas subsets) : ∀ s∈subsets,0 ≤ spareOf replicas s :=
  fun s hs => sub_nonneg.mpr (h.min_le_max s hs)

structure Shared (replicas : Int) (subsets : List Subset) (allocated : ReplicaMap) : Prop where
  keys : ∀ name,name∈allocated ↔ name∈subsets.map Subset.name
  total : allocated.total=min replicas (sumMax replicas subsets)
  shares : ∀ before s after,subsets=before++s::after →
    allocated.lookup s.name=some (elasticShare replicas subsets before s)

theorem Bounded.of_subset {part : List Subset} (h : Bounded replicas subsets) (hpart : part ⊆ subsets) :
    0 ≤ sumMin replicas part ∧ sumMin replicas part ≤ sumMax replicas part := by
  have hbtw:=sum_map_nonneg fun s hs => h.between_nonneg s (hpart hs)
  rw [sum_between] at hbtw
  exact ⟨sum_map_nonneg fun s hs => h.min_nonneg s (hpart hs),by omega⟩

/- The first pass leaves the minima, as far as the replicas go. -/
structure FirstPass (replicas : Int) (subsets : List Subset) (result : Int × ReplicaMap) : Prop where
  handedOut : result.1=min replicas (sumMin replicas subsets)
  total : result.2.total=result.1
  keys : ∀ name,name∈result.2 ↔ name∈subsets.map Subset.name
  values : ∀ before s after,subsets=before++s::after → result.2.lookup s.name =
    some (given replicas (sumMin replicas before) (minReplicasOf replicas s))

variable {wrap : Int → Int}

theorem satisfy_first (hw : Exact wrap) (h : Bounded replicas subsets) : FirstPass replicas subsets
    (satisfy wrap replicas (minReplicasOf replicas) (fun _ add => add) subsets 0 ∅) := by
  have first : Passed replicas (minReplicasOf replicas) subsets 0 ∅
      (satisfy wrap replicas (minReplicasOf replicas) (fun _ add => add) subsets 0 ∅) := by
    refine satisfy_passed hw h.nodup h.min_nonneg h.int32 ?_ (le_refl 0) h.nonneg
    simp [valueOf]
  constructor
  · rw [first.handedOut,Int.zero_add]
    rfl
  · have ht:=first.total
    simpa [ReplicaMap.total] using ht
  · simp [first.keys]
  · intro before s after hspl
    have hval:=first.values before s after hspl
    simpa [valueOf,sumMin] using hval

section

variable {result : Int × ReplicaMap} (first : FirstPass replicas subsets result) (h : Bounded replicas subsets)
include first h

theorem FirstPass.shared_of_done (hd : result.1 ≥ replicas) : Shared replicas subsets result.2 := by
  have hsums:=h.of_subset (.refl subsets)
  have hh:=first.handedOut
  have htotal:=first.total
  refine ⟨first.keys,by omega,?_⟩
  intro before s after hspl
  have hbef:=h.of_subset fun t ht => hspl ▸ mem_append_left (s::after) ht
  have hno : given replicas (min replicas (sumMin replicas subsets) +
      (sumMax replicas before-sumMin replicas before)) (spareOf replicas s)=0 := by
    unfold given
    omega
  rw [first.values before s after hspl,elasticShare,hno,Int.add_zero]

theorem FirstPass.shared_of_second (hw : Exact wrap) :
    Shared replicas subsets (satisfy wrap replicas (spareOf replicas) (fun value add => wrap (value+add)) subsets
      result.1 result.2).2 := by
  have hsums:=h.of_subset (.refl subsets)
  have hn:=h.nonneg
  have hh:=first.handedOut
  have second : Passed replicas (spareOf replicas) subsets result.1 result.2
      (satisfy wrap replicas (spareOf replicas) (fun value add => wrap (value+add)) subsets
        result.1 result.2) := by
    refine satisfy_passed hw h.nodup h.between_nonneg h.int32 ?_ (by omega) (by omega)
    intro s hs add ha hle
    obtain ⟨before,after,hspl⟩ := append_of_mem hs
    have hval : valueOf result.2 s.name = given replicas (sumMin replicas before) (minReplicasOf replicas s) := by
      rw [valueOf,first.values before s after hspl,Option.getD_some]
    have hm:=h.min_nonneg s hs
    have hmax:=h.max_int32 s hs
    have hl:=given_nonneg replicas (sumMin replicas before) (minReplicasOf replicas s)
    have hhigh : valueOf result.2 s.name ≤ minReplicasOf replicas s := hval ▸ given_le _ _ hm
    unfold spareOf at hle
    exact hw _ (by omega) (by omega)
  constructor
  · intro name
    rw [second.keys,first.keys,or_self]
  · have hg:=second.total
    have ho:=second.handedOut
    have ht:=first.total
    rw [sum_between] at ho
    omega
  · intro before s after hspl
    rw [second.values before s after hspl,valueOf,first.values before s after hspl,
      Option.getD_some,sum_between,elasticShare,first.handedOut]

end

theorem Elastic.alloc_shared (hw : Exact wrap) (h : Bounded replicas subsets)
    {mins maxs : ReplicaMap} (hm : ∀ s∈subsets,valueOf mins s.name=minReplicasOf replicas s)
    (hmaxs : ∀ s∈subsets,valueOf maxs s.name=maxReplicasOf replicas s) :
    Shared replicas subsets (Elastic.alloc wrap subsets replicas mins maxs) := by
  have hbtw : ∀ s∈subsets,wrap (valueOf maxs s.name-valueOf mins s.name)=spareOf replicas s := by
    intro s hs
    have hl:=h.min_le_max s hs
    have hmin:=h.min_nonneg s hs
    have hmax:=h.max_int32 s hs
    rw [hm s hs,hmaxs s hs,hw _ (by omega) (by omega),spareOf]
  have first:=satisfy_first hw h
  unfold Elastic.alloc
  rw [satisfy_congr hm]
  dsimp only
  by_cases hd : (satisfy wrap replicas (minReplicasOf replicas) (fun _ add => add) subsets 0 ∅).1 ≥ replicas
  · rw [if_pos hd]
    exact first.shared_of_done h hd
  · rw [if_neg hd,satisfy_congr hbtw]
    exact first.shared_of_second h hw

theorem sum_map_append_cons (f : Subset → Int) (before : List Subset) (s : Subset) (after : List Subset) :
    ((before++s::after).map f).sum=(before.map f).sum+f s+(after.map f).sum := by
  rw [map_append,sum_append,map_cons,sum_cons]
  omega

section

variable {before : List Subset} {s : Subset} {after : List Subset} (h : Bounded replicas (before++s::after))
include h

theorem Bounded.elasticShare_between :
    0≤elasticShare replicas (before++s::after) before s ∧
      elasticShare replicas (before++s::after) before s ≤ maxReplicasOf replicas s ∧
      (sumMin replicas (before++s::after)≤replicas →
        minReplicasOf replicas s≤elasticShare replicas (before++s::after) before s) := by
  have hmem : s∈before++s::after := mem_append_right before mem_cons_self
  have hm:=h.min_nonneg s hmem
  have hmax:=h.min_le_max s hmem
  have hsum:=sum_map_append_cons (minReplicasOf replicas) before s after
  rw [← sumMin,← sumMin,← sumMin] at hsum
  have ha:=h.of_subset fun t ht =>
    mem_append_right before (mem_cons_of_mem s ht)
  unfold elasticShare
  refine ⟨add_nonneg (given_nonneg _ _ _) (given_nonneg _ _ _),?_,fun hle => ?_⟩
  · have hboth:=add_le_add (given_le replicas (sumMin replicas before) hm)
      (given_le replicas (min replicas (sumMin replicas (before++s::after)) +
        (sumMax replicas before-sumMin replicas before)) (sub_nonneg.mpr hmax))
    rwa [add_sub_cancel] at hboth
  · rw [given_full hm (by omega)]
    exact le_add_of_nonneg_right (given_nonneg _ _ _)

theorem Bounded.elasticShare_greedy {first : List Subset} {t : Subset} {second : List Subset}
    (hbef : before=first++t::second) :
    (minReplicasOf replicas s<elasticShare replicas (before++s::after) before s →
      elasticShare replicas (before++s::after) first t=maxReplicasOf replicas t) ∧
    (0<elasticShare replicas (before++s::after) before s →
      minReplicasOf replicas t≤elasticShare replicas (before++s::after) first t) := by
  have hmem : s∈before++s::after := mem_append_right before mem_cons_self
  have hsub : ∀ u∈before,u∈before++s::after := fun u hu => mem_append_left _ hu
  have ht : t∈before := hbef ▸ mem_append_right first mem_cons_self
  have hm:=h.min_nonneg s hmem
  have hmin_t:=h.min_nonneg t (hsub t ht)
  have hmax_t:=h.min_le_max t (hsub t ht)
  have hsum:=sum_map_append_cons (minReplicasOf replicas) before s after
  have hsum_t:=sum_map_append_cons (minReplicasOf replicas) first t second
  have hsumMax_t:=sum_map_append_cons (maxReplicasOf replicas) first t second
  rw [← hbef] at hsum_t hsumMax_t
  rw [← sumMin,← sumMin,← sumMin] at hsum hsum_t
  rw [← sumMax,← sumMax,← sumMax] at hsumMax_t
  have haft:=h.of_subset fun u hu =>
    mem_append_right before (mem_cons_of_mem s hu)
  have hf:=h.of_subset fun u hu => hsub u (hbef ▸ mem_append_left _ hu)
  have hsnd:=h.of_subset fun u hu =>
    hsub u (hbef ▸ mem_append_right first (mem_cons_of_mem t hu))
  have hr:=@reached_lt_of_given_pos replicas (min replicas (sumMin replicas (before++s::after)) +
      (sumMax replicas before-sumMin replicas before)) (spareOf replicas s)
  unfold elasticShare
  unfold spareOf at hr ⊢
  constructor
  · intro ha
    -- the second pass comes to `s` with something left
    have hle:=given_le replicas (sumMin replicas before) hm
    rw [given_full hmin_t (by omega),given_full (sub_nonneg.mpr hmax_t) (by omega),add_sub_cancel]
  · intro hpart
    -- one of the passes comes to `s` with something left
    have hrch : sumMin replicas before≤replicas := by
      rcases lt_or_ge 0 (given replicas (sumMin replicas before) (minReplicasOf replicas s)) with
        hpos | hn
      · exact (reached_lt_of_given_pos hpos).le
      · omega
    rw [given_full hmin_t (by omega)]
    exact le_add_of_nonneg_right (given_nonneg _ _ _)

end

def IntegerBounds (subsets : List Subset) : Prop :=
  ∀ s∈subsets,∀ value,s.minReplicas=some value ∨ s.maxReplicas=some value →
    ∃ n,value=.int n

theorem parsedOr_integer (replicas replicas' default : Int) {field : Option IntOrString}
    (h : ∀ value,field=some value → ∃ n,value=.int n) :
    parsedOr replicas default field=parsedOr replicas' default field := by
  cases field with
  | none => rfl
  | some value =>
    obtain ⟨n,rfl⟩ := h value rfl
    rfl

section

variable (hint : IntegerBounds subsets) (replicas replicas' : Int)
include hint

theorem minReplicasOf_integer {s : Subset} (hs : s∈subsets) : minReplicasOf replicas s=minReplicasOf replicas' s :=
  congrArg Prod.fst (parsedOr_integer _ _ _ fun value hval => hint s hs value (.inl hval))

theorem maxReplicasOf_integer {s : Subset} (hs : s∈subsets) : maxReplicasOf replicas s=maxReplicasOf replicas' s :=
  congrArg Prod.fst (parsedOr_integer _ _ _ fun value hval => hint s hs value (.inr hval))

theorem sums_integer {part : List Subset} (hpart : part ⊆ subsets) :
    sumMin replicas part=sumMin replicas' part ∧ sumMax replicas part=sumMax replicas' part :=
  ⟨congrArg List.sum (map_congr_left fun _ hs =>
      minReplicasOf_integer hint replicas replicas' (hpart hs)),
    congrArg List.sum (map_congr_left fun _ hs =>
      maxReplicasOf_integer hint replicas replicas' (hpart hs))⟩

end

theorem elasticShare_mono (hint : IntegerBounds subsets) {replicas' : Int}
    (hle : replicas≤replicas') {before after : List Subset} {s : Subset} (hspl : subsets=before++s::after) :
    elasticShare replicas subsets before s≤elasticShare replicas' subsets before s := by
  have hmem : s∈subsets := hspl ▸ mem_append_right before mem_cons_self
  obtain ⟨hm,-⟩ := sums_integer hint replicas replicas' (.refl subsets)
  obtain ⟨hmin_before,hmax_before⟩ := sums_integer hint replicas replicas' fun t ht =>
    hspl ▸ mem_append_left (s::after) ht
  unfold elasticShare spareOf
  rw [hm,hmin_before,hmax_before,minReplicasOf_integer hint replicas replicas' hmem,
    maxReplicasOf_integer hint replicas replicas' hmem]
  exact add_le_add (given_mono (by omega) _) (given_mono (by omega) _)

end

theorem min_le_max_of_subsetErrors {expected : Int} {i : Nat} {subset : Subset}
    (h : subsetErrors expected i subset=[]) : minReplicasOf expected subset ≤ maxReplicasOf expected subset := by
  obtain ⟨-,hbds⟩ := append_eq_nil_iff.mp h
  by_contra hgt
  unfold minReplicasOf maxReplicasOf at hgt
  rw [if_pos (by omega)] at hbds
  cases hbds

theorem parsedOr_nonneg {replicas default : Int} (hd : 0≤default)
    (field : Option IntOrString) : 0≤(parsedOr replicas default field).1 := by
  cases field with
  | none => exact hd
  | some value =>
    cases hpar : parseSubsetReplicas replicas value with
    | error err => simp [parsedOr,hpar]
    | ok v => simpa [parsedOr,hpar] using parseSubsetReplicas_nonneg hpar

/- The integers of the bounds are `int32`. -/
structure BoundedSpec extends Spec where
  int32 : ∀ s∈subsets,∀ n,s.minReplicas=some (.int n) ∨ s.maxReplicas=some (.int n) →
    -(2^31)≤n ∧ n<2^31

theorem BoundedSpec.max_int32 (spec : BoundedSpec) {replicas : Int} (hr : replicas<2^31) (hs : s∈spec.subsets) :
    maxReplicasOf replicas s<2^31 := by
  unfold maxReplicasOf
  cases hm : s.maxReplicas with
  | none => simp [parsedOr]
  | some value =>
    cases hpar : parseSubsetReplicas replicas value with
    | error err => simp [parsedOr,hpar]
    | ok v =>
      simp only [parsedOr,hpar]
      obtain ⟨rfl,-⟩ | ⟨_,percent,-,hud,-,hh,rfl⟩ := parseSubsetReplicas_cases hpar
      · exact (spec.int32 s hs v (.inr hm)).2
      · have hprod : replicas*percent≤replicas*100 := Int.mul_le_mul_of_nonneg_left hh hud
        omega

theorem bounded_of_validate {address : String} {spec : BoundedSpec} (hu : spec.subsets.any usesBounds)
    (h : validateUnitedDeploymentSpec address spec.toSpec=[]) :
    ∃ r,spec.replicas=some r ∧ Bounded r spec.subsets := by
  obtain ⟨hnonneg,hsubs,hnd⟩ := parts_of_validate h
  have tally:=Totals.loop_tally (spec.replicas.getD (-1)) 0 spec.subsets .zero
  have hcap:=tally.capacity
  have he:=tally.errors
  rw [hu,Bool.or_true] at hcap
  simp only [validateSubsetReplicas] at hsubs
  generalize Totals.loop (spec.replicas.getD (-1)) 0 spec.subsets .zero=t at *
  simp only [hcap,Bool.and_true,if_true] at hsubs
  by_cases hm : t.hasReplicasSettings
  · rw [if_pos hm] at hsubs
    simp at hsubs
  · rw [if_neg hm] at hsubs
    obtain ⟨hsubs,-⟩ := append_eq_nil_iff.mp hsubs
    obtain ⟨hsubs,-⟩ := append_eq_nil_iff.mp hsubs
    obtain ⟨hn,hset⟩ := append_eq_nil_iff.mp hsubs
    cases hr : spec.replicas with
    | none => simp [hr] at hset
    | some r =>
      have hi:=(spec.fits r hr).2
      rw [hr] at he
      refine ⟨r,rfl,hnonneg r hr,hi,hnd,fun s _ => parsedOr_nonneg (le_refl 0) s.minReplicas,?_,
        fun s hs => spec.max_int32 hi hs⟩
      intro s hs
      obtain ⟨i,hsub⟩ := (he hn).2 s hs
      exact min_le_max_of_subsetErrors hsub

theorem elasticAlloc_shared {spec : Spec} {r : Int} (hr : spec.replicas=some r) (h : Bounded r spec.subsets) :
    ∃ allocated,elasticAlloc int32 spec=.ok allocated ∧ Shared r spec.subsets allocated := by
  unfold elasticAlloc
  simp only [hr,Option.getD_some,validateAndCalculateMinMaxMap_ok h.min_le_max]
  refine ⟨_,rfl,Elastic.alloc_shared exact_int32 h ?_ ?_⟩
  · intro s hs
    rw [valueOf,lookup_fill _ _ h.nodup hs,Option.getD_some]
  · intro s hs
    rw [valueOf,lookup_fill _ _ h.nodup hs,Option.getD_some]

theorem Shared.valueOf_eq {r : Int} {subsets : List Subset} {allocated : ReplicaMap}
    (h : Shared r subsets allocated) {before after : List Subset} (hspl : subsets=before++s::after) :
    valueOf allocated s.name=elasticShare r subsets before s := by
  rw [valueOf,h.shares before s after hspl,Option.getD_some]

structure HonoursBounds (r : Int) (subsets : List Subset) (allocated : ReplicaMap) : Prop where
  keys : allocated.keys.Perm (subsets.map Subset.name)
  total : allocated.total=min r (sumMax r subsets)
  atMost : ∀ s∈subsets,0≤valueOf allocated s.name ∧
    valueOf allocated s.name ≤ maxReplicasOf r s
  atLeast : sumMin r subsets≤r → ∀ s∈subsets,minReplicasOf r s≤valueOf allocated s.name
  above : ∀ before s after,subsets=before++s::after →
    minReplicasOf r s<valueOf allocated s.name →
    ∀ t∈before,valueOf allocated t.name=maxReplicasOf r t
  inOrder : ∀ before s after,subsets=before++s::after → 0<valueOf allocated s.name →
    ∀ t∈before,minReplicasOf r t≤valueOf allocated t.name

theorem Shared.honours {r : Int} {subsets : List Subset} {allocated : ReplicaMap}
    (h : Bounded r subsets) (hshr : Shared r subsets allocated) : HonoursBounds r subsets allocated := by
  have he : ∀ {first t second s after},subsets=(first++t::second)++s::after →
      valueOf allocated t.name=elasticShare r subsets first t := by
    intro first t second s after hspl
    rw [append_assoc,cons_append] at hspl
    exact hshr.valueOf_eq hspl
  constructor
  · refine (perm_ext_iff_of_nodup allocated.nodupKeys h.nodup).mpr fun name => ?_
    exact hshr.keys name
  · exact hshr.total
  · intro s hs
    obtain ⟨before,after,rfl⟩ := append_of_mem hs
    rw [hshr.valueOf_eq rfl]
    exact ⟨h.elasticShare_between.1,h.elasticShare_between.2.1⟩
  · intro hle s hs
    obtain ⟨before,after,rfl⟩ := append_of_mem hs
    rw [hshr.valueOf_eq rfl]
    exact h.elasticShare_between.2.2 hle
  · intro before s after hspl ha t ht
    obtain ⟨first,second,rfl⟩ := append_of_mem ht
    rw [hshr.valueOf_eq hspl] at ha
    rw [he hspl]
    subst hspl
    exact (h.elasticShare_greedy rfl).1 ha
  · intro before s after hspl hpart t ht
    obtain ⟨first,second,rfl⟩ := append_of_mem ht
    rw [hshr.valueOf_eq hspl] at hpart
    rw [he hspl]
    subst hspl
    exact (h.elasticShare_greedy rfl).2 hpart

/-- The allocation of an accepted spec with bounds succeeds and honours them, and with integer
bounds more replicas never give a subset less. -/
theorem elasticAlloc_honours_bounds (address : String) (spec : BoundedSpec) (huses : spec.subsets.any usesBounds)
    (haccepted : validateUnitedDeploymentSpec address spec.toSpec=[]) :
    ∃ r allocated,spec.replicas=some r ∧ elasticAlloc int32 spec.toSpec=.ok allocated ∧
      HonoursBounds r spec.subsets allocated ∧
      ∀ (address' : String) (spec' : BoundedSpec) (r' : Int),
        spec'.subsets=spec.subsets → IntegerBounds spec.subsets → spec'.replicas=some r' →
        validateUnitedDeploymentSpec address' spec'.toSpec=[] → r≤r' →
        ∃ allocated',elasticAlloc int32 spec'.toSpec=.ok allocated' ∧
          ∀ s∈spec.subsets,valueOf allocated s.name≤valueOf allocated' s.name := by
  obtain ⟨r,hr,h⟩ := bounded_of_validate huses haccepted
  obtain ⟨allocated,hal,hshr⟩ := elasticAlloc_shared hr h
  refine ⟨r,allocated,hr,hal,hshr.honours h,?_⟩
  intro address' spec' r' hsubs hint hr' haccepted' hle
  obtain ⟨r'',hr'',h'⟩ := bounded_of_validate (hsubs ▸ huses) haccepted'
  obtain rfl : r'=r'' := Option.some.inj (hr'.symm.trans hr'')
  obtain ⟨allocated',hal',hshr'⟩ := elasticAlloc_shared hr' h'
  refine ⟨allocated',hal',?_⟩
  intro s hs
  obtain ⟨before,after,hspl⟩ := append_of_mem hs
  rw [hshr.valueOf_eq hspl,hshr'.valueOf_eq (hsubs.trans hspl),hsubs]
  exact elasticShare_mono hint hle hspl

def zones : List Subset :=
  [⟨"zone-a",none,some (.int 2),some (.int 4)⟩,⟨"zone-b",none,some (.int 2),none⟩]

theorem zones_integer (hs : s∈zones) {value : IntOrString}
    (hval : s.minReplicas=some value ∨ s.maxReplicas=some value) : value=.int 2 ∨ value=.int 4 := by
  simp only [zones,mem_cons,not_mem_nil,or_false] at hs
  rcases hs with rfl | rfl
  · rcases hval with hmin | hm
    · exact .inl (Option.some.inj hmin).symm
    · exact .inr (Option.some.inj hm).symm
  · rcases hval with hmin | hm
    · exact .inl (Option.some.inj hmin).symm
    · cases hm

theorem zones_int32 : ∀ s∈zones,∀ n,
    s.minReplicas=some (.int n) ∨ s.maxReplicas=some (.int n) → -(2^31)≤n ∧ n<2^31 := by
  intro s hs n hn
  rcases zones_integer hs hn with h | h <;> cases h <;> decide

/- Two to four replicas in one zone and at least two in the other. -/
def twoZones (replicas : Int) (h : -(2^31)≤replicas ∧ replicas<2^31) : BoundedSpec where
  replicas := some replicas
  subsets := zones
  partitions := []
  fits := fits_some h
  int32 := zones_int32

theorem twoZones_honoured : ∃ r allocated,(twoZones 5 (by decide)).replicas=some r ∧
    elasticAlloc int32 (twoZones 5 (by decide)).toSpec=.ok allocated ∧
    HonoursBounds r (twoZones 5 (by decide)).subsets allocated ∧
    ∃ allocated',elasticAlloc int32 (twoZones 9 (by decide)).toSpec=.ok allocated' ∧
      ∀ s∈(twoZones 5 (by decide)).subsets, valueOf allocated s.name≤valueOf allocated' s.name := by
  obtain ⟨r,allocated,hr,hal,hh,hm⟩ :=
    elasticAlloc_honours_bounds "0" (twoZones 5 (by decide)) (by decide) (by decide +kernel)
  refine ⟨r,allocated,hr,hal,hh,?_⟩
  obtain rfl : 5=r := Option.some.inj hr
  refine hm "0" (twoZones 9 (by decide)) 9 rfl ?_ rfl (by decide +kernel) (by decide)
  intro s hs value hval
  rcases zones_integer hs hval with h | h
  · exact ⟨2,h⟩
  · exact ⟨4,h⟩

example : ((elasticAlloc int32 (twoZones 5 (by decide)).toSpec).toOption.map AList.entries) =
    some [⟨"zone-b",2⟩,⟨"zone-a",3⟩] := by decide +kernel

end Kruise.UnitedDeployment
