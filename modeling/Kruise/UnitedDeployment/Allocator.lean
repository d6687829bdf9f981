import Kruise.Lib.Keyed
import Kruise.UnitedDeployment.Validate
import Mathlib.Algebra.Order.BigOperators.Group.List
import Mathlib.Data.List.Sort

/-!
# The replicas of the subsets

`specificAllocator` of `pkg/controller/uniteddeployment/allocator.go` 30-231. `int32` results pass
through `wrap`, so that the same functions also describe the computation without a bound on the
numbers.
-/

namespace Kruise.UnitedDeployment

open Lib.Keyed List

abbrev ReplicaMap := AList fun _ : String => Int

def ReplicaMap.total (m : ReplicaMap) : Int := (m.entries.map Sigma.snd).sum

def valueOf (allocated : ReplicaMap) (name : String) : Int := (allocated.lookup name).getD 0

theorem total_insert (m : ReplicaMap) (name : String) (v : Int) :
    ReplicaMap.total (m.insert name v)=m.total-valueOf m name+v := by
  have he : ∀ entries : List (Sigma fun _ : String => Int), ((List.kerase name entries).map Sigma.snd).sum =
        (entries.map Sigma.snd).sum-(List.dlookup name entries).getD 0 := by
    intro entries
    induction entries with
    | nil => rfl
    | cons entry entries ih =>
      by_cases hn : name=entry.1
      · subst hn
        rw [kerase_cons_eq rfl,dlookup_cons_eq]
        simp only [map_cons,sum_cons,Option.getD_some]
        omega
      · rw [kerase_cons_ne hn,dlookup_cons_ne _ _ hn]
        simp only [map_cons,sum_cons,ih]
        omega
  unfold ReplicaMap.total valueOf
  rw [AList.entries_insert,map_cons,sum_cons,he]
  simp only [AList.lookup]
  omega

structure NameToReplicas where
  subsetName : String
  replicas : Int
  specified : Bool
  deriving DecidableEq,Repr

def NameToReplicas.Less (a b : NameToReplicas) : Prop :=
  if a.replicas≠b.replicas then a.replicas<b.replicas else a.subsetName<b.subsetName
  deriving Decidable

def sortInfos (infos : List NameToReplicas) : List NameToReplicas :=
  infos.insertionSort fun a b => ¬b.Less a

/- `existing` gives the replicas of the subsets that there are. -/
def getSubsetInfos (existing : String → Option Int) (spec : Spec) : List NameToReplicas :=
  spec.subsets.map fun s => ⟨s.name,(existing s.name).getD 0,false⟩

def getSpecifiedSubsetReplicas (replicas : Int) (spec : Spec) : ReplicaMap :=
  fill Subset.name (specifiedReplicas replicas) spec.subsets ∅

section

variable (wrap : Int → Int)

def wrappedSum (sum : Int) (values : List Int) : Int := values.foldl (fun s v => wrap (s+v)) sum

def validateReplicas (infos : List NameToReplicas) (replicas : Int) (limits : ReplicaMap) : Except String Unit :=
  let specifiedReplicas:=wrappedSum wrap 0 (limits.entries.map Sigma.snd)
  let specifiedCount:=infos.countP fun s => (limits.lookup s.subsetName).isSome
  if replicas ≠ -1 then
    if specifiedReplicas > replicas then
      .error ("specified subsets' replica (" ++ toString specifiedReplicas ++
        ") is greater than UnitedDeployment replica (" ++ toString replicas ++ ")")
    else if specifiedReplicas<replicas ∧ specifiedCount=infos.length then
      .error ("specified subsets' replica (" ++ toString specifiedReplicas ++
        ") is less than UnitedDeployment replica (" ++ toString replicas ++ ")")
    else .ok ()
  else if specifiedCount≠infos.length then
    .error "all subsets must be specified when UnitedDeployment replica is unspecified"
  else .ok ()

def applySpecified (limits : ReplicaMap) :
    List NameToReplicas → Int → Nat → List NameToReplicas × Int × Nat
  | [],sum,count => ([],sum,count)
  | s::rest,sum,count =>
    match limits.lookup s.subsetName with
    | some replicas =>
      let (rest',sum',count') := applySpecified limits rest (wrap (sum+replicas)) (count+1)
      ({s with replicas := replicas,specified := true}::rest',sum',count')
    | none =>
      let (rest',sum',count') := applySpecified limits rest sum count
      (s::rest',sum',count')

def spreadRest (average : Int) : List NameToReplicas → Int → Nat → List NameToReplicas
  | [],_,_ => []
  | s::rest,remainder,leftSubsetCount =>
    if s.specified then s::spreadRest average rest remainder leftSubsetCount
    else
      let given:=if remainder > 0 then average+1 else average
      let remainder' := if remainder > 0 then remainder-1 else remainder
      let s' := {s with replicas := wrap given}
      if leftSubsetCount-1=0 then s'::rest
      else s'::spreadRest average rest remainder' (leftSubsetCount-1)

def toSubsetReplicaMap (infos : List NameToReplicas) : ReplicaMap :=
  fill NameToReplicas.subsetName (fun s => some s.replicas) infos ∅

def normalAllocate (infos : List NameToReplicas) (expectedReplicas : Int) (limits : ReplicaMap) : ReplicaMap :=
  let (infos,specifiedReplicas,specifiedSubsetCount) := applySpecified wrap limits infos 0 0
  let leftSubsetCount:=infos.length-specifiedSubsetCount
  if leftSubsetCount≠0 then
    let allocatableReplicas:=wrap (expectedReplicas-specifiedReplicas)
    let average:=allocatableReplicas.tdiv leftSubsetCount
    let remainder:=allocatableReplicas.tmod leftSubsetCount
    toSubsetReplicaMap
      (spreadRest wrap average infos.reverse remainder leftSubsetCount).reverse
  else toSubsetReplicaMap infos

def allocateReplicas (infos : List NameToReplicas) (replicas : Int) (limits : ReplicaMap) :
    Except String ReplicaMap :=
  (validateReplicas wrap infos replicas limits).map fun _ =>
    normalAllocate wrap infos replicas limits

def specificAlloc (spec : Spec) (existing : String → Option Int) : Except String ReplicaMap :=
  let infos:=sortInfos (getSubsetInfos existing spec)
  let expectedReplicas:=spec.replicas.getD (-1)
  allocateReplicas wrap infos expectedReplicas (getSpecifiedSubsetReplicas expectedReplicas spec)

end

def sumReplicas (infos : List NameToReplicas) : Int := (infos.map NameToReplicas.replicas).sum

def sumOfSpecified (infos : List NameToReplicas) : Int :=
  sumReplicas (infos.filter NameToReplicas.specified)

def unspecified (infos : List NameToReplicas) : Nat := infos.countP fun s => !s.specified

def mark (limits : ReplicaMap) (s : NameToReplicas) : NameToReplicas :=
  match limits.lookup s.subsetName with
  | some replicas => {s with replicas := replicas,specified := true}
  | none => s

theorem mark_subsetName (limits : ReplicaMap) (s : NameToReplicas) : (mark limits s).subsetName=s.subsetName := by
  unfold mark
  cases limits.lookup s.subsetName <;> rfl

def limitsOf (limits : ReplicaMap) (infos : List NameToReplicas) : List Int :=
  infos.filterMap fun s => limits.lookup s.subsetName

variable {wrap : Int → Int} {limits : ReplicaMap} {s : NameToReplicas}

theorem limitsOf_cons_none (h : limits.lookup s.subsetName=none) (rest : List NameToReplicas) :
    limitsOf limits (s::rest)=limitsOf limits rest := List.filterMap_cons_none h

theorem limitsOf_cons_some {v : Int} (h : limits.lookup s.subsetName=some v) (rest : List NameToReplicas) :
    limitsOf limits (s::rest)=v::limitsOf limits rest := List.filterMap_cons_some h

theorem applySpecified_eq (wrap : Int → Int) (limits : ReplicaMap) (infos : List NameToReplicas)
    (sum : Int) (count : Nat) :
    applySpecified wrap limits infos sum count =
      (infos.map (mark limits),wrappedSum wrap sum (limitsOf limits infos),
        count+infos.countP fun s => (limits.lookup s.subsetName).isSome) := by
  induction infos generalizing sum count with
  | nil => rfl
  | cons s rest ih =>
    unfold applySpecified
    cases hs : limits.lookup s.subsetName with
    | none => simp [ih,mark,hs,limitsOf]
    | some replicas =>
      simp only [ih,map_cons,mark,hs,limitsOf_cons_some hs,countP_cons,
        Option.isSome_some,if_true,wrappedSum,foldl_cons]
      rw [Nat.add_assoc count 1,Nat.add_comm 1]

variable {infos : List NameToReplicas}

theorem marked_specified (limits : ReplicaMap) (hf : ∀ s∈infos,s.specified=false) :
    sumOfSpecified (infos.map (mark limits))=(limitsOf limits infos).sum ∧ unspecified (infos.map (mark limits)) +
        infos.countP (fun s => (limits.lookup s.subsetName).isSome)=infos.length := by
  induction infos with
  | nil => exact ⟨rfl,rfl⟩
  | cons s rest ih =>
    obtain ⟨hsum,hcnt⟩ := ih fun t ht => hf t (mem_cons_of_mem s ht)
    have hs:=hf s mem_cons_self
    unfold sumOfSpecified sumReplicas unspecified at *
    cases hl : limits.lookup s.subsetName with
    | none =>
      have hm : mark limits s=s := by simp only [mark,hl]
      rw [map_cons,hm,filter_cons_of_neg (by simp [hs]), limitsOf_cons_none hl,countP_cons_of_pos (by simp [hs]),
        countP_cons_of_neg (by simp [hl]),length_cons]
      exact ⟨hsum,by omega⟩
    | some v =>
      have hm : mark limits s={s with replicas := v,specified := true} := by
        simp only [mark,hl]
      rw [map_cons,hm,filter_cons_of_pos rfl,map_cons,sum_cons,hsum,
        limitsOf_cons_some hl,sum_cons,countP_cons_of_neg (by simp),
        countP_cons_of_pos (by simp [hl]),length_cons]
      exact ⟨rfl,by omega⟩

def Share (average : Int) (s s' : NameToReplicas) : Prop :=
  s'.subsetName=s.subsetName ∧
    if s.specified then s'.replicas=s.replicas
    else s'.replicas=average ∨ s'.replicas=average+1

theorem share_self (average : Int) (h : unspecified infos=0) :
    Forall₂ (Share average) infos infos ∧ sumReplicas infos=sumOfSpecified infos := by
  have ha : ∀ s∈infos,s.specified := by
    intro s hs
    simpa using countP_eq_zero.mp h s hs
  constructor
  · refine List.forall₂_same.mpr ?_
    intro s hs
    exact ⟨rfl,by rw [if_pos (ha s hs)]⟩
  · unfold sumOfSpecified
    rw [filter_eq_self.mpr ha]

variable {final : List NameToReplicas} {average : Int}

theorem names_of_shares (h : Forall₂ (Share average) infos final) :
    final.map NameToReplicas.subsetName=infos.map NameToReplicas.subsetName := by
  induction h with
  | nil => rfl
  | cons hsh _ ih => rw [map_cons,map_cons,ih,hsh.1]

theorem share_of_mem (h : Forall₂ (Share average) infos final) (hs : s∈infos) :
    ∃ s'∈final,Share average s s' := by
  induction h with
  | nil => cases hs
  | cons hsh _ ih =>
    rcases mem_cons.mp hs with rfl | hs
    · exact ⟨_,mem_cons_self,hsh⟩
    · obtain ⟨s',hs',hr⟩ := ih hs
      exact ⟨s',mem_cons_of_mem _ hs',hr⟩

theorem unspecified_cons_specified (hs : s.specified) (rest : List NameToReplicas) :
    unspecified (s::rest)=unspecified rest := by simp [unspecified,hs]

theorem unspecified_cons_left (hs : ¬s.specified) (rest : List NameToReplicas) :
    unspecified (s::rest)=unspecified rest+1 := by simp [unspecified,hs]

theorem spreadRest_specified (wrap : Int → Int) (average : Int) (h : unspecified infos=0) (remainder : Int)
    (left : Nat) : spreadRest wrap average infos remainder left=infos := by
  induction infos generalizing remainder left with
  | nil => rfl
  | cons s rest ih =>
    have ha:=countP_eq_zero.mp h
    have hs : s.specified := by simpa using ha s mem_cons_self
    have hr : unspecified rest=0 :=
      countP_eq_zero.mpr fun t ht => ha t (mem_cons_of_mem s ht)
    rw [spreadRest,if_pos hs,ih hr]

/- The loop could also go on, without effect, where it breaks off. -/
theorem spreadRest_cons_left (hs : ¬s.specified) (average remainder : Int) (rest : List NameToReplicas) :
    spreadRest id average (s::rest) remainder (unspecified rest+1) =
      {s with replicas := if remainder > 0 then average+1 else average} ::
        spreadRest id average rest (if remainder > 0 then remainder-1 else remainder) (unspecified rest) := by
  rw [spreadRest,if_neg hs,Nat.add_sub_cancel]
  dsimp only [id]
  by_cases hl : unspecified rest=0
  · rw [if_pos hl,spreadRest_specified id average hl]
  · rw [if_neg hl]

/-- The subsets that are left share the rest: `remainder` of them get one more than the others. -/
theorem spreadRest_shares (average : Int) (infos : List NameToReplicas) (remainder : Int)
    (hl : 0≤remainder) (hhigh : remainder≤unspecified infos) :
    Forall₂ (Share average) infos (spreadRest id average infos remainder (unspecified infos)) ∧
      sumReplicas (spreadRest id average infos remainder (unspecified infos)) =
        sumOfSpecified infos+average*unspecified infos+remainder := by
  induction infos generalizing remainder with
  | nil =>
    have hz : remainder=0 := by simp [unspecified] at hhigh; omega
    subst hz
    exact ⟨.nil,by simp [spreadRest,sumReplicas,sumOfSpecified,unspecified]⟩
  | cons s rest ih =>
    by_cases hs : s.specified
    · have hspec : sumOfSpecified (s::rest)=s.replicas+sumOfSpecified rest := by
        simp [sumOfSpecified,sumReplicas,hs]
      rw [unspecified_cons_specified hs] at hhigh ⊢
      obtain ⟨hsh,hsum⟩ := ih remainder hl hhigh
      rw [spreadRest,if_pos hs,hspec]
      refine ⟨.cons ⟨rfl,by rw [if_pos hs]⟩ hsh,?_⟩
      simp only [sumReplicas,map_cons,sum_cons] at hsum ⊢
      omega
    · have hspec : sumOfSpecified (s::rest)=sumOfSpecified rest := by
        simp [sumOfSpecified,hs]
      rw [unspecified_cons_left hs] at hhigh ⊢
      -- the head takes one of the remainder if there is any
      obtain ⟨hsh,hsum⟩ := ih (if remainder > 0 then remainder-1 else remainder)
        (by split_ifs <;> omega) (by split_ifs <;> omega)
      rw [spreadRest_cons_left hs,hspec]
      refine ⟨.cons ⟨rfl,?_⟩ hsh,?_⟩
      · rw [if_neg hs]
        split_ifs
        · exact .inr rfl
        · exact .inl rfl
      · simp only [sumReplicas,map_cons,sum_cons] at hsum ⊢
        rw [hsum]
        push_cast
        rw [Int.mul_add,Int.mul_one]
        split_ifs <;> omega

theorem spreadRest_congr (ha : wrap average=average) (infos : List NameToReplicas)
    {remainder : Int} (left : Nat) (hm : 0<remainder → wrap (average+1)=average+1) :
    spreadRest wrap average infos remainder left=spreadRest id average infos remainder left := by
  induction infos generalizing remainder left with
  | nil => rfl
  | cons s rest ih =>
    unfold spreadRest
    by_cases hpos : remainder > 0
    · simp only [hpos,if_true,hm hpos,id_eq]
      rw [ih left hm,ih (left-1) fun _ => hm hpos]
    · simp only [hpos,if_false,ha,id_eq]
      rw [ih left hm,ih (left-1) hm]

def leftSubsets (limits : ReplicaMap) (infos : List NameToReplicas) : Nat :=
  unspecified (infos.map (mark limits))

theorem normalAllocate_eq (wrap : Int → Int) (hf : ∀ s∈infos,s.specified=false) (expected : Int) :
    normalAllocate wrap infos expected limits =
      if leftSubsets limits infos≠0 then
        let allocatable:=wrap (expected-wrappedSum wrap 0 (limitsOf limits infos))
        toSubsetReplicaMap (spreadRest wrap (allocatable.tdiv (leftSubsets limits infos))
          (infos.map (mark limits)).reverse (allocatable.tmod (leftSubsets limits infos))
          (leftSubsets limits infos)).reverse
      else toSubsetReplicaMap (infos.map (mark limits)) := by
  have hl : (infos.map (mark limits)).length -
      (0+infos.countP fun s => (limits.lookup s.subsetName).isSome) = leftSubsets limits infos := by
    have hcnt:=(marked_specified limits hf).2
    unfold leftSubsets
    rw [length_map]
    omega
  unfold normalAllocate
  simp only [applySpecified_eq]
  rw [hl]

theorem wrappedSum_id (values : List Int) : wrappedSum id 0 values=values.sum := by
  simp [wrappedSum,sum_eq_foldl]

/-- Without a bound on the numbers the specified subsets get their values and what is left is spread
over the others. -/
theorem normalAllocate_shares {expected : Int} (hf : ∀ s∈infos,s.specified=false)
    (hrest : leftSubsets limits infos≠0 → (limitsOf limits infos).sum≤expected) :
    ∃ average final,0≤average ∧ normalAllocate id infos expected limits=toSubsetReplicaMap final ∧
      Forall₂ (Share average) (infos.map (mark limits)) final ∧
      sumReplicas final =
        if leftSubsets limits infos=0 then (limitsOf limits infos).sum else expected := by
  obtain ⟨hsum,-⟩ := marked_specified limits hf
  rw [normalAllocate_eq id hf]
  by_cases hl : leftSubsets limits infos=0
  · obtain ⟨hsh,ha⟩ := share_self 0 hl
    refine ⟨0,infos.map (mark limits),le_refl 0,by simp [hl],hsh,?_⟩
    rw [if_pos hl,ha,hsum]
  · rw [if_pos hl,wrappedSum_id]
    simp only [id_eq,hl,if_false]
    generalize hr : expected-(limitsOf limits infos).sum=allocatable
    have hn : 0≤allocatable := by omega
    have hcnt : unspecified (infos.map (mark limits)).reverse=leftSubsets limits infos := by
      unfold leftSubsets unspecified
      rw [countP_reverse]
    have hspec : sumOfSpecified (infos.map (mark limits)).reverse = (limitsOf limits infos).sum := by
      rw [← hsum]
      unfold sumOfSpecified sumReplicas
      rw [filter_reverse,map_reverse,sum_reverse]
    rw [Int.tdiv_eq_ediv_of_nonneg hn,Int.tmod_eq_emod_of_nonneg hn]
    have hpos : (0 : Int)<leftSubsets limits infos := by omega
    have hrem:=Int.emod_nonneg allocatable (Int.ne_of_gt hpos)
    have hlt:=Int.emod_lt_of_pos allocatable hpos
    have hd:=Int.mul_ediv_add_emod allocatable (leftSubsets limits infos)
    obtain ⟨hsh,ht⟩ := spreadRest_shares (allocatable / leftSubsets limits infos)
      (infos.map (mark limits)).reverse _ hrem (by rw [hcnt]; omega)
    rw [hcnt] at hsh ht
    refine ⟨allocatable / leftSubsets limits infos,_,Int.ediv_nonneg hn (by omega),rfl,?_,?_⟩
    · rw [← List.forall₂_reverse_iff,reverse_reverse]
      exact hsh
    · unfold sumReplicas at ht ⊢
      rw [map_reverse,sum_reverse,ht,hspec]
      rw [Int.mul_comm] at hd
      omega

/- `wrap` keeps the non-negative numbers of 31 bits. -/
def Exact (wrap : Int → Int) : Prop := ∀ x,0≤x → x<2^31 → wrap x=x

theorem wrappedSum_eq (hwrap : Exact wrap) {values : List Int} (hvals : ∀ v∈values,0≤v)
    {sum : Int} (hsum : 0 ≤ sum) (hfits : sum+values.sum<2^31) : wrappedSum wrap sum values=sum+values.sum := by
  induction values generalizing sum with
  | nil => simp [wrappedSum]
  | cons v rest ih =>
    have hv:=hvals v mem_cons_self
    have hr : ∀ w∈rest,0≤w := fun w hw => hvals w (mem_cons_of_mem v hw)
    have htail:=sum_nonneg hr
    rw [sum_cons] at hfits ⊢
    have ht : wrap (sum+v)=sum+v := hwrap _ (by omega) (by omega)
    have hf : wrappedSum wrap sum (v::rest)=wrappedSum wrap (sum+v) rest := by
      unfold wrappedSum
      rw [foldl_cons,ht]
    rw [hf,ih hr (by omega) (by omega)]
    omega

theorem normalAllocate_congr (hw : Exact wrap) {expected : Int}
    (hf : ∀ s∈infos,s.specified=false) (hvals : ∀ v∈limitsOf limits infos,0≤v)
    (hrest : leftSubsets limits infos≠0 → (limitsOf limits infos).sum≤expected ∧ expected<2^31) :
    normalAllocate wrap infos expected limits=normalAllocate id infos expected limits := by
  rw [normalAllocate_eq wrap hf,normalAllocate_eq id hf]
  by_cases hl : leftSubsets limits infos=0
  · simp [hl]
  · have hsum:=sum_nonneg hvals
    have he : Exact id := fun _ _ _ => rfl
    have hfits : 0+(limitsOf limits infos).sum<2^31 := by omega
    rw [if_pos hl,if_pos hl,wrappedSum_eq hw hvals (le_refl 0) hfits, wrappedSum_eq he hvals (le_refl 0) hfits,
      hw (expected-(0+(limitsOf limits infos).sum)) (by omega) (by omega)]
    simp only [id_eq]
    generalize hr : expected-(0+(limitsOf limits infos).sum)=allocatable
    have hn : 0≤allocatable := by omega
    rw [Int.tdiv_eq_ediv_of_nonneg hn,Int.tmod_eq_emod_of_nonneg hn]
    have hpos : (1 : Int)≤leftSubsets limits infos := by omega
    have hrem:=Int.emod_nonneg allocatable (show (leftSubsets limits infos : Int)≠0 by omega)
    have hd:=Int.mul_ediv_add_emod allocatable (leftSubsets limits infos)
    have ha:=Int.ediv_nonneg hn (show (0 : Int)≤leftSubsets limits infos by omega)
    have hmul : allocatable / leftSubsets limits infos ≤
        leftSubsets limits infos*(allocatable / leftSubsets limits infos) :=
      le_mul_of_one_le_left ha hpos
    congr 2
    refine spreadRest_congr (hw _ ha (by omega)) _ _ ?_
    intro hm
    exact hw _ (by omega) (by omega)

end Kruise.UnitedDeployment
