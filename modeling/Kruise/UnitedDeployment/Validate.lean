import Kruise.Util.IntStr

/-!
# Validation of UnitedDeployments

How a subset's value is parsed (`uniteddeployment_controller_utils.go` 36-68), and what the
validating webhook asks (`uniteddeployment_validation.go` 42-209). What the core validation checks
is left out; it rejects more.
-/

namespace Kruise.UnitedDeployment

open Util.IntStr List Option

structure Subset where
  name : String
  replicas : Option IntOrString
  minReplicas : Option IntOrString
  maxReplicas : Option IntOrString
  deriving DecidableEq,Repr

/- `spec.replicas` is an `int32`. -/
structure Spec where
  replicas : Option Int
  subsets : List Subset
  partitions : List String
  fits : ∀ r∈replicas,-(2^31)≤r ∧ r<2^31

theorem fits_some {replicas : Int} (h : -(2^31)≤replicas ∧ replicas<2^31) :
    ∀ r∈some replicas,-(2^31)≤r ∧ r<2^31 := by
  intro r hr
  rw [← some.inj hr]
  exact h

/-- `ParseSubsetReplicas`. The product is below `2^38`, where the float64 computation is exact. -/
def parseSubsetReplicas (udReplicas : Int) : IntOrString → Except String Int
  | .int val =>
    if val<0 then
      .error ("subset replicas (" ++ toString val ++ ") should not be less than 0")
    else .ok val
  | .str strVal =>
    if udReplicas<0 then
      .error ("subsetReplicas (" ++ strVal ++
        ") should not be string when unitedDeployment replicas is empty")
    else match trimPercent strVal with
      | none => .error ("subset replicas (" ++ strVal ++
          ") only support integer value or percentage value with a suffix '%'")
      | some intPart => match parseInt32 intPart with
        | .error err => .error ("subset replicas (" ++ strVal ++
            ") should be correct percentage integer: " ++ err)
        | .ok percent =>
          if percent > 100 ∨ percent<0 then
            .error ("subset replicas (" ++ strVal ++ ") should be in range [0, 100]")
          else .ok ((udReplicas*percent+50) / 100)

theorem parseSubsetReplicas_cases {udReplicas v : Int} {value : IntOrString}
    (h : parseSubsetReplicas udReplicas value=.ok v) :
    (value=.int v ∧ 0≤v) ∨ ∃ strVal percent,value=.str strVal ∧ 0≤udReplicas ∧ 0≤percent ∧ percent≤100 ∧
      v=(udReplicas*percent+50) / 100 := by
  unfold parseSubsetReplicas at h
  cases value with
  | int val =>
    simp only at h
    split_ifs at h with hn
    cases h
    exact .inl ⟨rfl,by omega⟩
  | str strVal =>
    simp only at h
    split_ifs at h with hud
    split at h
    · cases h
    · split at h
      · cases h
      · rename_i percent _
        split_ifs at h with hr
        cases h
        exact .inr ⟨strVal,percent,rfl,by omega,by omega,by omega,rfl⟩

theorem parseSubsetReplicas_nonneg {udReplicas v : Int} {value : IntOrString}
    (h : parseSubsetReplicas udReplicas value=.ok v) : 0≤v := by
  obtain ⟨-,hv⟩ | ⟨_,percent,-,hud,hl,-,rfl⟩ := parseSubsetReplicas_cases h
  · exact hv
  · have hprod:=Int.mul_nonneg hud hl
    omega

/- The value that an error carries along. -/
inductive BadValue
  | missing
  | text (value : String)
  | number (value : Int)
  | intOrString (value : Option IntOrString)
  | subsets (value : List Subset)
  deriving DecidableEq,Repr

structure FieldError where
  path : String
  value : BadValue
  detail : String
  deriving DecidableEq,Repr

structure Totals where
  sumReplicas : Int
  sumMinReplicas : Int
  sumMaxReplicas : Int
  countReplicas : Nat
  countMaxReplicas : Nat
  hasReplicasSettings : Bool
  hasCapacitySettings : Bool
  errList : List FieldError
  deriving DecidableEq,Repr

def Totals.zero : Totals := ⟨0,0,0,0,0,false,false,[]⟩

variable (expected : Int)

/- A missing value is the default; one that does not parse is reported and counts as 0. -/
def parsedOr (default : Int) : Option IntOrString → Int × Option String
  | none => (default,none)
  | some value => match parseSubsetReplicas expected value with
    | .ok v => (v,none)
    | .error err => (0,some err)

def subsetsPath : String := "spec.topology.subsets"

def subsetPath (i : Nat) (child : String) : String :=
  subsetsPath ++ "[" ++ toString i ++ "]." ++ child

/- The errors of the two bounds both name the path of `minReplicas` and the value of
`maxReplicas`. -/
def subsetErrors (i : Nat) (subset : Subset) : List FieldError :=
  let replicas:=parsedOr expected 0 subset.replicas
  let minReplicas:=parsedOr expected 0 subset.minReplicas
  let maxReplicas:=parsedOr expected 1000000 subset.maxReplicas
  (replicas.2.map fun err =>
    FieldError.mk (subsetPath i "replicas") (.intOrString subset.replicas) err).toList ++
  (minReplicas.2.map fun err =>
    FieldError.mk (subsetPath i "minReplicas") (.intOrString subset.maxReplicas) err).toList ++
  (maxReplicas.2.map fun err =>
    FieldError.mk (subsetPath i "minReplicas") (.intOrString subset.maxReplicas) err).toList ++
  if minReplicas.1 > maxReplicas.1 then
    [⟨subsetPath i "minReplicas",.intOrString subset.maxReplicas, "subset[" ++ toString i ++
      "].minReplicas must be more than or equal to maxReplicas"⟩]
  else []

def Totals.turn (t : Totals) (i : Nat) (subset : Subset) : Totals :=
  { sumReplicas := t.sumReplicas+(parsedOr expected 0 subset.replicas).1
    sumMinReplicas := t.sumMinReplicas+(parsedOr expected 0 subset.minReplicas).1
    sumMaxReplicas := t.sumMaxReplicas+(parsedOr expected 1000000 subset.maxReplicas).1
    countReplicas := t.countReplicas+if subset.replicas.isSome then 1 else 0
    countMaxReplicas := t.countMaxReplicas+if subset.maxReplicas.isSome then 1 else 0
    hasReplicasSettings := t.hasReplicasSettings||subset.replicas.isSome
    hasCapacitySettings :=
      t.hasCapacitySettings||subset.minReplicas.isSome||subset.maxReplicas.isSome
    errList := t.errList++subsetErrors expected i subset}

def Totals.loop (expected : Int) : Nat → List Subset → Totals → Totals
  | _,[],t => t
  | i,subset::rest,t => Totals.loop expected (i+1) rest (t.turn expected i subset)

/- `%d` prints the address of the pointer to the expected replicas. -/
def validateSubsetReplicas (address : String) (expectedReplicas : Option Int)
    (subsets : List Subset) : List FieldError :=
  let expected:=expectedReplicas.getD (-1)
  let t:=Totals.loop expected 0 subsets .zero
  if t.hasReplicasSettings&&t.hasCapacitySettings then
    t.errList++[⟨subsetsPath,.subsets subsets,
      "subset.Replicas and subset.MinReplicas/subset.MaxReplicas are mutually exclusive in a " ++
      "UnitedDeployment"⟩]
  else if t.hasCapacitySettings then
    t.errList ++
    (if expected = -1 then
      [⟨subsetsPath,.number expected,
        "spec.replicas must be not empty if you set subset.minReplicas/maxReplicas"⟩] else []) ++
    (if t.countMaxReplicas ≥ subsets.length then
      [⟨subsetsPath,.number t.countMaxReplicas,
        "at least one subset.maxReplicas must be empty"⟩] else []) ++
    if t.sumMinReplicas > t.sumMaxReplicas then
      [⟨subsetsPath,.number t.sumMinReplicas,
        "sum of indicated subset.minReplicas should not be greater than sum of indicated " ++
        "subset.maxReplicas"⟩] else []
  else if expected ≠ -1 then
    t.errList ++
    (if t.sumReplicas > expected then
      [⟨subsetsPath,.number t.sumReplicas, "sum of indicated subset replicas " ++
        toString t.sumReplicas ++ " should not be greater than UnitedDeployment replicas " ++
        address⟩] else []) ++
    if t.countReplicas > 0 ∧ t.countReplicas=subsets.length ∧ t.sumReplicas≠expected then
      [⟨subsetsPath,.number t.sumReplicas,
        "if replicas of all subsets are provided, the sum of indicated subset replicas " ++
        toString t.sumReplicas ++
        " should equal UnitedDeployment replicas " ++ address⟩] else []
  else if t.countReplicas≠subsets.length then
    t.errList++[⟨subsetsPath,.number t.sumReplicas,
      "if UnitedDeployment replicas is not provided, replicas of all subsets should be provided"⟩]
  else t.errList

def nameErrors : Nat → List Subset → List String → List FieldError
  | _,[],_ => []
  | i,subset::rest,subSetNames =>
    (if subset.name = "" then [⟨subsetPath i "name",.missing, ""⟩] else []) ++ (if subset.name∈subSetNames then
      [⟨subsetPath i "name",.text subset.name, "duplicated subset name " ++ subset.name⟩]
      else []) ++
    nameErrors (i+1) rest (subset.name::subSetNames)

def partitionErrors (spec : Spec) : List FieldError :=
  (spec.partitions.filter fun p => p∉spec.subsets.map Subset.name).map fun p =>
    ⟨"spec.updateStrategy.partitions",.text p, "subset " ++ p ++ " does not exist"⟩

def validateUnitedDeploymentSpec (address : String) (spec : Spec) : List FieldError :=
  (match spec.replicas with
    | none => []
    | some r => if r<0 then
        [⟨"spec.replicas",.number r, "must be greater than or equal to 0"⟩] else []) ++
  validateSubsetReplicas address spec.replicas spec.subsets ++
  nameErrors 0 spec.subsets [] ++
  partitionErrors spec

theorem nodup_of_nameErrors {i : Nat} {subsets : List Subset} {seen : List String}
    (h : nameErrors i subsets seen=[]) : (subsets.map Subset.name).Nodup ∧ ∀ s∈subsets,s.name∉seen := by
  induction subsets generalizing i seen with
  | nil => exact ⟨nodup_nil,by simp⟩
  | cons s rest ih =>
    obtain ⟨hh,hr⟩ := append_eq_nil_iff.mp h
    obtain ⟨-,hd⟩ := append_eq_nil_iff.mp hh
    obtain ⟨hnd,hf⟩ := ih hr
    have hs : s.name∉seen := by
      intro hm
      rw [if_pos hm] at hd
      cases hd
    refine ⟨?_,?_⟩
    · rw [map_cons,nodup_cons]
      refine ⟨?_,hnd⟩
      intro hm
      obtain ⟨t,ht,hn⟩ := mem_map.mp hm
      exact hf t ht (hn ▸ mem_cons_self)
    · intro t ht
      rcases mem_cons.mp ht with rfl | ht
      · exact hs
      · exact fun hm => hf t ht (mem_cons_of_mem _ hm)

def specifiedReplicas (subset : Subset) : Option Int :=
  subset.replicas.bind fun value => (parseSubsetReplicas expected value).toOption

def sumSpecified (subsets : List Subset) : Int :=
  (subsets.map fun s => (specifiedReplicas expected s).getD 0).sum

theorem specifiedReplicas_nonneg {expected v : Int} {subset : Subset}
    (h : specifiedReplicas expected subset=some v) : 0≤v := by
  obtain ⟨value,-,hval⟩ := bind_eq_some_iff.mp h
  cases hpar : parseSubsetReplicas expected value with
  | error err => simp [hpar,Except.toOption] at hval
  | ok w =>
    have hw : w=v := by simpa [hpar,Except.toOption] using hval
    exact hw ▸ parseSubsetReplicas_nonneg hpar

def usesBounds (subset : Subset) : Bool := subset.minReplicas.isSome||subset.maxReplicas.isSome

structure Totals.Tally (expected : Int) (subsets : List Subset) (t t' : Totals) : Prop where
  sum : t'.sumReplicas=t.sumReplicas+sumSpecified expected subsets
  count : t'.countReplicas =
    t.countReplicas+subsets.countP fun s => s.replicas.isSome
  capacity : t'.hasCapacitySettings=(t.hasCapacitySettings||subsets.any usesBounds)
  errors : t'.errList=[] → t.errList=[] ∧ ∀ s∈subsets,∃ i,subsetErrors expected i s=[]

theorem parsedOr_fst (subset : Subset) :
    (parsedOr expected 0 subset.replicas).1=(specifiedReplicas expected subset).getD 0 := by
  unfold specifiedReplicas parsedOr
  cases subset.replicas with
  | none => rfl
  | some value =>
    simp only [bind_some]
    cases parseSubsetReplicas expected value <;> rfl

theorem parsed_of_subsetErrors {expected : Int} {i : Nat} {subset : Subset} {value : IntOrString}
    (h : subsetErrors expected i subset=[]) (hval : subset.replicas=some value) :
    ∃ v,parseSubsetReplicas expected value=.ok v := by
  unfold subsetErrors at h
  simp only [append_eq_nil_iff,hval,parsedOr] at h
  cases hpar : parseSubsetReplicas expected value with
  | ok v => exact ⟨v,rfl⟩
  | error err => simp [hpar] at h

theorem Totals.loop_tally (i : Nat) (subsets : List Subset) (t : Totals) :
    t.Tally expected subsets (Totals.loop expected i subsets t) := by
  induction subsets generalizing i t with
  | nil =>
    exact ⟨by simp [Totals.loop,sumSpecified],by simp [Totals.loop],by simp [Totals.loop],fun h => ⟨h,by simp⟩⟩
  | cons s rest ih =>
    have ht:=ih (i+1) (t.turn expected i s)
    unfold Totals.loop
    constructor
    · rw [ht.sum]
      simp only [Totals.turn,sumSpecified,map_cons,sum_cons,parsedOr_fst]
      omega
    · rw [ht.count,countP_cons]
      simp only [Totals.turn]
      omega
    · rw [ht.capacity,any_cons]
      simp only [Totals.turn,usesBounds,Bool.or_assoc]
    · intro hn
      obtain ⟨hturn,hr⟩ := ht.errors hn
      obtain ⟨ho,hnew⟩ := append_eq_nil_iff.mp hturn
      exact ⟨ho,forall_mem_cons.mpr ⟨⟨i,hnew⟩,hr⟩⟩

/- An accepted spec without bounds, as far as the allocation depends on it. -/
structure Accepted (spec : Spec) : Prop where
  nodup : (spec.subsets.map Subset.name).Nodup
  parsed : ∀ s∈spec.subsets,∀ value,s.replicas=some value →
    ∃ v,parseSubsetReplicas (spec.replicas.getD (-1)) value=.ok v
  nonneg : ∀ r,spec.replicas=some r → 0≤r
  fits : ∀ r,spec.replicas=some r → sumSpecified r spec.subsets≤r
  exact_of_all : ∀ r,spec.replicas=some r → spec.subsets≠[] →
    (∀ s∈spec.subsets,s.replicas.isSome) → sumSpecified r spec.subsets=r
  all_of_none : spec.replicas=none → ∀ s∈spec.subsets,s.replicas.isSome

theorem parts_of_validate {address : String} {spec : Spec} (h : validateUnitedDeploymentSpec address spec=[]) :
    (∀ r,spec.replicas=some r → 0≤r) ∧ validateSubsetReplicas address spec.replicas spec.subsets=[] ∧
      (spec.subsets.map Subset.name).Nodup := by
  obtain ⟨hh,-⟩ := append_eq_nil_iff.mp h
  obtain ⟨hh,hn⟩ := append_eq_nil_iff.mp hh
  obtain ⟨hreplicas,hsubs⟩ := append_eq_nil_iff.mp hh
  refine ⟨?_,hsubs,(nodup_of_nameErrors hn).1⟩
  intro r hr
  rw [hr] at hreplicas
  by_contra hneg
  simp only at hreplicas
  rw [if_pos (by omega)] at hreplicas
  cases hreplicas

theorem accepted_of_validate {address : String} {spec : Spec}
    (hpl : ∀ s∈spec.subsets,s.minReplicas=none ∧ s.maxReplicas=none)
    (h : validateUnitedDeploymentSpec address spec=[]) : Accepted spec := by
  obtain ⟨hnonneg,hsubs,hnd⟩ := parts_of_validate h
  have tally:=Totals.loop_tally (spec.replicas.getD (-1)) 0 spec.subsets .zero
  have hcap:=tally.capacity
  have hsum:=tally.sum
  have hcnt:=tally.count
  have he:=tally.errors
  simp only [validateSubsetReplicas] at hsubs
  generalize Totals.loop (spec.replicas.getD (-1)) 0 spec.subsets .zero=t at *
  have hparsed : t.errList=[] → ∀ s∈spec.subsets,∀ value,s.replicas=some value →
      ∃ v,parseSubsetReplicas (spec.replicas.getD (-1)) value=.ok v := by
    intro hnil s hs value hval
    obtain ⟨i,hi⟩ := (he hnil).2 s hs
    exact parsed_of_subsetErrors hi hval
  have hn : t.hasCapacitySettings=false := by
    rw [hcap,Totals.zero,Bool.false_or,List.any_eq_false]
    intro s hs
    simp [usesBounds,hpl s hs]
  simp only [Totals.zero,Int.zero_add,Nat.zero_add] at hsum hcnt
  simp only [hn,Bool.and_false,Bool.false_eq_true,if_false] at hsubs
  have ha : t.countReplicas=spec.subsets.length ↔ ∀ s∈spec.subsets,s.replicas.isSome := by
    rw [hcnt,countP_eq_length]
  cases hr : spec.replicas with
  | none =>
    simp only [hr,getD_none,ne_eq,not_true_eq_false,if_false] at hsubs
    by_cases hcnts : t.countReplicas=spec.subsets.length
    · rw [if_neg (not_not.mpr hcnts)] at hsubs
      exact ⟨hnd,hparsed hsubs,by simp [hr],by simp [hr],by simp [hr],fun _ => ha.mp hcnts⟩
    · rw [if_pos hcnts] at hsubs
      simp at hsubs
  | some r =>
    have hrnonneg:=hnonneg r hr
    simp only [hr,getD_some] at hsubs hsum
    rw [if_pos (by omega)] at hsubs
    obtain ⟨hf,hsnd⟩ := append_eq_nil_iff.mp hsubs
    obtain ⟨hnil,hbd⟩ := append_eq_nil_iff.mp hf
    refine ⟨hnd,hparsed hnil,by simp [hr,hrnonneg],?_,?_,by simp [hr]⟩
    · intro r' hr'
      obtain rfl : r=r' := some.inj (hr.symm.trans hr')
      by_contra ho
      rw [if_pos (by omega)] at hbd
      cases hbd
    · intro r' hr' hne hspec
      obtain rfl : r=r' := some.inj (hr.symm.trans hr')
      by_contra hd
      have hl : 0<spec.subsets.length := length_pos_iff.mpr hne
      have hcnts:=ha.mpr hspec
      rw [if_pos ⟨by omega,hcnts,by omega⟩] at hsnd
      cases hsnd

end Kruise.UnitedDeployment
