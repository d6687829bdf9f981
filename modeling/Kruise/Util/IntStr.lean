import Mathlib.Algebra.Order.Ring.Int

/-!
# Int-or-percentage values

`intstr.IntOrString` with its two resolutions: that of apimachinery (`intstr.go:172-205`), which
treats every string as a percentage, and that of `pkg/util/tools.go:162-228`, which scales a
percentage that may have a fraction.
-/

namespace Kruise.Util.IntStr

/-- `intstr.IntOrString`: the type tag selects which of the two values counts. -/
inductive IntOrString
  | int (val : Int)
  | str (val : String)
  deriving DecidableEq,Repr

/- `strconv.ParseFloat` and the binary64 arithmetic behind a fractional
percentage stay abstract: `scale roundUp s total` is the integer that
`v * float64(total) / 100` is rounded to for the `v` parsed from `s`, and `none`
when `s` does not parse. -/
structure FloatOps where
  scale : Bool → String → Int → Option Int

def digitVal (c : Char) : Option Nat :=
  if c.isDigit then some (c.toNat - '0'.toNat) else none

def parseDigits : Nat → List Char → Option Nat
  | acc,[] => some acc
  | acc,c::cs => (digitVal c).bind fun d => parseDigits (10*acc+d) cs

/- An unsigned decimal literal has at least one digit. -/
def parseNat (cs : List Char) : Option Nat :=
  if cs.isEmpty then none else parseDigits 0 cs

/- An optional sign, then decimal digits. -/
def parseDecimal (s : String) : Option Int :=
  match s.toList with
  | '-'::cs => (parseNat cs).map fun n => -(n : Int)
  | '+'::cs => (parseNat cs).map fun n => (n : Int)
  | cs => (parseNat cs).map fun n => (n : Int)

/-- `strconv.Atoi` on 64-bit ints. -/
def atoi (s : String) : Option Int := (parseDecimal s).filter fun i => -(2^63) ≤ i ∧ i<2^63

/- Values that are out of range wrap around. -/
def int32 (x : Int) : Int := Int.bmod x (2^32)

def int64 (x : Int) : Int := Int.bmod x (2^64)

theorem parseDigits_eq (cs : List Char) (acc : Nat) (h : ∀ c∈cs,c.isDigit) :
    parseDigits acc cs=some (Nat.ofDigitChars 10 cs acc) := by
  induction cs generalizing acc with
  | nil => rfl
  | cons c cs ih =>
    have hc:=h c List.mem_cons_self
    unfold parseDigits digitVal
    rw [if_pos hc]
    exact ih _ (fun d hd => h d (List.mem_cons_of_mem c hd))

theorem isDigit_of_mem_repr {n : Nat} {c : Char} (h : c∈n.repr.toList) : c.isDigit := by
  rw [Nat.repr_eq_ofList_toDigits,String.toList_ofList] at h
  exact Nat.isDigit_of_mem_toDigits (by decide) (by decide) h

theorem parseNat_repr (n : Nat) : parseNat n.repr.toList=some n := by
  have hd : ∀ c∈n.repr.toList,c.isDigit := fun c => isDigit_of_mem_repr
  unfold parseNat
  rw [parseDigits_eq _ _ hd,Nat.repr_eq_ofList_toDigits,String.toList_ofList,
    Nat.ofDigitChars_ten_toDigits,if_neg (by simp)]

theorem atoi_toString {z : Int} (hl : -(2^63)≤z) (hh : z<2^63) : atoi (toString z)=some z := by
  have hr : (some z).filter (fun i => decide (-(2^63) ≤ i ∧ i<2^63))=some z := by
    rw [Option.filter_some,if_pos (decide_eq_true ⟨hl,hh⟩)]
  refine Eq.trans ?_ hr
  unfold atoi parseDecimal
  cases z with
  | ofNat m =>
    have hd : ∀ c∈m.repr.toList,c.isDigit := fun c => isDigit_of_mem_repr
    have hm:=parseNat_repr m
    have ht : (toString (Int.ofNat m)).toList=m.repr.toList := rfl
    rw [ht]
    generalize m.repr.toList=text at hd hm ⊢
    -- a digit is no sign, so the text is read as it is
    split
    · exact absurd (hd '-' List.mem_cons_self) (by decide)
    · exact absurd (hd '+' List.mem_cons_self) (by decide)
    · rw [hm]
      rfl
  | negSucc m =>
    have ht : (toString (Int.negSucc m)).toList = '-'::(m+1).repr.toList := by
      change ("-" ++ (m+1).repr).toList=_
      rw [String.toList_append]
      rfl
    have hm:=parseNat_repr (m+1)
    rw [ht]
    simp only [hm]
    rfl

theorem atoi_range {s : String} {z : Int} (h : atoi s=some z) : -(2^63)≤z ∧ z<2^63 := by
  have hf:=(Option.filter_eq_some_iff.mp h).2
  exact of_decide_eq_true hf

/-- `strconv.ParseInt` with base 10 and 32 bits. -/
def parseInt32 (s : String) : Except String Int :=
  match parseDecimal s with
  | none => .error ("strconv.ParseInt: parsing \"" ++ s ++ "\": invalid syntax")
  | some i =>
    if -(2^31) ≤ i ∧ i<2^31 then .ok i
    else .error ("strconv.ParseInt: parsing \"" ++ s ++ "\": value out of range")

/- `math.Ceil` or `math.Floor` of `value * total / 100`, exactly; `Binary64.percent_eq` says that
float64 computes this while the product is below `2^52`. -/
def percentOf (roundUp : Bool) (value total : Int) : Int :=
  if roundUp then -((-(value*total)) / 100) else value*total / 100

/-- `intstr.GetValueFromIntOrPercent`; `none` is the error. -/
def getValueFromIntOrPercent (v : IntOrString) (total : Int) (roundUp : Bool) : Option Int :=
  match v with
  | .int i => some i
  | .str s =>
    (atoi (String.ofList (s.toList.filter (· ≠ '%')))).map fun n => percentOf roundUp n total

/-- A value that is valid for 100 replicas is valid for any number of them. -/
theorem getValueFromIntOrPercent_nonneg {v : IntOrString} {k total : Int}
    (h : getValueFromIntOrPercent v 100 true=some k) (hk : 0≤k) (ht : 0≤total) :
    ∃ n,getValueFromIntOrPercent v total true=some n ∧ 0≤n := by
  cases v with
  | int i => exact ⟨k,h,hk⟩
  | str s =>
    obtain ⟨n,hn,hpercent⟩ := Option.map_eq_some_iff.mp h
    have hnonneg : 0≤n := by
      simp only [percentOf,if_true] at hpercent
      omega
    refine ⟨percentOf true n total,?_,?_⟩
    · simp only [getValueFromIntOrPercent,hn,Option.map_some]
    · have hprod : 0≤n*total := Int.mul_nonneg hnonneg ht
      simp only [percentOf,if_true]
      omega

/- Callers that drop the error read the zero value. -/
def valueOrZero (v : IntOrString) (total : Int) (roundUp : Bool) : Int :=
  (getValueFromIntOrPercent v total roundUp).getD 0

/- `s` without its last character if that is the percent sign. -/
def trimPercent (s : String) : Option String :=
  match s.toList.reverse with
  | '%'::rest => some (String.ofList rest.reverse)
  | _ => none

/-- `intstr.GetScaledValueFromIntOrPercent` (`intstr.go:150-166`): a string has to be a
percentage. -/
def getScaledIntOrPercent (v : IntOrString) (total : Int) (roundUp : Bool) : Option Int :=
  match v with
  | .int i => some i
  | .str s => ((trimPercent s).bind atoi).map fun n => percentOf roundUp n total

/-- `util.GetScaledValueFromIntOrPercent` (`tools.go:200-228`). -/
def getScaledValueFromIntOrPercent (ops : FloatOps) (v : IntOrString) (total : Int)
    (roundUp : Bool) : Option Int :=
  match v with
  | .int i => some i
  | .str s => (trimPercent s).bind fun v => ops.scale roundUp v total

/-- `util.CalculatePartitionReplicas` (`tools.go:162-185`) for a partition that is set. -/
def calculatePartitionReplicas (ops : FloatOps) (partition : IntOrString) (replicas : Int) : Option Int :=
  (getScaledValueFromIntOrPercent ops partition replicas true).map fun pValue =>
    -- a percentage below 100% leaves at least one pod to update
    let belowAll : Bool := match partition with
      | .int _ => false
      | .str s => s ≠ "100%"
    let pValue:=if replicas > 1 ∧ pValue=replicas ∧ belowAll then replicas-1 else pValue
    max (min pValue replicas) 0

def intAbs (i : Int) : Int := (i.natAbs : Int)

def isIntPlusAndMinus (i j : Int) : Bool :=
  (i<0 ∧ j > 0) ∨ (i > 0 ∧ j<0)

theorem isIntPlusAndMinus_iff (i j : Int) : isIntPlusAndMinus i j ↔ (i<0 ∧ 0<j) ∨ (0 < i ∧ j<0) := by
  simp [isIntPlusAndMinus]

theorem calculatePartitionReplicas_bounds (ops : FloatOps) (partition : IntOrString)
    (replicas p : Int) (hr : 0≤replicas) (h : calculatePartitionReplicas ops partition replicas=some p) :
    0≤p ∧ p≤replicas := by
  obtain ⟨v,_,hv⟩ := Option.map_eq_some_iff.mp h
  dsimp only at hv
  omega

end Kruise.Util.IntStr
