import Mathlib.Data.Int.Log
import Mathlib.Data.Rat.Floor
import Mathlib.Tactic.LinearCombination
import Mathlib.Tactic.Positivity

/-!
# Binary floating point

Rounding a positive rational to significant bits, to nearest and ties to even, without a bound on
the exponent. The quotient of two integers that leave one bit to spare rounds to the same integer
as the exact one.
-/

namespace Kruise.Lib.Floating

def nearestEven (x : ℚ) : ℤ :=
  if Int.fract x<1 / 2 ∨ (Int.fract x=1 / 2 ∧ ⌊x⌋ % 2=0) then ⌊x⌋ else ⌊x⌋ + 1

variable {k : ℕ} {x : ℚ} {n : ℤ}

theorem le_nearestEven (h : (n : ℚ)≤x) : n≤nearestEven x := by
  have hf : n ≤ ⌊x⌋ := Int.le_floor.mpr h
  unfold nearestEven
  split_ifs <;> omega

theorem nearestEven_lt (h : x<n-1 / 2) : nearestEven x<n := by
  have hle : (⌊x⌋ : ℚ)≤x := Int.floor_le x
  have hf : ⌊x⌋ < n := by
    rw [← Int.cast_lt (R := ℚ)]
    linarith
  unfold nearestEven
  split_ifs with hd
  · exact hf
  · rw [not_or] at hd
    have hsum : (⌊x⌋ : ℚ)+Int.fract x=x := Int.floor_add_fract x
    rw [← Int.cast_lt (R := ℚ),Int.cast_add,Int.cast_one]
    linarith

theorem nearestEven_le (h : x≤n) : nearestEven x≤n := by
  have hlt : nearestEven x<n+1 := by
    apply nearestEven_lt
    rw [Int.cast_add,Int.cast_one]
    linarith
  omega

theorem nearestEven_mono {y : ℚ} (h : x≤y) : nearestEven x≤nearestEven y := by
  unfold nearestEven
  have hfloor : ⌊x⌋ ≤ ⌊y⌋ := Int.floor_le_floor h
  split_ifs with hx hy hy
  · exact hfloor
  · omega
  · rcases hfloor.lt_or_eq with hlt | heq
    · omega
    -- in one unit interval the fractions are in the order of the numbers
    · exfalso
      have hf : Int.fract x≤Int.fract y := by
        unfold Int.fract
        rw [heq]
        linarith
      apply hx
      rcases hy with hy | ⟨hy,he⟩
      · exact .inl (lt_of_le_of_lt hf hy)
      · rw [hy] at hf
        rcases hf.lt_or_eq with hlt | hh
        · exact .inl hlt
        · exact .inr ⟨hh,by rw [heq]; exact he⟩
  · omega

/- The distance of two neighbours with `k + 1` significant bits around `x`. -/
def ulp (k : ℕ) (x : ℚ) : ℚ := 2^(Int.log 2 x-k)

def roundTo (k : ℕ) (x : ℚ) : ℚ := nearestEven (x / ulp k x)*ulp k x

theorem ulp_pos (k : ℕ) (x : ℚ) : 0<ulp k x := zpow_pos (by norm_num) _

theorem two_zpow_eq_mul_ulp (k n : ℕ) (x : ℚ) : (2 : ℚ)^(Int.log 2 x-k+n)=((2^n : ℤ) : ℚ)*ulp k x := by
  unfold ulp
  rw [zpow_add₀ (by norm_num),zpow_natCast]
  push_cast
  ring

theorem le_roundTo (h : n*ulp k x≤x) : n*ulp k x≤roundTo k x := by
  have hpos:=ulp_pos k x
  have hle : n≤nearestEven (x / ulp k x) := le_nearestEven ((le_div_iff₀ hpos).mpr h)
  exact mul_le_mul_of_nonneg_right (Int.cast_le.mpr hle) hpos.le

theorem roundTo_le (h : x≤n*ulp k x) : roundTo k x≤n*ulp k x := by
  have hpos:=ulp_pos k x
  have hle : nearestEven (x / ulp k x)≤n := nearestEven_le ((div_le_iff₀ hpos).mpr h)
  exact mul_le_mul_of_nonneg_right (Int.cast_le.mpr hle) hpos.le

theorem roundTo_lt (h : x<(n-1 / 2)*ulp k x) : roundTo k x<n*ulp k x := by
  have hpos:=ulp_pos k x
  have hlt : nearestEven (x / ulp k x)<n := nearestEven_lt ((div_lt_iff₀ hpos).mpr h)
  exact mul_lt_mul_of_pos_right (Int.cast_lt.mpr hlt) hpos

theorem roundTo_of_multiple (h : x=n*ulp k x) : roundTo k x=x := by
  have hle : roundTo k x≤n*ulp k x := roundTo_le h.le
  have hge : n*ulp k x≤roundTo k x := le_roundTo h.ge
  exact (le_antisymm hle hge).trans h.symm

theorem zpow_le_roundTo (k : ℕ) (hx : 0<x) : 2^Int.log 2 x≤roundTo k x := by
  have heq:=two_zpow_eq_mul_ulp k k x
  rw [sub_add_cancel] at heq
  rw [heq]
  apply le_roundTo
  rw [← heq]
  exact Int.zpow_log_le_self (by norm_num) hx

theorem roundTo_le_zpow (k : ℕ) (x : ℚ) : roundTo k x≤2^(Int.log 2 x+1) := by
  have heq:=two_zpow_eq_mul_ulp k (k+1) x
  rw [Nat.cast_add,Nat.cast_one,← add_assoc,sub_add_cancel] at heq
  rw [heq]
  apply roundTo_le
  rw [← heq]
  exact (Int.lt_zpow_succ_log_self (by norm_num) x).le

theorem roundTo_pos (k : ℕ) (hx : 0<x) : 0<roundTo k x :=
  lt_of_lt_of_le (zpow_pos (by norm_num) _) (zpow_le_roundTo k hx)

theorem roundTo_mono (k : ℕ) {y : ℚ} (hx : 0<x) (hxy : x≤y) : roundTo k x≤roundTo k y := by
  have hy : 0<y := hx.trans_le hxy
  rcases (Int.log_mono_right (b := 2) hx hxy).lt_or_eq with hlt | heq
  · calc roundTo k x≤2^(Int.log 2 x+1) := roundTo_le_zpow k x
      _≤2^Int.log 2 y := zpow_le_zpow_right₀ (by norm_num) (by omega)
      _≤roundTo k y := zpow_le_roundTo k hy
  · have hu : ulp k x=ulp k y := by
      unfold ulp
      rw [heq]
    have hpos:=ulp_pos k y
    unfold roundTo
    rw [hu]
    refine mul_le_mul_of_nonneg_right (Int.cast_le.mpr (nearestEven_mono ?_)) hpos.le
    exact div_le_div_of_nonneg_right hxy hpos.le

theorem one_le_roundTo (k : ℕ) (hx : 1≤x) : 1≤roundTo k x := by
  have hl : 0≤Int.log 2 x := by
    have hm:=Int.log_mono_right (b := 2) (by norm_num : (0 : ℚ)<1) hx
    rwa [Int.log_one_right] at hm
  exact (one_le_zpow₀ (by norm_num) hl).trans (zpow_le_roundTo k (by linarith))

theorem roundTo_natCast {n : ℕ} (h : n<2^(k+1)) : roundTo k n=n := by
  rcases Nat.eq_zero_or_pos n with rfl | hpos
  · apply roundTo_of_multiple (n := 0)
    simp
  · have hl : Int.log 2 (n : ℚ)<k+1 := by
      apply (Int.lt_zpow_iff_log_lt (by norm_num) (by exact_mod_cast hpos)).mp
      exact_mod_cast h
    obtain ⟨d,hd⟩ : ∃ d : ℕ,Int.log 2 (n : ℚ)-k+d=0 :=
      ⟨(k-Int.log 2 (n : ℚ)).toNat,by omega⟩
    have ho:=two_zpow_eq_mul_ulp k d n
    rw [hd,zpow_zero] at ho
    apply roundTo_of_multiple (n := n*2^d)
    rw [Int.cast_mul,Int.cast_natCast,mul_assoc,← ho,mul_one]

def quotient (k a b : ℕ) : ℚ := roundTo k (roundTo k a / roundTo k b)

/- `math.Round` of a number that is not negative. -/
def roundHalfUp (x : ℚ) : ℤ := ⌊x+1 / 2⌋

variable {a b : ℕ}

theorem one_le_quotient (k : ℕ) (hb : 0<b) (hab : b≤a) : 1≤quotient k a b := by
  have hb' : (0 : ℚ)<b := by exact_mod_cast hb
  apply one_le_roundTo
  rw [le_div_iff₀ (roundTo_pos k hb'),one_mul]
  exact roundTo_mono k hb' (by exact_mod_cast hab)

theorem roundHalfUp_pos (hx : 1≤x) : 0<roundHalfUp x := by
  have hle : (1 : ℤ) ≤ ⌊x+1 / 2⌋ := by
    rw [Int.le_floor,Int.cast_one]
    linarith
  unfold roundHalfUp
  omega

theorem quotient_eq_roundTo (ha : a<2^k) (hb : b<2^k) : quotient k a b=roundTo k (a / b) := by
  have hpow : 2^k≤2^(k+1) := Nat.pow_le_pow_right (by norm_num) (Nat.le_succ k)
  rw [quotient,roundTo_natCast (ha.trans_le hpow),roundTo_natCast (hb.trans_le hpow)]

theorem zpow_log_mul_lt (hb : 0<b) (hab : b≤a) (ha : a<2^k) : (2 : ℚ)^Int.log 2 ((a : ℚ) / b)*b<2^k := by
  have hb' : (0 : ℚ)<b := by exact_mod_cast hb
  have hx : (0 : ℚ)<a / b := div_pos (by exact_mod_cast hb.trans_le hab) hb'
  have hpow : (2 : ℚ)^Int.log 2 ((a : ℚ) / b)≤a / b := Int.zpow_log_le_self (by norm_num) hx
  rw [le_div_iff₀ hb'] at hpow
  refine hpow.trans_lt ?_
  exact_mod_cast ha

theorem log_lt (hb : 0<b) (hab : b≤a) (ha : a<2^k) : Int.log 2 ((a : ℚ) / b)<k := by
  have ho : (1 : ℚ)≤b := by exact_mod_cast hb
  have hbelow:=zpow_log_mul_lt hb hab ha
  have hle : (2 : ℚ)^Int.log 2 ((a : ℚ) / b)<2^(k : ℤ) := by
    refine lt_of_le_of_lt ?_ hbelow
    exact le_mul_of_one_le_right (zpow_pos (by norm_num) _).le ho
  exact (zpow_lt_zpow_iff_right₀ (by norm_num)).mp hle

theorem ulp_mul_lt (hb : 0<b) (hab : b≤a) (ha : a<2^k) : ulp k ((a : ℚ) / b)*b<1 := by
  unfold ulp
  rw [zpow_sub₀ (by norm_num),zpow_natCast,div_mul_eq_mul_div,div_lt_one (by positivity)]
  exact zpow_log_mul_lt hb hab ha

/- The halves around the exact quotient are representable, and the quotient is further from the
upper one than half the distance of two neighbours. -/
theorem roundHalfUp_quotient (hb : 0<b) (hab : b≤a) (ha : a<2^k) :
    roundHalfUp (quotient k a b)=((2*a+b) / (2*b) : ℕ) := by
  rw [quotient_eq_roundTo ha (hab.trans_lt ha)]
  have hb' : (0 : ℚ)<b := by exact_mod_cast hb
  have hlt:=log_lt hb hab ha
  obtain ⟨d,hd⟩ : ∃ d : ℕ,Int.log 2 ((a : ℚ) / b)-k+(d+1)=0 :=
    ⟨(k-1-Int.log 2 ((a : ℚ) / b)).toNat,by omega⟩
  have ho:=two_zpow_eq_mul_ulp k (d+1) ((a : ℚ) / b)
  rw [Nat.cast_add,Nat.cast_one,hd,zpow_zero,pow_succ] at ho
  have hu:=ulp_mul_lt hb hab ha
  generalize hq : (2*a+b) / (2*b)=q
  have hlow : 2*b*q≤2*a+b := by
    rw [← hq]
    exact Nat.mul_div_le _ _
  have hhigh : 2*a+b+1≤2*b*(q+1) := by
    rw [← hq]
    exact Nat.lt_mul_div_succ _ (by omega)
  have hlow' : 2*(b : ℚ)*q≤2*a+b := by exact_mod_cast hlow
  have hhigh' : 2*(a : ℚ)+b+1≤2*b*(q+1) := by exact_mod_cast hhigh
  have hh : ∀ n : ℤ,((n*2^d : ℤ) : ℚ)*ulp k ((a : ℚ) / b)=n / 2 := by
    intro n
    push_cast at ho ⊢
    linear_combination (-(n : ℚ) / 2)*ho
  have hge : ((2*q-1 : ℤ) : ℚ) / 2≤roundTo k (a / b) := by
    rw [← hh]
    apply le_roundTo
    rw [hh,le_div_iff₀ hb']
    push_cast
    linarith
  have hl : roundTo k (a / b)<((2*q+1 : ℤ) : ℚ) / 2 := by
    rw [← hh]
    apply roundTo_lt
    rw [sub_mul,hh,div_lt_iff₀ hb']
    push_cast
    linarith
  push_cast at hge hl
  rw [roundHalfUp,Int.floor_eq_iff]
  push_cast
  exact ⟨by linarith,by linarith⟩

end Kruise.Lib.Floating
