import Kruise.Util.IntStr
import Mathlib.Data.Rat.Floor
import Mathlib.Tactic.Linarith

/-!
# Percentages in binary64

`value * total / 100` as apimachinery computes it (`intstr.go:158-163, 179-184`): in binary64, with
a rounding after every operation. While the product is below `2^52` the rounding of the quotient
does not reach an integer, and the result is the exact one.
-/

namespace Kruise.Util.IntStr

/-- Rounding to binary64: integers up to `2^53` are kept, and the relative error is at most half a
unit in the last place. -/
structure Binary64 where
  round : ℚ → ℚ
  round_int : ∀ n : Int,|n|≤2^53 → round n=n
  error : ∀ x : ℚ,1/100≤|x| → |x|≤2^53 → |round x-x|≤|x|/2^53

variable (f : Binary64) (value total : Int)

def Binary64.percent (roundUp : Bool) : Int :=
  let scaled:=f.round (f.round (f.round value*f.round total)/100)
  if roundUp then ⌈scaled⌉ else ⌊scaled⌋

variable {value total}

theorem Binary64.error_quotient {p : Int} (hp : |p| < 2^52) (h0 : p≠0) :
    |f.round ((p : ℚ)/100)-(p : ℚ)/100|<1/200 := by
  have hone : (1 : ℚ)≤|(p : ℚ)| := by
    rw [← Int.cast_abs]
    exact_mod_cast Int.one_le_abs h0
  have hbound : |(p : ℚ)|<2^52 := by
    rw [← Int.cast_abs]
    exact_mod_cast hp
  have habs : |(p : ℚ)/100|=|(p : ℚ)|/100 := by
    rw [abs_div,abs_of_pos (by norm_num : (0 : ℚ) < 100)]
  have herr:=f.error ((p : ℚ)/100) (by rw [habs]; linarith) (by rw [habs]; linarith)
  rw [habs] at herr
  linarith

/- Whatever is not an integer keeps its distance from the next one. -/
theorem Binary64.round_quotient {p : Int} (hp : |p| < 2^52) (hm : p%100≠0) :
    ((p/100 : Int) : ℚ)<f.round ((p : ℚ)/100) ∧ f.round ((p : ℚ)/100)<((p/100 : Int) : ℚ)+1 := by
  have herr:=abs_lt.mp (f.error_quotient hp (by rintro rfl; exact hm rfl))
  have hp' : (p : ℚ)=100*((p/100 : Int) : ℚ)+((p%100 : Int) : ℚ) := by
    exact_mod_cast (Int.mul_ediv_add_emod p 100).symm
  have hlow : (1 : ℚ)≤((p%100 : Int) : ℚ) := by
    have hpos:=Int.emod_nonneg p (by decide : (100 : Int)≠0)
    exact_mod_cast (by omega : 1≤p%100)
  have hhigh : ((p%100 : Int) : ℚ)≤99 := by
    have hlt:=Int.emod_lt_of_pos p (by decide : (0 : Int)<100)
    exact_mod_cast (by omega : p%100≤99)
  constructor <;> linarith

theorem Binary64.percent_eq (roundUp : Bool) (hv : |value|≤2^53) (ht : |total|≤2^53) (hp : |value*total| < 2^52) :
    f.percent value total roundUp=percentOf roundUp value total := by
  have hproduct : f.round (f.round value*f.round total)=((value*total : Int) : ℚ) := by
    rw [f.round_int value hv,f.round_int total ht,← Int.cast_mul]
    exact f.round_int _ (by omega)
  unfold Binary64.percent percentOf
  rw [hproduct]
  generalize value*total=p at hp ⊢
  by_cases hm : p%100=0
  · have hk : (p : ℚ)/100=((p/100 : Int) : ℚ) := by
      have hp' : p=100*(p/100) := by omega
      rw [div_eq_iff (by norm_num),mul_comm]
      exact_mod_cast hp'
    have hsmall : |p/100|≤2^53 := by
      have hlt:=abs_lt.mp hp
      rw [abs_le]
      omega
    rw [hk,f.round_int _ hsmall]
    cases roundUp with
    | true =>
      simp only [if_true,Int.ceil_intCast]
      omega
    | false => simp
  · obtain ⟨hlow,hhigh⟩ := f.round_quotient hp hm
    cases roundUp with
    | true =>
      have hc : ⌈f.round ((p : ℚ)/100)⌉=p/100+1 := by
        rw [Int.ceil_eq_iff]
        push_cast
        exact ⟨by linarith,by linarith⟩
      simp only [if_true,hc]
      omega
    | false =>
      simp only [Bool.false_eq_true,if_false,Int.floor_eq_iff]
      exact ⟨hlow.le,hhigh⟩

end Kruise.Util.IntStr
