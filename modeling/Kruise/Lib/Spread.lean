import Mathlib.Algebra.Order.Ring.Int
import Mathlib.Data.List.Sort

/-!
# Spreading a total evenly

All places get the quotient and the first ones, as many as the remainder, one more.
-/

namespace Kruise.Lib.Spread

variable {κ : Type}

/- The share of a place: the quotient, or one more before the remainder. -/
def share (total : Int) (count place : Nat) : Int :=
  if (place : Int)<total % count then total / count+1 else total / count

variable {total : Int}

theorem share_eq_div {count place : Nat} (hpl : place<count) :
    share total count place=(total+(count-1-place)) / count := by
  have hpos : (0 : Int)<count := by omega
  have hd:=Int.mul_ediv_add_emod total count
  have hr:=Int.emod_nonneg total (Int.ne_of_gt hpos)
  have hlt:=Int.emod_lt_of_pos total hpos
  have hspl : total+(count-1-place) = (total % count+(count-1-place))+count*(total / count) := by omega
  rw [hspl,Int.add_mul_ediv_left _ _ (Int.ne_of_gt hpos)]
  unfold share
  split_ifs with hl
  · have ho : (total % count+(count-1-place)) / count=1 :=
      (Int.ediv_eq_iff_of_pos hpos).mpr ⟨by omega,by omega⟩
    omega
  · have hz : (total % count+(count-1-place)) / count=0 :=
      Int.ediv_eq_zero_of_lt (by omega) (by omega)
    omega

theorem share_le_share {total total' : Int} (h : total≤total') {count place : Nat}
    (hpl : place<count) : share total count place ≤ share total' count place := by
  rw [share_eq_div hpl,share_eq_div hpl]
  exact Int.ediv_le_ediv (by omega) (by omega)

theorem share_antitone (total : Int) (count : Nat) {place place' : Nat} (h : place≤place') :
    share total count place' ≤ share total count place := by
  unfold share
  split_ifs <;> omega

def shares (total : Int) (count : Nat) : List Int := (List.range count).map (share total count)

theorem pairwise_shares (total : Int) (count : Nat) : (shares total count).Pairwise (· ≥ ·) := by
  rw [shares,List.pairwise_map]
  exact List.pairwise_lt_range.imp fun h => share_antitone total count h.le

theorem map_eq_shares_of_sorted {value : κ → Int} {count : Nat} {xs ys : List κ}
    (hperm : ys.Perm xs) (hxs : xs.map value=shares total count)
    (hsrt : ys.Pairwise fun a b => value a ≥ value b) : ys.map value=shares total count := by
  rw [← hxs]
  refine (hperm.map value).eq_of_pairwise (fun a b _ _ hab hba => le_antisymm hba hab) ?_ ?_
  · rw [List.pairwise_map]
    exact hsrt
  · rw [hxs]
    exact pairwise_shares total count

theorem value_at_place [DecidableEq κ] {value : κ → Int} {count : Nat} {xs : List κ}
    (h : xs.map value=shares total count) {x : κ} (hx : x∈xs) :
    value x=share total count (xs.idxOf x) ∧ xs.idxOf x<count := by
  have hlt:=List.idxOf_lt_length_of_mem hx
  have hl : xs.length=count := by
    have hboth:=congrArg List.length h
    rw [List.length_map,shares,List.length_map,List.length_range] at hboth
    exact hboth
  have hg:=congrArg (·[xs.idxOf x]?) h
  simp only [List.getElem?_map,shares,List.getElem?_range (hl ▸ hlt),
    List.getElem?_idxOf hx,Option.map_some,Option.some.injEq] at hg
  exact ⟨hg,hl ▸ hlt⟩

end Kruise.Lib.Spread
