import Mathlib.Data.List.Range

/-!
# Slow start

Calls `0 .. count - 1` made in batches of doubling size, the calls of a batch in any order, and none
after a batch with a failure.
-/

namespace Kruise.Lib

open List

structure Schedule where
  order : List Nat → List Nat
  perm : ∀ batch,(order batch).Perm batch

variable {σ : Type*} (schedule : Schedule) (turn : σ → Nat → σ) (failed : σ → σ → Bool) (count : Nat)

/-- The state after the last batch and the number of calls. -/
def slowStart : Nat → Nat → Nat → σ → σ × Nat
  | 0,_,pos,s => (s,pos)
  | fuel+1,size,pos,s =>
    if count≤pos then (s,pos)
    else
      let s' := (schedule.order (range' pos size)).foldl turn s
      if failed s s' then (s',pos+size)
      else slowStart fuel (min (2*size) (count-(pos+size))) (pos+size) s'

theorem slowStart_of_le {fuel size pos : Nat} {s : σ} (h : count≤pos) :
    slowStart schedule turn failed count fuel size pos s=(s,pos) := by
  cases fuel with
  | zero => rfl
  | succ fuel => exact if_pos h

theorem slowStart_fuel {fuel fuel' size pos : Nat} {s : σ} (hs : pos<count → 0<size)
    (hsize : pos+size≤count) (hf : count-pos≤fuel) (hf' : count-pos≤fuel') :
    slowStart schedule turn failed count fuel size pos s =
      slowStart schedule turn failed count fuel' size pos s := by
  by_cases he : count≤pos
  · rw [slowStart_of_le _ _ _ _ he,slowStart_of_le _ _ _ _ he]
  · induction fuel generalizing fuel' size pos s with
    | zero => omega
    | succ fuel ih =>
      cases fuel' with
      | zero => omega
      | succ fuel' =>
        unfold slowStart
        rw [if_neg he,if_neg he]
        dsimp only
        split_ifs
        · rfl
        · by_cases hn : count≤pos+size
          · rw [slowStart_of_le _ _ _ _ hn,slowStart_of_le _ _ _ _ hn]
          · exact ih (by omega) (by omega) (by omega) (by omega) hn

/-- The calls are those of an initial segment, and all of them unless the last batch has failed. -/
theorem slowStart_after {fuel size pos : Nat} {s₀ : σ} {done : List Nat} (hd : done.Perm (range pos))
    (hf : count-pos≤fuel) (hs : pos<count → 0<size) (hsize : pos+size≤count) :
    ∃ (calls : List Nat) (k : Nat), slowStart schedule turn failed count fuel size pos (done.foldl turn s₀) =
        (calls.foldl turn s₀,k) ∧
      calls.Perm (range k) ∧ k≤count ∧
      (k=count ∨ ∃ s,failed s (calls.foldl turn s₀)) := by
  induction fuel generalizing size pos done with
  | zero => exact ⟨done,pos,rfl,hd,by omega,.inl (by omega)⟩
  | succ fuel ih =>
    unfold slowStart
    split_ifs with he
    · exact ⟨done,pos,rfl,hd,by omega,.inl (by omega)⟩
    · have hn : (done++schedule.order (range' pos size)).Perm (range (pos+size)) := by
        rw [range_add,← range'_eq_map_range]
        exact hd.append (schedule.perm _)
      dsimp only
      rw [← foldl_append]
      split_ifs with hfail
      · exact ⟨_,_,rfl,hn,hsize,.inr ⟨_,hfail⟩⟩
      · exact ih hn (by omega) (by omega) (by omega)

theorem slowStart_spec (size : Nat) (s₀ : σ) (hs : 0<count → 0<size) (hsize : size≤count) :
    ∃ (calls : List Nat) (k : Nat),slowStart schedule turn failed count count size 0 s₀ = (calls.foldl turn s₀,k) ∧
      calls.Perm (range k) ∧ k≤count ∧
      (k=count ∨ ∃ s,failed s (calls.foldl turn s₀)) :=
  slowStart_after schedule turn failed count (Perm.refl (range 0)) (Nat.le_refl _) hs (by omega)

end Kruise.Lib
