import Mathlib.Data.List.DropRight
import Mathlib.Data.List.Infix

/-!
# Cutting and trimming texts

Joining texts with a separator and splitting again splits each of them. A loop over the lines that
trims each one does not see whether the whole text was trimmed before.
-/

namespace Kruise.Lib.Text

open List

variable {α : Type}

/- The parts before and after the first `sep`, which is not empty. -/
def cut [BEq α] (sep : List α) : List α → Option (List α × List α)
  | [] => none
  | c::cs =>
    if sep.isPrefixOf (c::cs) then some ([],(c::cs).drop sep.length)
    else (cut sep cs).map fun parts => (c::parts.1,parts.2)

theorem cut_singleton [DecidableEq α] {c : α} {xs : List α} (hc : c∉xs) (ys : List α) :
    cut [c] (xs++c::ys)=some (xs,ys) := by
  induction xs with
  | nil => simp [cut]
  | cons x xs ih =>
    rw [mem_cons,not_or] at hc
    simp [cut,hc.1,ih hc.2]

theorem eq_append_of_cut [DecidableEq α] {c : α} {xs : List α} {parts : List α × List α}
    (h : cut [c] xs=some parts) : xs=parts.1++c::parts.2 := by
  induction xs generalizing parts with
  | nil => cases h
  | cons x xs ih =>
    by_cases hx : c=x
    · subst hx
      simp only [cut,isPrefixOf_cons_cons_self,isPrefixOf_nil_left,if_true,Option.some.injEq] at h
      subst h
      rfl
    · simp only [cut,isPrefixOf,beq_eq_false_iff_ne.mpr hx,Bool.false_and,Bool.false_eq_true,if_false] at h
      obtain ⟨parts,hc,rfl⟩ := Option.map_eq_some_iff.mp h
      exact congrArg (cons x) (ih hc)

section

variable [DecidableEq α] {s : α}

theorem splitOn_append_of_notMem {xs : List α} (h : s∉xs) (ys : List α) :
    (xs++ys).splitOn s=(ys.splitOn s).modifyHead (xs++·) := by
  induction xs with
  | nil => cases hy : ys.splitOn s <;> simp [hy]
  | cons x xs ih =>
    rw [mem_cons,not_or] at h
    rw [cons_append,splitOn_cons_eq_if_modifyHead,if_neg (by simpa using Ne.symm h.1),ih h.2,modifyHead_modifyHead]
    rfl

theorem splitOn_intercalate_eq {ls : List (List α)} (h : ls≠[]) :
    ([s].intercalate ls).splitOn s=ls.flatMap (splitOn s) := by
  induction ls with
  | nil => exact absurd rfl h
  | cons l ls ih =>
    cases ls with
    | nil => simp [List.intercalate]
    | cons l' ls =>
      rw [intercalate_cons_cons,append_assoc,singleton_append,splitOn_append_cons_self,ih (cons_ne_nil _ _)]
      rfl

theorem splitOn_concat {c : α} (hc : c≠s) (cs : List α) :
    ∃ init last,cs.splitOn s=init++[last] ∧ (cs++[c]).splitOn s=init++[last++[c]] := by
  induction cs with
  | nil => exact ⟨[],[],by simp,by simp [splitOn_cons_eq_if_modifyHead,hc]⟩
  | cons x cs ih =>
    obtain ⟨init,last,h,h'⟩ := ih
    rw [cons_append,splitOn_cons_eq_if_modifyHead,splitOn_cons_eq_if_modifyHead,h,h']
    split_ifs
    · exact ⟨[]::init,last,rfl,rfl⟩
    · cases init with
      | nil => exact ⟨[],x::last,rfl,rfl⟩
      | cons l init => exact ⟨(x::l)::init,last,rfl,rfl⟩

end

section

variable (p : α → Bool)

def trim (cs : List α) : List α := (cs.dropWhile p).rdropWhile p

variable {p}

theorem rdropWhile_append_cons {c : α} (hc : p c=false) (xs ys : List α) :
    (xs++c::ys).rdropWhile p=xs++c::ys.rdropWhile p := by
  have hstop : (c::xs.reverse).dropWhile p=c::xs.reverse :=
    dropWhile_cons_of_neg (Bool.eq_false_iff.mp hc)
  have hr : (xs++c::ys).reverse=ys.reverse++c::xs.reverse := by simp
  unfold List.rdropWhile
  rw [hr,dropWhile_append,hstop]
  by_cases he : (ys.reverse.dropWhile p).isEmpty=true <;> simp

theorem trim_cons {c : α} (hc : p c) (cs : List α) : trim p (c::cs)=trim p cs := by
  unfold trim
  rw [dropWhile_cons_of_pos hc]

theorem trim_concat {c : α} (hc : p c) (cs : List α) : trim p (cs++[c])=trim p cs := by
  unfold trim
  rw [dropWhile_append]
  split_ifs with he
  · rw [isEmpty_iff.mp he,dropWhile_cons_of_pos hc,dropWhile_nil]
  · exact rdropWhile_concat_pos p _ c hc

variable [DecidableEq α] {β : Type} {g : β → List α → β} (hnil : ∀ b,g b []=b) (s : α)
include hnil

theorem foldl_splitOn_dropWhile (cs : List α) (b : β) :
    ((cs.dropWhile p).splitOn s).foldl (fun b l => g b (trim p l)) b =
      (cs.splitOn s).foldl (fun b l => g b (trim p l)) b := by
  induction cs with
  | nil => rfl
  | cons c cs ih =>
    cases hc : p c with
    | false => rw [dropWhile_cons_of_neg (by simp [hc])]
    | true =>
      rw [dropWhile_cons_of_pos hc,ih,splitOn_cons_eq_if_modifyHead]
      split_ifs
      · rw [foldl_cons]
        exact congrArg (fun b => foldl _ b _) (hnil b).symm
      · obtain ⟨l,ls,hls⟩ := exists_cons_of_ne_nil (splitOn_ne_nil s cs)
        rw [hls,modifyHead_cons,foldl_cons,foldl_cons,trim_cons hc]

theorem foldl_splitOn_rdropWhile (cs : List α) (b : β) :
    ((cs.rdropWhile p).splitOn s).foldl (fun b l => g b (trim p l)) b =
      (cs.splitOn s).foldl (fun b l => g b (trim p l)) b := by
  induction cs using reverseRecOn with
  | nil => rfl
  | append_singleton cs c ih =>
    cases hc : p c with
    | false => rw [rdropWhile_concat_neg p _ c (by simp [hc])]
    | true =>
      rw [rdropWhile_concat_pos p _ c hc,ih]
      by_cases hs : c=s
      · subst hs
        rw [splitOn_append_cons_self,splitOn_nil,foldl_append,foldl_cons,foldl_nil]
        exact (hnil _).symm
      · obtain ⟨init,last,h,h'⟩ := splitOn_concat hs cs
        rw [h,h',foldl_append,foldl_append,foldl_cons,foldl_cons,trim_concat hc]

theorem foldl_splitOn_trim (cs : List α) (b : β) :
    ((trim p cs).splitOn s).foldl (fun b l => g b (trim p l)) b =
      (cs.splitOn s).foldl (fun b l => g b (trim p l)) b :=
  (foldl_splitOn_rdropWhile hnil s _ b).trans (foldl_splitOn_dropWhile hnil s cs b)

end

end Kruise.Lib.Text
