import Mathlib.Data.List.Basic

/-!
# A self-delimiting code

A list of strings as one string from which it can be read back, and records of `n` fields.
-/

namespace Kruise.Lib.Coding

variable {α : Type}

/- Each character is announced, and so is the end. -/
def codeField : List Char → List Char → List Char
  | [],rest => '.'::rest
  | c::cs,rest => '+'::c::codeField cs rest

theorem codeField_inj {a b r r' : List Char} (h : codeField a r=codeField b r') : a=b ∧ r=r' := by
  induction a generalizing b with
  | nil =>
    cases b with
    | nil => exact ⟨rfl,(List.cons.inj h).2⟩
    | cons d ds => exact absurd (List.cons.inj h).1 (by decide)
  | cons c cs ih =>
    cases b with
    | nil => exact absurd (List.cons.inj h).1 (by decide)
    | cons d ds =>
      obtain ⟨hc,hrest⟩ := List.cons.inj (List.cons.inj h).2
      obtain ⟨hcs,hr⟩ := ih hrest
      exact ⟨by rw [hc,hcs],hr⟩

def codeFields : List String → List Char
  | [] => []
  | s::ss => codeField s.toList (codeFields ss)

theorem codeFields_injective : Function.Injective codeFields := by
  have hne : ∀ s : String,∀ ss,codeFields (s::ss)≠[] := by
    intro s ss
    unfold codeFields
    cases s.toList with
    | nil => exact List.cons_ne_nil _ _
    | cons c cs => exact List.cons_ne_nil _ _
  intro xs ys h
  induction xs generalizing ys with
  | nil =>
    cases ys with
    | nil => rfl
    | cons y ys => exact absurd h.symm (hne y ys)
  | cons x xs ih =>
    cases ys with
    | nil => exact absurd h (hne x xs)
    | cons y ys =>
      obtain ⟨hx,hxs⟩ := codeField_inj h
      rw [String.toList_inj.mp hx,ih hxs]

def codeRecords (fields : α → List String) (xs : List α) : String :=
  String.ofList (codeFields (xs.flatMap fields))

theorem codeRecords_injective {fields : α → List String} {n : Nat}
    (hl : ∀ x,(fields x).length=n+1) (hflds : Function.Injective fields) :
    Function.Injective (codeRecords fields) := by
  intro xs ys h
  have hf:=codeFields_injective (String.ofList_injective h)
  clear h
  induction xs generalizing ys with
  | nil =>
    cases ys with
    | nil => rfl
    | cons y ys =>
      have hz:=congrArg List.length hf
      simp [hl] at hz
      omega
  | cons x xs ih =>
    cases ys with
    | nil =>
      have hz:=congrArg List.length hf
      simp [hl] at hz
    | cons y ys =>
      obtain ⟨hx,hxs⟩ := List.append_inj hf ((hl x).trans (hl y).symm)
      rw [hflds hx,ih hxs]

end Kruise.Lib.Coding
