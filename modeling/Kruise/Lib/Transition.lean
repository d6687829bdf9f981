import Mathlib.Order.RelClasses

/-!
# Labelled transition systems and runs that settle

Runs, the induction over them that every safety result uses, and the rule by which a run settles:
a well-founded relation that descends until the state is quiet.
-/

namespace Kruise.Lib.Transition

variable {S L : Type}

/-- States reached from a start state by finitely many labelled steps. -/
inductive Reachable (init : S → Prop) (step : S → L → S → Prop) : S → Prop
  | start {s} : init s → Reachable init step s
  | next {s l s'} : Reachable init step s → step s l s' → Reachable init step s'

def Restricted (step : S → L → S → Prop) (ok : S → L → Prop) (s : S) (l : L) (s' : S) : Prop :=
  step s l s' ∧ ok s l

variable {init : S → Prop} {step : S → L → S → Prop}

theorem Reachable.invariant {inv : S → Prop} (hi : ∀ s,init s → inv s)
    (hstep : ∀ s l s',inv s → step s l s' → inv s') {s : S} (h : Reachable init step s) : inv s := by
  induction h with
  | start hs => exact hi _ hs
  | next _ hl ih => exact hstep _ _ _ ih hl

/-- A run made of a list of labels, each step taken by a partial function. -/
def runLabels (next : S → L → Option S) : List L → S → Option S
  | [],s => some s
  | l::ls,s => (next s l).bind (runLabels next ls)

variable {next : S → L → Option S}

theorem reachable_of_runLabels (hn : ∀ s l s',next s l=some s' → step s l s') (ls : List L)
    {s s' : S} (hs : Reachable init step s) (h : runLabels next ls s=some s') : Reachable init step s' := by
  induction ls generalizing s with
  | nil =>
    simp only [runLabels,Option.some.injEq] at h
    exact h ▸ hs
  | cons l ls ih =>
    obtain ⟨t,ht,hr⟩ := Option.bind_eq_some_iff.mp h
    exact ih (hs.next (hn s l t ht)) hr

def restrict (next : S → L → Option S) (ok : S → L → Prop) [∀ s l,Decidable (ok s l)] (s : S)
    (l : L) : Option S :=
  if ok s l then next s l else none

theorem reachable_of_restrict {ok : S → L → Prop} [∀ s l,Decidable (ok s l)]
    (hn : ∀ s l s',next s l=some s' → step s l s') (ls : List L) {s s' : S}
    (hs : Reachable init (Restricted step ok) s) (h : runLabels (restrict next ok) ls s=some s') :
    Reachable init (Restricted step ok) s' := by
  refine reachable_of_runLabels ?_ ls hs h
  intro t l t' ht
  unfold restrict at ht
  by_cases hok : ok t l
  · rw [if_pos hok] at ht
    exact ⟨hn t l t' ht,hok⟩
  · rw [if_neg hok] at ht
    cases ht

/-- A run reaches a quiet state when every other state of the invariant moves down
a well-founded relation. -/
theorem exists_quiet_of_run (run : Nat → S) (inv quiet : S → Prop) {r : S → S → Prop}
    (hr : WellFounded r) (hsta : inv (run 0))
    (hd : ∀ n,inv (run n) → ¬quiet (run n) → inv (run (n+1)) ∧ r (run (n+1)) (run n)) :
    ∃ n,inv (run n) ∧ quiet (run n) := by
  have hf : ∀ s n,run n=s → inv s → ∃ m,inv (run m) ∧ quiet (run m) := by
    intro s
    induction s using hr.induction with
    | _ s ih =>
      intro n hn hs
      subst hn
      by_cases hq : quiet (run n)
      · exact ⟨n,hs,hq⟩
      · obtain ⟨hi,hlt⟩ := hd n hs hq
        exact ih (run (n+1)) hlt (n+1) rfl hi
  exact hf (run 0) 0 rfl hsta

end Kruise.Lib.Transition
