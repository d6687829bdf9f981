import Mathlib.Data.List.AList

/-!
# Label selectors

`metav1.LabelSelector`, what it matches, and the test by which the webhooks judge two selectors to
overlap (`pkg/util/selector.go` 39-126). For two selectors that match the same labels the test
goes wrong in two cases only, a key that has to exist and that the other selector does not
mention, and a `NotIn` that lists the marker `ALL`.
-/

namespace Kruise.Util.Selector

open List

abbrev Labels := String → Option String

inductive Operator where
  | opIn
  | opNotIn
  | opExists
  | opDoesNotExist
  deriving DecidableEq,Repr

structure Requirement where
  key : String
  operator : Operator
  values : List String
  deriving DecidableEq,Repr

structure LabelSelector where
  matchLabels : AList fun _ : String => String
  matchExpressions : List Requirement

def LabelSelector.isEmpty (s : LabelSelector) : Bool :=
  s.matchLabels.entries.length+s.matchExpressions.length=0

def Requirement.matches (r : Requirement) (labels : Labels) : Bool :=
  match r.operator,labels r.key with
  | .opIn,some v => v∈r.values
  | .opIn,none => false
  | .opNotIn,some v => v∉r.values
  | .opNotIn,none => true
  | .opExists,v => v.isSome
  | .opDoesNotExist,v => v.isNone

/- `ValidatedLabelSelectorAsSelector` followed by `Matches`. -/
def LabelSelector.matches (s : LabelSelector) (labels : Labels) : Bool :=
  s.matchLabels.entries.all (fun e => labels e.1=some e.2) &&
    s.matchExpressions.all fun r => r.matches labels

/- The values a selector allows for a key, as far as it asks for them. `ALL` stands for any value.
-/
def addRequirement (m : String → Option (List String)) (r : Requirement) : String → Option (List String) :=
  match r.operator with
  | .opIn =>
    if r.values=[] then m else Function.update m r.key (some ((m r.key).getD []++r.values))
  | .opExists => Function.update m r.key (some ["ALL"])
  | .opNotIn => m
  | .opDoesNotExist => m

def LabelSelector.matchedLabels (s : LabelSelector) : String → Option (List String) :=
  s.matchExpressions.foldl addRequirement fun key => (s.matchLabels.lookup key).map fun v => [v]

def sliceOverlaps (a b : List String) : Bool := b.any fun key => key∈a

def sliceContains (a b : List String) : Bool := b.all fun key => key∈a

variable (matched : Option (List String))

def rejectsLabel (value : String) : Bool :=
  match matched with
  | some values => "ALL" ∉ values&&value∉values
  | none => false

def rejectsRequirement (r : Requirement) : Bool :=
  match r.operator,matched with
  | .opIn,some values => "ALL" ∉ values&&!sliceOverlaps values r.values
  | .opNotIn,some values => sliceContains r.values values
  | .opExists,none => true
  | .opDoesNotExist,some _ => true
  | _,_ => false

variable (selector1 selector2 : LabelSelector)

def isDisjoint : Bool :=
  selector2.matchLabels.entries.any (fun e => rejectsLabel (selector1.matchedLabels e.1) e.2) ||
    selector2.matchExpressions.any fun r => rejectsRequirement (selector1.matchedLabels r.key) r

def isSelectorOverlapping : Bool :=
  !(isDisjoint selector1 selector2||isDisjoint selector2 selector1)

def Allows (labels : Labels) (m : String → Option (List String)) : Prop :=
  ∀ key values,m key=some values → ∃ v,labels key=some v ∧ (v∈values ∨ "ALL" ∈ values)

variable {labels : Labels} {m : String → Option (List String)}

theorem allows_update (h : Allows labels m) {key : String} {values : List String}
    (hkey : ∃ v,labels key=some v ∧ (v∈values ∨ "ALL" ∈ values)) :
    Allows labels (Function.update m key (some values)) := by
  intro k vs hk
  by_cases hne : k=key
  · subst hne
    rw [Function.update_self] at hk
    exact Option.some.inj hk ▸ hkey
  · rw [Function.update_of_ne hne] at hk
    exact h k vs hk

theorem allows_addRequirement (h : Allows labels m) {r : Requirement} (hr : r.matches labels) :
    Allows labels (addRequirement m r) := by
  unfold addRequirement
  cases hop : r.operator with
  | opIn =>
    split_ifs with hn
    · exact h
    · refine allows_update h ?_
      simp only [Requirement.matches,hop] at hr
      cases hv : labels r.key with
      | none =>
        rw [hv] at hr
        cases hr
      | some v =>
        rw [hv] at hr
        exact ⟨v,rfl,.inl (mem_append_right _ (of_decide_eq_true hr))⟩
  | opExists =>
    refine allows_update h ?_
    simp only [Requirement.matches,hop] at hr
    obtain ⟨v,hv⟩ := Option.isSome_iff_exists.mp hr
    exact ⟨v,hv,.inr mem_cons_self⟩
  | opNotIn => exact h
  | opDoesNotExist => exact h

theorem allows_matchedLabels {s : LabelSelector} (h : s.matches labels) : Allows labels s.matchedLabels := by
  obtain ⟨hl,he⟩ := Bool.and_eq_true_iff.mp h
  refine foldlRecOn (motive := Allows labels) s.matchExpressions _ ?_ ?_
  · intro key values hk
    obtain ⟨v,hv,rfl⟩ := Option.map_eq_some_iff.mp hk
    have hent:=all_eq_true.mp hl ⟨key,v⟩ (AList.mem_lookup_iff.mp hv)
    exact ⟨v,of_decide_eq_true hent,.inl mem_cons_self⟩
  · intro m hm r hr
    exact allows_addRequirement hm (all_eq_true.mp he r hr)

def blindTo (r : Requirement) : Bool :=
  match r.operator,matched with
  | .opExists,none => true
  | .opNotIn,some values => "ALL" ∈ values&&sliceContains r.values values
  | _,_ => false

def blindSpot : Bool :=
  selector2.matchExpressions.any fun r => blindTo (selector1.matchedLabels r.key) r

theorem rejectsLabel_of_matches (h : Allows labels m) {key value : String}
    (hv : labels key=some value) : rejectsLabel (m key) value=false := by
  unfold rejectsLabel
  cases hm : m key with
  | none => rfl
  | some values =>
    obtain ⟨v,hk,hor⟩ := h key values hm
    obtain rfl := Option.some.inj (hv.symm.trans hk)
    rcases hor with hin | ha
    · simp [hin]
    · simp [ha]

theorem rejectsRequirement_of_matches (h : Allows labels m) {r : Requirement}
    (hr : r.matches labels) : rejectsRequirement (m r.key) r=blindTo (m r.key) r := by
  unfold rejectsRequirement blindTo
  cases hm : m r.key with
  | none => cases r.operator <;> rfl
  | some values =>
    obtain ⟨v,hk,hor⟩ := h r.key values hm
    simp only [Requirement.matches,hk] at hr
    cases hop : r.operator with
    | opIn =>
      rw [hop] at hr
      have hv : v∈r.values := of_decide_eq_true hr
      rcases hor with hin | ha
      · have ho : sliceOverlaps values r.values :=
          any_eq_true.mpr ⟨v,hv,decide_eq_true hin⟩
        simp [ho]
      · simp [ha]
    | opNotIn =>
      rw [hop] at hr
      have hv : v∉r.values := of_decide_eq_true hr
      rcases hor with hin | ha
      · -- the value of the label is allowed, so not everything allowed is excluded
        have hcont : sliceContains r.values values=false := by
          refine Bool.eq_false_iff.mpr fun hc => hv ?_
          exact of_decide_eq_true (all_eq_true.mp hc v hin)
        simp [hcont]
      · simp [ha]
    | opExists => rfl
    | opDoesNotExist =>
      rw [hop] at hr
      cases hr

/-- For selectors that match the same labels the test for disjointness answers yes exactly at a
blind spot. -/
theorem isDisjoint_of_matches {s t : LabelSelector} (hs : s.matches labels)
    (ht : t.matches labels) : isDisjoint s t=blindSpot s t := by
  have ha:=allows_matchedLabels hs
  obtain ⟨hl,hexprs⟩ := Bool.and_eq_true_iff.mp ht
  have hf : t.matchLabels.entries.any (fun e => rejectsLabel (s.matchedLabels e.1) e.2)=false := by
    refine any_eq_false.mpr fun e he => ?_
    have hent:=of_decide_eq_true (all_eq_true.mp hl e he)
    rw [rejectsLabel_of_matches ha hent]
    exact Bool.false_ne_true
  unfold isDisjoint blindSpot
  rw [hf,Bool.false_or]
  rw [Bool.eq_iff_iff,any_eq_true,any_eq_true]
  refine exists_congr fun r => and_congr_right fun hr => ?_
  rw [rejectsRequirement_of_matches ha (all_eq_true.mp hexprs r hr)]

theorem isSelectorOverlapping_of_matches {s t : LabelSelector} (hs : s.matches labels) (ht : t.matches labels) :
    isSelectorOverlapping s t = !(blindSpot s t||blindSpot t s) := by
  unfold isSelectorOverlapping
  rw [isDisjoint_of_matches hs ht,isDisjoint_of_matches ht hs]

end Kruise.Util.Selector
