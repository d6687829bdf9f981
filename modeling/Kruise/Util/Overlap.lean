import Kruise.Util.Selector
import Mathlib.Data.List.Induction

/-!
# When overlapping selectors are taken for disjoint

`IsSelectorOverlapping` (`pkg/util/selector.go` 39-110) for two selectors that match the same
labels. A key that one of them wants to exist counts as disjoint when the other one does not ask
for it. And `ALL`, which stands for any value, is compared with the values of a `NotIn` like a
value.
-/

namespace Kruise.Util.Selector

open List

def Requirement.asks (r : Requirement) : Bool := r.operator=.opIn||r.operator=.opExists

def asking (key : String) (rs : List Requirement) : List Requirement :=
  rs.filter fun r => r.key=key&&r.asks

def endsInExists (rs : List Requirement) : Bool :=
  rs.getLast?.any fun r => r.operator=.opExists

def LabelSelector.asksFor (s : LabelSelector) (key : String) : Bool :=
  (s.matchLabels.lookup key).isSome||!(asking key s.matchExpressions).isEmpty

/- A key has to exist that the other selector does not ask for. -/
def wantsUnasked (s t : LabelSelector) : Bool :=
  t.matchExpressions.any fun r => r.operator=.opExists&&!s.asksFor r.key

/- A `NotIn` lists `ALL`, and of the requirements of the other selector that ask for the key the
last one is an `Exists`. -/
def excludesMarker (s t : LabelSelector) : Bool :=
  t.matchExpressions.any fun r => r.operator=.opNotIn && "ALL" ∈ r.values &&
    endsInExists (asking r.key s.matchExpressions)

/- The record for a key with a label: none, the marker, or a list with the value of the label. -/
def Recorded (label : Option String) (asks any : Bool) (matched : Option (List String)) : Prop :=
  (asks=false ∧ any=false ∧ matched=none) ∨
  (asks ∧ any ∧ matched=some ["ALL"]) ∨
  (asks ∧ any=false ∧ ∃ values v,matched=some values ∧ label=some v ∧ v∈values)

theorem asking_append (key : String) (rs : List Requirement) (r : Requirement) :
    asking key (rs++[r]) =
      if r.key=key ∧ r.asks then asking key rs++[r] else asking key rs := by
  unfold asking
  rw [filter_append]
  by_cases h : r.key=key ∧ r.asks
  · simp [h]
  · rw [if_neg h,filter_cons_of_neg (by simpa using h)]
    simp

variable {r : Requirement}

theorem addRequirement_of_not_asks (m : String → Option (List String)) {key : String}
    (h : ¬(r.key=key ∧ r.asks)) : addRequirement m r key=m key := by
  unfold addRequirement
  cases hop : r.operator with
  | opIn =>
    have hne : key≠r.key := fun hk => h ⟨hk.symm,by simp [Requirement.asks,hop]⟩
    split_ifs
    · rfl
    · exact Function.update_of_ne hne _ _
  | opExists =>
    have hne : key≠r.key := fun hk => h ⟨hk.symm,by simp [Requirement.asks,hop]⟩
    exact Function.update_of_ne hne _ _
  | opNotIn => rfl
  | opDoesNotExist => rfl

variable {labels : Labels}

theorem recorded_addRequirement {m : String → Option (List String)} (hr : r.matches labels) (ha : r.asks) :
    Recorded (labels r.key) true (endsInExists [r]) (addRequirement m r r.key) := by
  unfold addRequirement
  cases hop : r.operator with
  | opIn =>
    simp only [Requirement.matches,hop] at hr
    cases hv : labels r.key with
    | none =>
      rw [hv] at hr
      cases hr
    | some v =>
      rw [hv] at hr
      have hm : v∈r.values := of_decide_eq_true hr
      have hne : r.values≠[] := ne_nil_of_mem hm
      simp only [hne,if_false,Function.update_self]
      refine .inr (.inr ⟨rfl,by simp [endsInExists,hop],_,v,rfl,rfl,?_⟩)
      exact mem_append_right _ hm
  | opExists =>
    simp only [Function.update_self]
    exact .inr (.inl ⟨rfl,by simp [endsInExists,hop],rfl⟩)
  | opNotIn => simp [Requirement.asks,hop] at ha
  | opDoesNotExist => simp [Requirement.asks,hop] at ha

theorem recorded_foldl {base : String → Option String}
    (hbase : ∀ key v,base key=some v → labels key=some v) (key : String)
    (rs : List Requirement) (hrs : ∀ r∈rs,r.matches labels) :
    Recorded (labels key) ((base key).isSome||!(asking key rs).isEmpty) (endsInExists (asking key rs))
      (rs.foldl addRequirement (fun k => (base k).map fun v => [v]) key) := by
  induction rs using reverseRecOn with
  | nil =>
    cases hv : base key with
    | none => exact .inl ⟨by simp [asking],rfl,by simp [hv]⟩
    | some v =>
      refine .inr (.inr ⟨by simp,rfl,[v],v,by simp [hv],hbase key v hv,?_⟩)
      exact mem_singleton.mpr rfl
  | append_singleton rs r ih =>
    rw [foldl_append,foldl_cons,foldl_nil,asking_append]
    by_cases h : r.key=key ∧ r.asks
    · obtain ⟨rfl,ha⟩ := h
      have hr:=hrs r (mem_append_right rs (mem_singleton.mpr rfl))
      have hl : endsInExists (asking r.key rs++[r])=endsInExists [r] := by
        simp [endsInExists]
      rw [if_pos ⟨rfl,ha⟩,hl]
      have hasked : ((base r.key).isSome||!(asking r.key rs++[r]).isEmpty) := by simp
      rw [hasked]
      exact recorded_addRequirement hr ha
    · rw [if_neg h,addRequirement_of_not_asks _ h]
      exact ih fun q hq => hrs q (mem_append_left _ hq)

theorem recorded_matchedLabels {s : LabelSelector} (h : s.matches labels) (key : String) :
    Recorded (labels key) (s.asksFor key) (endsInExists (asking key s.matchExpressions)) (s.matchedLabels key) := by
  obtain ⟨hl,he⟩ := Bool.and_eq_true_iff.mp h
  have hbase : ∀ k v,s.matchLabels.lookup k=some v → labels k=some v := by
    intro k v hv
    exact of_decide_eq_true (all_eq_true.mp hl ⟨k,v⟩ (AList.mem_lookup_iff.mp hv))
  exact recorded_foldl hbase key s.matchExpressions fun r hr => all_eq_true.mp he r hr

theorem blindTo_iff {asks any : Bool} {matched : Option (List String)}
    (hm : Recorded (labels r.key) asks any matched) (hr : r.matches labels) :
    blindTo matched r ↔ r.operator=.opExists ∧ asks=false ∨
      r.operator=.opNotIn ∧ "ALL" ∈ r.values ∧ any := by
  unfold blindTo
  rcases hm with ⟨rfl,rfl,rfl⟩ | ⟨rfl,rfl,rfl⟩ | ⟨rfl,rfl,values,v,rfl,hv,hmem⟩
  · cases r.operator <;> simp
  · cases r.operator <;> simp [sliceContains]
  · cases hop : r.operator with
    | opNotIn =>
      -- the value of the label is recorded and not excluded
      simp only [Requirement.matches,hop,hv] at hr
      have hn : v∉r.values := of_decide_eq_true hr
      have hcont : sliceContains r.values values=false := by
        refine Bool.eq_false_iff.mpr fun hc => hn ?_
        exact of_decide_eq_true (all_eq_true.mp hc v hmem)
      simp [hcont]
    | opIn => simp
    | opExists => simp
    | opDoesNotExist => simp

theorem blindSpot_eq_false_iff {s t : LabelSelector} (hs : s.matches labels) (ht : t.matches labels) :
    blindSpot s t=false ↔ wantsUnasked s t=false ∧ excludesMarker s t=false := by
  have he:=(Bool.and_eq_true_iff.mp ht).2
  rw [← Bool.not_eq_true,← Bool.not_eq_true,← Bool.not_eq_true,← not_or,not_iff_not]
  unfold blindSpot wantsUnasked excludesMarker
  rw [any_eq_true,any_eq_true,any_eq_true,← exists_or]
  refine exists_congr fun r => ?_
  rw [← and_or_left]
  refine and_congr_right fun hr => ?_
  rw [blindTo_iff (recorded_matchedLabels hs r.key) (all_eq_true.mp he r hr)]
  simp only [Bool.and_eq_true,decide_eq_true_eq,Bool.not_eq_true',and_assoc]

/-- Two selectors that match the same labels are found to overlap if and only if neither wants a key
to exist that the other does not ask for, nor excludes `ALL` for a key of which the other asks last
for any value. -/
theorem isSelectorOverlapping_iff (s t : LabelSelector)
    (h : ∃ labels : Labels,s.matches labels ∧ t.matches labels) :
    isSelectorOverlapping s t ↔ (wantsUnasked s t=false ∧ excludesMarker s t=false) ∧
        wantsUnasked t s=false ∧ excludesMarker t s=false := by
  obtain ⟨labels,hs,ht⟩ := h
  rw [isSelectorOverlapping_of_matches hs ht,Bool.not_eq_true',Bool.or_eq_false_iff,
    blindSpot_eq_false_iff hs ht,blindSpot_eq_false_iff ht hs]

def appIsWeb : LabelSelector := ⟨AList.singleton "app" "web",[]⟩

def tierExists : LabelSelector := ⟨∅,[⟨"tier",.opExists,[]⟩]⟩

def webFront : Labels := fun key =>
  if key = "app" then some "web" else if key = "tier" then some "front" else none

/-- Both select the pods of the front tier of the web application. -/
theorem web_front_missed : appIsWeb.matches webFront ∧ tierExists.matches webFront ∧
    isSelectorOverlapping appIsWeb tierExists=false := by
  decide

def appIn : LabelSelector := ⟨∅,[⟨"app",.opIn,["web", "api"]⟩]⟩

theorem web_and_api_overlap : isSelectorOverlapping appIsWeb appIn :=
  (isSelectorOverlapping_iff appIsWeb appIn ⟨webFront,by decide,by decide⟩).mpr (by decide)

end Kruise.Util.Selector
