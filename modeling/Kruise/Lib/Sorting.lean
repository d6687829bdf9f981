import Mathlib.Data.List.Sort

/-!
# Sorting by a comparator

A sort that is not stable promises a permutation in which no element has to stand before an
earlier one; a stable sort also keeps the order of ties. Comparators that compare one key after
the other are built with `lexLess`.
-/

namespace Kruise.Lib.Sorting

open List

variable {α β κ : Type}

def NotAfter (less : α → α → Bool) (a b : α) : Prop := less b a=false

instance (less : α → α → Bool) : DecidableRel (NotAfter less) :=
  fun a b => inferInstanceAs (Decidable (less b a=false))

structure StrictWeak (less : α → α → Bool) : Prop where
  asymm : ∀ a b,less a b → less b a=false
  cotrans : ∀ a b c,less a c → less a b ∨ less b c

structure SortedBy (less : α → α → Bool) (xs ys : List α) : Prop where
  perm : ys.Perm xs
  sorted : ys.Pairwise (NotAfter less)

def stableSort (less : α → α → Bool) (xs : List α) : List α := xs.insertionSort (NotAfter less)

variable {less : α → α → Bool} {a b : α}

theorem StrictWeak.irrefl (h : StrictWeak less) (a : α) : less a a=false := by
  cases haa : less a a with
  | false => rfl
  | true => exact haa.symm.trans (h.asymm a a haa)

theorem StrictWeak.notAfter_total (h : StrictWeak less) (a b : α) : NotAfter less a b ∨ NotAfter less b a := by
  cases hab : less a b with
  | false => exact .inr hab
  | true => exact .inl (h.asymm a b hab)

theorem StrictWeak.notAfter_trans (h : StrictWeak less) {a b c : α} (hab : NotAfter less a b)
    (hbc : NotAfter less b c) : NotAfter less a c := by
  cases hca : less c a with
  | false => exact hca
  | true =>
    rcases h.cotrans c b a hca with hcb | hba
    · exact absurd (hbc.symm.trans hcb) (by decide)
    · exact absurd (hab.symm.trans hba) (by decide)

theorem strictWeak_never : StrictWeak fun _ _ : α => false :=
  ⟨fun _ _ _ => rfl,fun _ _ _ h => .inl h⟩

theorem StrictWeak.onImage (h : StrictWeak less) (f : β → α) : StrictWeak fun a b => less (f a) (f b) :=
  ⟨fun a b => h.asymm (f a) (f b),fun a b c => h.cotrans (f a) (f b) (f c)⟩

theorem pairwise_insertionSort_of {R S : α → α → Prop} [DecidableRel R]
    (ht : ∀ a b c,S a b → S b c → S a c) (hpos : ∀ a b,R a b → S a b)
    (hn : ∀ a b,¬R a b → S b a) (xs : List α) : (xs.insertionSort R).Pairwise S := by
  have hi : ∀ (a : α) (ys : List α),ys.Pairwise S → (ys.orderedInsert R a).Pairwise S := by
    intro a ys
    induction ys with
    | nil => intro _; simp
    | cons b ys ih =>
      intro hys
      rw [pairwise_cons] at hys
      rw [orderedInsert_cons]
      split_ifs with hab
      · refine pairwise_cons.mpr ⟨?_,pairwise_cons.mpr hys⟩
        intro c hc
        obtain rfl | hc := mem_cons.mp hc
        · exact hpos a c hab
        · exact ht a b c (hpos a b hab) (hys.1 c hc)
      · refine pairwise_cons.mpr ⟨?_,ih hys.2⟩
        intro c hc
        obtain rfl | hc := (mem_orderedInsert R).mp hc
        · exact hn c b hab
        · exact hys.1 c hc
  induction xs with
  | nil => exact Pairwise.nil
  | cons x xs ih => exact hi x _ ih

section

variable [LinearOrder κ]

/- The smaller key first; equal keys leave it to `next`. -/
def lexLess (key : α → κ) (next : α → α → Bool) (a b : α) : Bool :=
  if key a≠key b then decide (key a<key b) else next a b

variable {key : α → κ} (next : α → α → Bool)

theorem lexLess_of_lt (h : key a<key b) : lexLess key next a b := by
  rw [lexLess,if_pos (ne_of_lt h)]
  exact decide_eq_true h

theorem lexLess_of_gt (h : key b<key a) : lexLess key next a b=false := by
  rw [lexLess,if_pos (ne_of_gt h)]
  exact decide_eq_false (not_lt_of_gt h)

theorem lexLess_of_eq (h : key a=key b) : lexLess key next a b=next a b := by
  rw [lexLess,if_neg (not_not.mpr h)]

theorem lexLess_iff (key : α → κ) (next : α → α → Bool) (a b : α) :
    lexLess key next a b ↔ key a<key b ∨ (key a=key b ∧ next a b) := by
  rcases lt_trichotomy (key a) (key b) with h | h | h
  · simp [lexLess_of_lt next h,h]
  · simp [lexLess_of_eq next h,h]
  · simp [lexLess_of_gt next h,not_lt_of_gt h,ne_of_gt h]

theorem lexLess_tie {next : α → α → Bool} (hab : lexLess key next a b=false)
    (hba : lexLess key next b a=false) : key a=key b ∧ next a b=false ∧ next b a=false := by
  rcases lt_trichotomy (key a) (key b) with h | h | h
  · exact absurd (hab.symm.trans (lexLess_of_lt next h)) (by decide)
  · rw [lexLess_of_eq next h] at hab
    rw [lexLess_of_eq next h.symm] at hba
    exact ⟨h,hab,hba⟩
  · exact absurd (hba.symm.trans (lexLess_of_lt next h)) (by decide)

theorem strictWeak_lexLess (key : α → κ) {next : α → α → Bool} (h : StrictWeak next) :
    StrictWeak (lexLess key next) := by
  constructor
  · intro a b hab
    rcases (lexLess_iff key next a b).mp hab with hlt | ⟨heq,hn⟩
    · exact lexLess_of_gt next hlt
    · rw [lexLess_of_eq next heq.symm]
      exact h.asymm a b hn
  · intro a b c hac
    simp only [lexLess_iff] at hac ⊢
    rcases hac with hlt | ⟨heq,hn⟩
    · rcases lt_trichotomy (key a) (key b) with hab | hab | hab
      · exact .inl (.inl hab)
      · exact .inr (.inl (hab ▸ hlt))
      · exact .inr (.inl (hab.trans hlt))
    · rcases lt_trichotomy (key a) (key b) with hab | hab | hab
      · exact .inl (.inl hab)
      · rcases h.cotrans a b c hn with hn | hn
        · exact .inl (.inr ⟨hab,hn⟩)
        · exact .inr (.inr ⟨hab.symm.trans heq,hn⟩)
      · exact .inr (.inl (heq ▸ hab))

/- A flag that only one of two elements has, which puts that one last. -/
theorem lexLess_bool (key : α → Bool) (next : α → α → Bool) (a b : α) :
    lexLess key next a b=if key a≠key b then !key a else next a b := by
  unfold lexLess
  cases key a <;> cases key b <;> rfl

theorem lexLess_dual (key : α → κ) (next : α → α → Bool) (a b : α) :
    lexLess (fun x => OrderDual.toDual (key x)) next a b =
      if key a≠key b then decide (key a > key b) else next a b := rfl

end

/- An element that is missing stands first. -/
def optionLess (less : α → α → Bool) : Option α → Option α → Bool
  | some a,some b => less a b
  | none,some _ => true
  | _,none => false

theorem StrictWeak.option (h : StrictWeak less) : StrictWeak (optionLess less) := by
  constructor
  · intro a b hab
    cases a with
    | none => cases b <;> rfl
    | some a =>
      cases b with
      | none => cases hab
      | some b => exact h.asymm a b hab
  · intro a b c hac
    cases c with
    | none => cases a <;> cases hac
    | some c =>
      cases b with
      | none => exact .inr rfl
      | some b =>
        cases a with
        | none => exact .inl rfl
        | some a => exact h.cotrans a b c hac

section

variable {xs ys : List α}

theorem stableSort_perm (less : α → α → Bool) (xs : List α) : (stableSort less xs).Perm xs :=
  perm_insertionSort _ xs

theorem sortedBy_stableSort (h : StrictWeak less) (xs : List α) : SortedBy less xs (stableSort less xs) := by
  have : Std.Total (NotAfter less) := ⟨h.notAfter_total⟩
  have : IsTrans α (NotAfter less) := ⟨fun _ _ _ => h.notAfter_trans⟩
  exact ⟨stableSort_perm less xs,pairwise_insertionSort _ xs⟩

theorem pair_sublist_stableSort (hab : NotAfter less a b) (hsub : [a,b].Sublist xs) :
    [a,b].Sublist (stableSort less xs) :=
  pair_sublist_insertionSort hab hsub

theorem SortedBy.take_drop (h : SortedBy less xs ys) {n : Nat} (ha : a∈ys.take n)
    (hb : b∈ys.drop n) : NotAfter less a b := by
  have hsrt:=h.sorted
  rw [← take_append_drop n ys] at hsrt
  exact (pairwise_append.mp hsrt).2.2 a ha b hb

variable {rel : α → α → Prop}

theorem pairwise_mem_cases (h : ys.Pairwise rel) (ha : a∈ys) (hb : b∈ys) : a=b ∨ rel a b ∨ rel b a := by
  have hf : ys.Pairwise fun x y => x=y ∨ rel x y ∨ rel y x :=
    h.imp fun hxy => .inr (.inl hxy)
  have hbackward : ys.Pairwise fun x y => y=x ∨ rel y x ∨ rel x y :=
    h.imp fun hxy => .inr (.inr hxy)
  refine hf.forall_of_forall_of_flip ?_ hbackward ha hb
  intro x _
  exact .inl rfl

theorem SortedBy.rel_of_less (hl : StrictWeak less) (h : SortedBy less xs ys)
    (hr : ys.Pairwise rel) (ha : a∈xs) (hb : b∈xs) (hab : less a b) : rel a b := by
  rcases pairwise_mem_cases (h.sorted.and hr) (h.perm.mem_iff.mpr ha) (h.perm.mem_iff.mpr hb) with heq | ho | ho
  · rw [heq,hl.irrefl b] at hab
    cases hab
  · exact ho.2
  · exact absurd (ho.1.symm.trans hab) (by decide)

theorem SortedBy.pairwise_not_iff (hl : StrictWeak less)
    (ht : ∀ a b,less a b=false → less b a=false → a=b) (h : SortedBy less xs ys) (hi : ∀ a,¬rel a a) :
    (ys.Pairwise fun a b => ¬rel b a) ↔ ∀ a∈xs,∀ b∈xs,less a b → ¬rel b a := by
  constructor
  · intro hr a ha b hb hab
    exact h.rel_of_less hl hr ha hb hab
  · intro hall
    refine h.sorted.imp_of_mem ?_
    intro a b ha hb hab
    cases hlt : less a b with
    | true => exact hall a (h.perm.mem_iff.mp ha) b (h.perm.mem_iff.mp hb) hlt
    | false =>
      rw [ht a b hlt hab]
      exact hi b

end

end Kruise.Lib.Sorting
