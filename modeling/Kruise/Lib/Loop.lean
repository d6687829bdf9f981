import Mathlib.Algebra.Order.BigOperators.Group.List
import Mathlib.Algebra.Ring.Int.Defs

/-!
# Loops that may end early

A step goes on, leaves the loop, or returns from the function around it. What a loop establishes
follows from what a step that goes on keeps and a step that ends it gives.
-/

namespace Kruise.Lib.Loop

open List

variable {α σ ε : Type}

inductive Flow (ε : Type)
  | go
  | leave
  | done (result : ε)

def runLoop (step : α → σ → σ × Flow ε) : List α → σ → σ × Flow ε
  | [],s => (s,.go)
  | a::as,s =>
    match step a s with
    | (s,.go) => runLoop step as s
    | (s,.leave) => (s,.leave)
    | (s,.done e) => (s,.done e)

def After (next : σ → Prop) (ended : σ → Flow ε → Prop) (r : σ × Flow ε) : Prop :=
  match r.2 with
  | .go => next r.1
  | f => ended r.1 f

variable {ended : σ → Flow ε → Prop} {step : α → σ → σ × Flow ε} {r : σ × Flow ε}

theorem After.of_go {next : σ → Prop} (hr : r.2=.go) (h : next r.1) : After next ended r := by
  unfold After
  rw [hr]
  exact h

theorem After.of_done {next : σ → Prop} {e : ε} (hr : r.2=.done e) (h : ended r.1 (.done e)) :
    After next ended r := by
  unfold After
  rw [hr]
  exact h

variable {ended' : σ → Flow ε → Prop}

theorem After.mono {next next' : σ → Prop} (h : After next ended r)
    (hn : ∀ s,next s → next' s) (he : ∀ s f,ended s f → ended' s f) : After next' ended' r := by
  rcases r with ⟨s,_ | _ | e⟩
  · exact hn s h
  · exact he s .leave h
  · exact he s (.done e) h

theorem After.always {P : σ → Prop} : After P (fun s _ => P s) r ↔ P r.1 := by
  rcases r with ⟨s,_ | _ | e⟩ <;> rfl

variable (inv : List α → σ → Prop) {xs : List α} {s : σ}

/- `inv` is about the elements that are done, `ended` about a loop that ended early. -/
theorem runLoop_rule (ended : σ → Flow ε → Prop) (hinit : inv [] s)
    (hstep : ∀ pre a post t,xs=pre++a::post → inv pre t → After (inv (pre++[a])) ended (step a t)) :
    After (inv xs) ended (runLoop step xs s) := by
  have hf : ∀ post pre t,xs=pre++post → inv pre t → After (inv xs) ended (runLoop step post t) := by
    intro post
    induction post with
    | nil =>
      intro pre t hxs hi
      rw [append_nil] at hxs
      rw [hxs]
      exact hi
    | cons a post ih =>
      intro pre t hxs hi
      have hn:=hstep pre a post t hxs hi
      unfold runLoop
      rcases hr : step a t with ⟨t',flow⟩
      rw [hr] at hn
      cases flow with
      | go => exact ih (pre++[a]) t' (by rw [hxs,append_assoc]; rfl) hn
      | leave => exact hn
      | done e => exact hn
  exact hf xs [] s rfl hinit

/- The code after a loop runs unless the loop returned. -/
def andThen (r : σ × Flow ε) (rest : σ → σ × Flow ε) : σ × Flow ε :=
  match r with
  | (s,.done e) => (s,.done e)
  | (s,_) => rest s

theorem After.andThen {mid next : σ → Prop} {rest : σ → σ × Flow ε} (h : After mid ended r)
    (hlv : ∀ s,ended s .leave → mid s) (hd : ∀ s e,ended s (.done e) → ended' s (.done e))
    (hr : ∀ s,mid s → After next ended' (rest s)) : After next ended' (andThen r rest) := by
  rcases r with ⟨s,_ | _ | e⟩
  · exact hr s h
  · exact hr s (hlv s h)
  · exact hd s e h

theorem runLoop_keeps (P : σ → Prop) (hi : P s) (hstep : ∀ a∈xs,∀ t,P t → P (step a t).1) :
    After P (fun t _ => P t) (runLoop step xs s) := by
  refine runLoop_rule (fun _ => P) (fun t _ => P t) hi ?_
  intro pre a post t hxs hP
  have hm : a∈xs := by
    rw [hxs]
    exact mem_append_right pre mem_cons_self
  exact After.always.mpr (hstep a hm t hP)

theorem runLoop_avoids (P : σ → Prop) {e : ε} (xs : List α) (hi : P s)
    (hstep : ∀ a∈xs,∀ t,P t → P (step a t).1 ∧ (step a t).2≠.done e) :
    After P (fun t flow => P t ∧ flow≠.done e) (runLoop step xs s) := by
  refine runLoop_rule (fun _ => P) _ hi ?_
  intro pre a post t hxs hP
  have hm : a∈xs := by
    rw [hxs]
    exact mem_append_right pre mem_cons_self
  have hn:=hstep a hm t hP
  rcases hr : step a t with ⟨t',_ | _ | _⟩ <;> rw [hr] at hn
  · exact hn.1
  · exact hn
  · exact hn

def Flow.isGo : Flow ε → Bool
  | .go => true
  | _ => false

def Flow.isDone : Flow ε → Bool
  | .done _ => true
  | _ => false

/- The elements a loop deals with whose turns end as the flow says. -/
def upTo (flow : α → Flow ε) : List α → List α
  | [] => []
  | a::as =>
    a::match flow a with
      | .go => upTo flow as
      | _ => []

/- A loop whose turns end as the flow says, as long as they end well: `R` holds of the elements dealt
with, `inv` where the loop goes on. -/
theorem runLoop_upTo {bad : ε} (R : List α → σ → Prop) (flow : α → Flow ε) (hi : inv [] s) (hr : R [] s)
    (hstep : ∀ pre a post t,xs=pre++a::post → inv pre t → R pre t → (step a t).2≠.done bad →
      (step a t).2=flow a ∧ R (pre++[a]) (step a t).1 ∧ ((step a t).2=.go → inv (pre++[a]) (step a t).1))
    (he : (runLoop step xs s).2≠.done bad) :
    R (upTo flow xs) (runLoop step xs s).1 ∧
      (runLoop step xs s).2.isDone=(upTo flow xs).any fun a => (flow a).isDone := by
  have hf : ∀ post pre t,xs=pre++post → inv pre t → R pre t → (runLoop step post t).2≠.done bad →
      R (pre++upTo flow post) (runLoop step post t).1 ∧
        (runLoop step post t).2.isDone=(upTo flow post).any fun a => (flow a).isDone := by
    intro post
    induction post with
    | nil =>
      intro pre t _ _ hR _
      exact ⟨by rw [upTo,append_nil]; exact hR,rfl⟩
    | cons a post ih =>
      intro pre t hxs hinv hR hne
      have hn:=hstep pre a post t hxs hinv hR
      unfold runLoop at hne ⊢
      unfold upTo
      rcases hr : step a t with ⟨t',fl⟩
      rw [hr] at hn hne
      cases fl with
      | go =>
        obtain ⟨hfl,hR',hkp⟩ := hn (by simp)
        obtain ⟨hrest,hd⟩ := ih (pre++[a]) t' (by rw [hxs,append_assoc]; rfl) (hkp rfl) hR' hne
        rw [append_assoc] at hrest
        rw [any_cons,← hfl]
        exact ⟨hrest,hd⟩
      | leave | done _ =>
        obtain ⟨hfl,hR',-⟩ := hn hne
        rw [any_cons,← hfl]
        exact ⟨hR',rfl⟩
  exact hf xs [] s rfl hi hr he

theorem upTo_concat (flow : α → Flow ε) (as : List α) (a : α) :
    upTo flow (as++[a])=upTo flow as++if as.all fun b => (flow b).isGo then [a] else [] := by
  induction as with
  | nil => cases h : flow a <;> simp [upTo,h]
  | cons b as ih => cases h : flow b <;> simp [upTo,h,ih,Flow.isGo]

theorem upTo_range (flow : Nat → Flow ε) (n : Nat) :
    upTo flow (range n)=(range n).filter fun i => (range i).all fun j => (flow j).isGo := by
  induction n with
  | zero => rfl
  | succ n ih =>
    rw [range_succ,upTo_concat,ih,filter_append,filter_singleton]
    cases (range n).all fun j => (flow j).isGo <;> rfl

end Kruise.Lib.Loop
