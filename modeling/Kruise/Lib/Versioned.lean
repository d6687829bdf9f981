import Mathlib.Data.List.Basic

/-!
# Versioned objects under optimistic concurrency

A store keeps every version, newest first. Readers hold copies of any age; a write carries the
version it was computed from and succeeds only if that is still the current one.
-/

namespace Kruise.Lib.Versioned

variable {α : Type}

structure Stored (α : Type) where
  rv : Nat
  obj : α

/- The versions are numbered downwards from the newest. -/
structure Store (α : Type) where
  versions : List (Stored α)
  nonempty : versions≠[]
  ordered : versions.Pairwise fun a b => b.rv<a.rv

def Store.current (s : Store α) : Stored α := s.versions.head s.nonempty

def Store.Copy (s : Store α) (c : Stored α) : Prop := c∈s.versions

def Store.start (a : α) : Store α :=
  ⟨[⟨1,a⟩],List.cons_ne_nil _ _,List.pairwise_singleton _ _⟩

variable (s : Store α) {c : Stored α}

theorem Store.rv_le_current (hc : s.Copy c) : c.rv ≤ s.current.rv := by
  obtain ⟨versions,hne,ho⟩ := s
  cases versions with
  | nil => exact absurd rfl hne
  | cons v vs =>
    rcases List.mem_cons.mp hc with rfl | hm
    · exact Nat.le_refl _
    · exact Nat.le_of_lt ((List.pairwise_cons.mp ho).1 c hm)

theorem Store.copy_current : s.Copy s.current := List.head_mem s.nonempty

theorem Store.eq_current_of_rv (hc : s.Copy c) (hrv : c.rv=s.current.rv) : c=s.current := by
  obtain ⟨versions,hne,ho⟩ := s
  cases versions with
  | nil => exact absurd rfl hne
  | cons v vs =>
    rcases List.mem_cons.mp hc with rfl | hm
    · rfl
    · have hlt:=(List.pairwise_cons.mp ho).1 c hm
      have hv : c.rv=v.rv := hrv
      omega

def Store.put (s : Store α) (a : α) : Store α :=
  { versions := ⟨s.current.rv+1,a⟩::s.versions
    nonempty := List.cons_ne_nil _ _
    ordered := List.pairwise_cons.mpr
      ⟨fun _ hc => Nat.lt_succ_of_le (s.rv_le_current hc),s.ordered⟩}

variable (a : α)

@[simp] theorem Store.current_put : (s.put a).current=⟨s.current.rv+1,a⟩ := rfl

@[simp] theorem Store.current_start : (Store.start a).current=⟨1,a⟩ := rfl

theorem Store.copy_put_iff (c : Stored α) :
    (s.put a).Copy c ↔ c=⟨s.current.rv+1,a⟩ ∨ s.Copy c := List.mem_cons

theorem Store.Copy.put {s : Store α} (h : s.Copy c) (a : α) : (s.put a).Copy c :=
  List.mem_cons_of_mem _ h

theorem Store.copy_start_iff (c : Stored α) : (Store.start a).Copy c ↔ c=⟨1,a⟩ :=
  List.mem_singleton

/-- An update computed from the copy `base`: refused unless `base` is current. -/
def Store.update (s : Store α) (base : Stored α) (a : α) : Option (Store α) :=
  if base.rv=s.current.rv then some (s.put a) else none

theorem Store.update_eq_some (s' : Store α) (base : Stored α) (a : α) (hbase : s.Copy base)
    (h : s.update base a=some s') : base=s.current ∧ s'=s.put a := by
  unfold Store.update at h
  split_ifs at h with hrv
  exact ⟨s.eq_current_of_rv hbase hrv,(Option.some.inj h).symm⟩

/- Every copy that is not older than version `n` agrees with the current object on `p`. A writer
that alone changes `p` and reads nothing older than its own last write sees `p` as it is. -/
def Store.AgreesSince {β : Type} (s : Store α) (n : Nat) (p : α → β) : Prop :=
  ∀ c,s.Copy c → n≤c.rv → p c.obj=p s.current.obj

theorem Store.agreesSince_start {β : Type} (n : Nat) (p : α → β) : (Store.start a).AgreesSince n p := by
  intro c hc _
  rw [(Store.copy_start_iff a c).mp hc,Store.current_start]

theorem Store.AgreesSince.put {β : Type} {s : Store α} {n : Nat} {p : α → β}
    (h : s.AgreesSince n p) {a : α} (ha : p a=p s.current.obj) : (s.put a).AgreesSince n p := by
  intro c hc hn
  rw [Store.current_put,ha]
  rcases (s.copy_put_iff a c).mp hc with rfl | ho
  · exact ha
  · exact h c ho hn

theorem Store.agreesSince_put {β : Type} (p : α → β) : (s.put a).AgreesSince (s.current.rv+1) p := by
  intro c hc hn
  rcases (s.copy_put_iff a c).mp hc with rfl | ho
  · rfl
  · have hle:=s.rv_le_current ho
    omega

def newer (a b : Stored α) : Stored α := if b.rv > a.rv then b else a

theorem newer_cases (a b : Stored α) : newer a b=a ∨ newer a b=b := by
  unfold newer
  split_ifs
  · exact .inr rfl
  · exact .inl rfl

theorem Store.copy_newer {a b : Stored α} (ha : s.Copy a) (hb : s.Copy b) : s.Copy (newer a b) := by
  rcases newer_cases a b with h | h <;> rw [h] <;> assumption

/- The first read of a retry loop: a process-wide cache or the copy at hand, or the informer's copy
if that is newer. -/
def newest (cached informer : Option (Stored α)) (held : Stored α) : Stored α :=
  let clone:=cached.getD held
  match informer with
  | none => clone
  | some i => newer clone i

theorem Store.copy_newest {s : Store α} {cached informer : Option (Stored α)} {held : Stored α}
    (hca : ∀ c,cached=some c → s.Copy c) (hinformer : ∀ c,informer=some c → s.Copy c)
    (hh : s.Copy held) : s.Copy (newest cached informer held) := by
  have hl : s.Copy (cached.getD held) := by
    cases hc : cached with
    | none => exact hh
    | some c => exact hca c hc
  cases hi : informer with
  | none => exact hl
  | some i => exact s.copy_newer hl (hinformer i hi)

/- Where a retry loop stands: about to read with `tries` attempts left, or about to write `out`,
computed from `base`. -/
inductive Phase (α β : Type)
  | reading (tries : Nat) (refresh : Bool)
  | writing (tries : Nat) (base : Stored α) (out : β)

def Store.at (s : Store α) (i : Nat) : Option (Stored α) := s.versions[i]?

theorem Store.copy_at {s : Store α} {i : Nat} (h : s.at i=some c) : s.Copy c :=
  List.mem_of_getElem? h

/- The clone of one attempt. The copies a process can hold are given by their positions. -/
def Store.clone (s : Store α) (held : Stored α) (refresh : Bool) (cached informer : Option Nat) : Stored α :=
  if refresh then s.current else newest (cached.bind s.at) (informer.bind s.at) held

theorem Store.copy_clone {s : Store α} {held : Stored α} (hh : s.Copy held) (refresh : Bool)
    (cached informer : Option Nat) : s.Copy (s.clone held refresh cached informer) := by
  have hcopy : ∀ (i : Option Nat) c,i.bind s.at=some c → s.Copy c := by
    intro i c hc
    obtain ⟨k,_,hk⟩ := Option.bind_eq_some_iff.mp hc
    exact Store.copy_at hk
  unfold Store.clone
  split_ifs
  · exact s.copy_current
  · exact Store.copy_newest (hcopy cached) (hcopy informer) hh

end Kruise.Lib.Versioned
