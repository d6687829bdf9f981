import Mathlib.Data.List.Basic
import Mathlib.Data.List.Pairwise

/-!
# An object and a cache that lags behind

The versions since the one in the cache are delivered in order: a reader may see an old version
but never an older one than before.
-/

namespace Kruise.Lib

open List

variable {α : Type}

structure Feed (α : Type) where
  cached : α
  pending : List α
  deriving DecidableEq

namespace Feed

def versions (f : Feed α) : List α := f.cached::f.pending

def stored (f : Feed α) : α := f.versions.getLast (List.cons_ne_nil _ _)

def write (f : Feed α) (a : α) : Feed α := ⟨f.cached,f.pending++[a]⟩

def deliver (f : Feed α) : Feed α :=
  match f.pending with
  | [] => f
  | a::rest => ⟨a,rest⟩

variable (f : Feed α)

@[simp] theorem versions_write (a : α) : (f.write a).versions=f.versions++[a] := rfl

@[simp] theorem stored_write (a : α) : (f.write a).stored=a := by
  unfold stored
  simp only [versions_write,List.getLast_append_singleton]

theorem forall_versions_write {p : α → Prop} {f : Feed α} {a : α} (hf : ∀ v∈f.versions,p v)
    (ha : p a) : ∀ v∈(f.write a).versions,p v := by
  intro v hv
  rw [versions_write,mem_append,mem_singleton] at hv
  rcases hv with ho | rfl
  · exact hf v ho
  · exact ha

theorem stored_mem : f.stored∈f.versions := List.getLast_mem _

theorem cached_mem : f.cached∈f.versions := mem_cons_self

theorem versions_deliver_suffix : f.deliver.versions <:+ f.versions := by
  obtain ⟨cached,pending⟩ := f
  cases pending with
  | nil => exact suffix_refl _
  | cons a rest => exact suffix_cons cached (a::rest)

@[simp] theorem stored_deliver : f.deliver.stored=f.stored := by
  obtain ⟨cached,pending⟩ := f
  cases pending with
  | nil => rfl
  | cons a rest => exact (List.getLast_cons (List.cons_ne_nil a rest)).symm

variable {r : α → α → Prop}

theorem pairwise_write {f : Feed α} {a : α} (hf : f.versions.Pairwise r)
    (ha : ∀ v∈f.versions,r v a) : (f.write a).versions.Pairwise r := by
  rw [versions_write,pairwise_append]
  refine ⟨hf,pairwise_singleton _ _,?_⟩
  intro v hv b hb
  rw [mem_singleton.mp hb]
  exact ha v hv

theorem rel_stored (hr : ∀ a,r a a) {f : Feed α} (hf : f.versions.Pairwise r) : ∀ v∈f.versions,r v f.stored := by
  intro v hv
  exact hf.rel_getLast_of_rel_getLast_getLast hv (hr _)

theorem rel_cached (hr : ∀ a,r a a) {f : Feed α} (hf : f.versions.Pairwise r) : ∀ v∈f.versions,r f.cached v := by
  intro v hv
  exact hf.rel_head_of_rel_head_head hv (hr _)

end Feed

end Kruise.Lib
