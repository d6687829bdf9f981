import Kruise.Lib.Counting

/-!
# Growing a set along shared keys

A set of names grows by the nodes that share a key with a node in it. With one round for every
node the loop ends in a closed set.
-/

namespace Kruise.Lib.Sharing

open List

variable {ν κ : Type} {nodes : List (ν × List κ)} {chosen fresh : List ν} {keys : List κ}

def Share (m n : ν × List κ) : Prop := ∃ k∈m.2,k∈n.2

def Closed (nodes : List (ν × List κ)) (names : List ν) : Prop :=
  ∀ m∈nodes,m.1∈names → ∀ n∈nodes,Share m n → n.1∈names

structure Grown (nodes : List (ν × List κ)) (chosen fresh : List ν) (keys : List κ) : Prop where
  met : ∀ n∈nodes,n.1∈chosen → n.1∉fresh → ∀ k∈n.2,k∈keys
  apart : ∀ n∈nodes,n.1∉chosen → ∀ k∈n.2,k∉keys
  origin : ∀ k∈keys,∃ n∈nodes,n.1∈chosen ∧ k∈n.2
  fresh : ∀ v∈fresh,v∈chosen

theorem Grown.start (nodes : List (ν × List κ)) (base : List ν) : Grown nodes base base [] :=
  ⟨fun _ _ hin ho => absurd hin ho,fun _ _ _ _ _ => not_mem_nil,by simp,fun _ h => h⟩

theorem Grown.closed (h : Grown nodes chosen [] keys) : Closed nodes chosen := by
  intro m hm hin n hn hsh
  obtain ⟨k,hkm,hkn⟩ := hsh
  have hk:=h.met m hm hin not_mem_nil k hkm
  by_contra ho
  exact h.apart n hn ho k hkn hk

variable [DecidableEq ν]

def keysOf (nodes : List (ν × List κ)) (names : List ν) : List κ :=
  (nodes.filter fun n => n.1∈names).flatMap Prod.snd

theorem mem_keysOf {nodes : List (ν × List κ)} {names : List ν} {k : κ} :
    k∈keysOf nodes names ↔ ∃ n∈nodes,n.1∈names ∧ k∈n.2 := by
  unfold keysOf
  simp only [mem_flatMap,mem_filter,decide_eq_true_eq,and_assoc]

theorem Grown.origin_round (h : Grown nodes chosen fresh keys) :
    ∀ k∈keys++keysOf nodes fresh,∃ n∈nodes,n.1∈chosen ∧ k∈n.2 := by
  intro k hk
  rcases mem_append.mp hk with ho | hnew
  · exact h.origin k ho
  · obtain ⟨n,hn,hf,hkey⟩ := mem_keysOf.mp hnew
    exact ⟨n,hn,h.fresh n.1 hf,hkey⟩

def outside (nodes : List (ν × List κ)) (chosen : List ν) : Nat :=
  nodes.countP fun n => n.1∉chosen

theorem outside_append_lt {added : List ν} {n : ν × List κ} (hn : n∈nodes) (ho : n.1∉chosen) (ha : n.1∈added) :
    outside nodes (chosen++added)<outside nodes chosen := by
  refine Counting.countP_lt_countP ?_ hn ?_ ?_
  · intro m _ hm
    simp only [mem_append,not_or,decide_eq_true_eq] at hm ⊢
    exact hm.1
  · simp [ha]
  · simp [ho]

variable [DecidableEq κ]

def newlyShared (nodes : List (ν × List κ)) (keys : List κ) (chosen : List ν) : List ν :=
  (nodes.filter fun n => n.1∉chosen ∧ n.2.any (· ∈ keys)).map Prod.fst

/- One round for each unit of fuel; `fresh` are the names of the last round. -/
def grow (nodes : List (ν × List κ)) : Nat → List ν → List ν → List κ → List ν
  | 0,chosen,_,_ => chosen
  | fuel+1,chosen,fresh,keys =>
    if fresh=[] then chosen
    else
      let keys:=keys++keysOf nodes fresh
      let added:=newlyShared nodes keys chosen
      grow nodes fuel (chosen++added) added keys

def closure (nodes : List (ν × List κ)) (base : List ν) : List ν :=
  grow nodes (nodes.length+2) base base []

variable {v : ν}

theorem mem_newlyShared {nodes : List (ν × List κ)} {keys : List κ} {chosen : List ν} :
    v∈newlyShared nodes keys chosen ↔ v∉chosen ∧ ∃ n∈nodes,n.1=v ∧ ∃ k∈n.2,k∈keys := by
  unfold newlyShared
  simp only [mem_map,mem_filter,decide_eq_true_eq,any_eq_true]
  constructor
  · intro h
    obtain ⟨n,⟨hn,hf,k,hk,hkeys⟩,rfl⟩ := h
    exact ⟨hf,n,hn,rfl,k,hk,hkeys⟩
  · intro h
    obtain ⟨hf,n,hn,rfl,k,hk,hkeys⟩ := h
    exact ⟨n,⟨hn,hf,k,hk,hkeys⟩,rfl⟩

theorem Grown.round (h : Grown nodes chosen fresh keys) :
    let keys' := keys++keysOf nodes fresh
    let added:=newlyShared nodes keys' chosen
    Grown nodes (chosen++added) added keys' := by
  constructor
  · intro n hn hin ho k hk
    have hold : n.1∈chosen := (mem_append.mp hin).resolve_right ho
    by_cases hf : n.1∈fresh
    · exact mem_append_right _ (mem_keysOf.mpr ⟨n,hn,hf,hk⟩)
    · exact mem_append_left _ (h.met n hn hold hf k hk)
  · intro n hn ho k hk hkey
    have hcho : n.1∉chosen := fun hin => ho (mem_append_left _ hin)
    exact ho (mem_append_right _ (mem_newlyShared.mpr ⟨hcho,n,hn,rfl,k,hk,hkey⟩))
  · intro k hk
    obtain ⟨n,hn,hin,hkey⟩ := h.origin_round k hk
    exact ⟨n,hn,mem_append_left _ hin,hkey⟩
  · intro v hv
    exact mem_append_right _ hv

theorem mem_grow (fuel : Nat) (hv : v∈chosen) : v∈grow nodes fuel chosen fresh keys := by
  induction fuel generalizing chosen fresh keys with
  | zero => exact hv
  | succ fuel ih =>
    unfold grow
    split_ifs
    · exact hv
    · exact ih (mem_append_left _ hv)

section

variable {P : ν → Prop} (hstep : ∀ m∈nodes,P m.1 → ∀ n∈nodes,Share m n → P n.1)
include hstep

theorem grow_induction (fuel : Nat) (h : Grown nodes chosen fresh keys) (hc : ∀ u∈chosen,P u) :
    ∀ u∈grow nodes fuel chosen fresh keys,P u := by
  induction fuel generalizing chosen fresh keys with
  | zero => exact hc
  | succ fuel ih =>
    unfold grow
    split_ifs
    · exact hc
    · refine ih h.round (forall_mem_append.mpr ⟨hc,fun u hu => ?_⟩)
      obtain ⟨-,n,hn,rfl,k,hk,hkey⟩ := mem_newlyShared.mp hu
      obtain ⟨m,hm,hin,hkm⟩ := h.origin_round k hkey
      exact hstep m hm (hc m.1 hin) n hn ⟨k,hkm,hk⟩

/-- What holds of the base and passes on to a node that shares a key holds of all of the closure. -/
theorem closure_induction {base : List ν} (hbase : ∀ u∈base,P u) : ∀ u∈closure nodes base,P u :=
  grow_induction hstep _ (Grown.start nodes base) hbase

end

theorem grow_closed (fuel : Nat) (h : Grown nodes chosen fresh keys)
    (hf : outside nodes chosen+2≤fuel ∨ (fresh=[] ∧ 1≤fuel)) :
    Closed nodes (grow nodes fuel chosen fresh keys) := by
  induction fuel generalizing chosen fresh keys with
  | zero => omega
  | succ fuel ih =>
    unfold grow
    split_ifs with he
    · subst he
      exact h.closed
    · have hbd:=hf.resolve_right fun hd => he hd.1
      refine ih h.round ?_
      by_cases ha : newlyShared nodes (keys++keysOf nodes fresh) chosen=[]
      · exact .inr ⟨ha,by omega⟩
      · obtain ⟨v,hv⟩ := exists_mem_of_ne_nil _ ha
        obtain ⟨ho,n,hn,rfl,-⟩ := mem_newlyShared.mp hv
        have hl:=outside_append_lt hn ho hv
        exact .inl (by omega)

theorem mem_closure_of_mem {base : List ν} (hv : v∈base) : v∈closure nodes base :=
  mem_grow _ hv

theorem closure_closed (nodes : List (ν × List κ)) (base : List ν) : Closed nodes (closure nodes base) := by
  refine grow_closed _ (Grown.start nodes base) (.inl ?_)
  have hle : outside nodes base≤nodes.length := countP_le_length
  omega

end Kruise.Lib.Sharing
