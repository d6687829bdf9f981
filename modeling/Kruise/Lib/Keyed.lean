import Mathlib.Data.List.AList
import Kruise.Lib.Counting

/-!
# Lists of records that carry a key

Looking up, replacing, counting and changing the record of a key, loops in which each turn reaches
only its own part of the state, and maps that a loop fills.
-/

namespace Kruise.Lib.Keyed

open Lib.Counting List Option

theorem forall_mem_concat {α : Type} {P : α → Prop} {xs : List α} {x : α} :
    (∀ y∈xs++[x],P y) ↔ (∀ y∈xs,P y) ∧ P x := by
  rw [forall_mem_append,forall_mem_singleton]

variable {α κ : Type} [DecidableEq κ]

def findKey (key : α → κ) (k : κ) (xs : List α) : Option α :=
  xs.find? fun x => key x=k

/- Puts `x` in place of the first record with its key; without one nothing changes. -/
def replaceKey (key : α → κ) (x : α) : List α → List α
  | [] => []
  | y::ys => if key y=key x then x::ys else y::replaceKey key x ys

variable (key : α → κ)

@[simp] theorem map_key_replaceKey (x : α) (xs : List α) : (replaceKey key x xs).map key=xs.map key := by
  induction xs with
  | nil => rfl
  | cons y ys ih =>
    unfold replaceKey
    by_cases h : key y=key x
    · rw [if_pos h,map_cons,map_cons,h]
    · rw [if_neg h,map_cons,map_cons,ih]

variable {key : α → κ} {xs : List α}

theorem mem_replaceKey {x y : α} (hnd : (xs.map key).Nodup) (h : y∈replaceKey key x xs) :
    y=x ∨ (y∈xs ∧ key y≠key x) := by
  induction xs with
  | nil => cases h
  | cons z zs ih =>
    rw [map_cons,nodup_cons] at hnd
    unfold replaceKey at h
    split_ifs at h with hz
    · rcases mem_cons.mp h with rfl | hm
      · exact .inl rfl
      · refine .inr ⟨mem_cons_of_mem _ hm,fun hy => hnd.1 ?_⟩
        rw [hz,← hy]
        exact mem_map_of_mem hm
    · rcases mem_cons.mp h with rfl | hm
      · exact .inr ⟨mem_cons_self,hz⟩
      · rcases ih hnd.2 hm with rfl | ⟨hy,hne⟩
        · exact .inl rfl
        · exact .inr ⟨mem_cons_of_mem _ hy,hne⟩

theorem findKey_cons (k : κ) (x : α) (xs : List α) :
    findKey key k (x::xs)=if key x=k then some x else findKey key k xs := by
  unfold findKey
  by_cases h : key x=k <;> simp [h]

variable {k : κ} {x : α}

theorem findKey_some (h : findKey key k xs=some x) : x∈xs ∧ key x=k :=
  ⟨mem_of_find?_eq_some h,by simpa using find?_some h⟩

theorem findKey_isSome (h : k∈xs.map key) : ∃ x,findKey key k xs=some x := by
  obtain ⟨x,hx,hk⟩ := mem_map.mp h
  refine isSome_iff_exists.mp (find?_isSome.mpr ⟨x,hx,?_⟩)
  simpa using hk

theorem findKey_of_mem (hnd : (xs.map key).Nodup) (h : x∈xs) : findKey key (key x) xs=some x := by
  obtain ⟨y,hy⟩ := findKey_isSome (mem_map_of_mem (f := key) h)
  obtain ⟨hm,hk⟩ := findKey_some hy
  rw [hy,inj_on_of_nodup_map hnd hm h hk]

theorem filter_key (hnd : (xs.map key).Nodup) : (xs.filter fun x => key x=k)=(findKey key k xs).toList := by
  induction xs with
  | nil => rfl
  | cons x xs ih =>
    rw [map_cons,nodup_cons] at hnd
    rw [findKey_cons]
    by_cases hx : key x=k
    · have hr : (xs.filter fun y => key y=k)=[] := by
        refine filter_eq_nil_iff.mpr ?_
        intro y hy hk
        rw [hx,← of_decide_eq_true hk] at hnd
        exact hnd.1 (mem_map_of_mem hy)
      rw [if_pos hx,filter_cons_of_pos (by simp [hx]),hr]
      rfl
    · rw [if_neg hx,filter_cons_of_neg (by simp [hx])]
      exact ih hnd.2

theorem countP_without_key (hnd : (xs.map key).Nodup) (hx : x∈xs) (p : α → Bool) :
    xs.countP (fun y => !decide (key y=key x)&&p y)+(p x).toNat=xs.countP p := by
  have hself : xs.countP (fun y => decide (key y=key x)&&p y)=(p x).toNat := by
    have hf:=filter_key (k := key x) hnd
    rw [findKey_of_mem hnd hx] at hf
    have hcnt : (xs.filter fun y => key y=key x).countP p=(p x).toNat := by
      rw [hf]
      cases hp : p x <;> simp [hp]
    rw [← hcnt,countP_filter]
    apply countP_congr
    intro y _
    rw [Bool.and_comm]
  have hspl:=countP_split (fun y => decide (key y=key x)) p xs
  omega

theorem findKey_replaceKey_self (h : key x∈xs.map key) : findKey key (key x) (replaceKey key x xs)=some x := by
  induction xs with
  | nil => cases h
  | cons y ys ih =>
    unfold replaceKey
    by_cases hy : key y=key x
    · rw [if_pos hy,findKey_cons,if_pos rfl]
    · rw [if_neg hy,findKey_cons,if_neg hy]
      refine ih ((mem_cons.mp h).resolve_left ?_)
      exact fun hx => hy hx.symm

theorem findKey_replaceKey_of_ne {key : α → κ} {x : α} {k : κ} (hk : k≠key x) (xs : List α) :
    findKey key k (replaceKey key x xs)=findKey key k xs := by
  induction xs with
  | nil => rfl
  | cons y ys ih =>
    unfold replaceKey
    by_cases hy : key y=key x
    · have hyk : key y≠k := fun h => hk (h.symm.trans hy)
      rw [if_pos hy,findKey_cons,findKey_cons,if_neg hk.symm,if_neg hyk]
    · rw [if_neg hy,findKey_cons,findKey_cons,ih]

theorem mem_replaceKey_iff {x y : α} (hnd : (xs.map key).Nodup) (hx : key x∈xs.map key) :
    y∈replaceKey key x xs ↔ y=x ∨ (y∈xs ∧ key y≠key x) := by
  constructor
  · exact mem_replaceKey hnd
  · rintro (rfl | ⟨hy,hne⟩)
    · exact (findKey_some (findKey_replaceKey_self hx)).1
    · have hf:=findKey_of_mem hnd hy
      rw [← findKey_replaceKey_of_ne hne] at hf
      exact (findKey_some hf).1

theorem findKey_eq_none (h : k∉xs.map key) : findKey key k xs=none := by
  refine find?_eq_none.mpr ?_
  intro x hx hk
  exact h (mem_map.mpr ⟨x,hx,of_decide_eq_true hk⟩)

theorem findKey_filter_self (key : α → κ) (k : κ) (xs : List α) :
    findKey key k (xs.filter fun x => key x≠k)=none := by
  refine findKey_eq_none ?_
  intro hm
  obtain ⟨x,hx,hk⟩ := mem_map.mp hm
  exact of_decide_eq_true (mem_filter.mp hx).2 hk

theorem findKey_filter_of_ne {k k' : κ} (h : k≠k') (xs : List α) :
    findKey key k (xs.filter fun x => key x≠k')=findKey key k xs := by
  unfold findKey
  rw [find?_filter]
  congr 1
  funext x
  by_cases hx : key x=k
  · simp [hx,h]
  · simp [hx]

theorem countP_replaceKey {key : α → κ} {x y : α} {xs : List α} (p : α → Bool) (h : findKey key (key x) xs=some y) :
    (replaceKey key x xs).countP p+(if p y then 1 else 0) = xs.countP p+if p x then 1 else 0 := by
  induction xs with
  | nil => cases h
  | cons z zs ih =>
    rw [findKey_cons] at h
    unfold replaceKey
    by_cases hz : key z=key x
    · rw [if_pos hz] at h
      cases h
      rw [if_pos hz,countP_cons,countP_cons]
      omega
    · rw [if_neg hz] at h
      rw [if_neg hz,countP_cons,countP_cons]
      have hr:=ih h
      omega

/- Changes the first record with the key `k`; without one `fresh` is added. -/
def upsert (key : α → κ) (k : κ) (change : α → α) (fresh : α) : List α → List α
  | [] => [fresh]
  | x::xs => if key x=k then change x::xs else x::upsert key k change fresh xs

structure Keeps (key : α → κ) (k : κ) (change : α → α) (fresh : α) : Prop where
  change : ∀ x,key (change x)=key x
  fresh : key fresh=k

section

variable {key : α → κ} {k : κ} {change : α → α} {fresh : α}

theorem map_key_upsert (hkp : Keeps key k change fresh) (xs : List α) :
    (upsert key k change fresh xs).map key =
      if k∈xs.map key then xs.map key else xs.map key++[k] := by
  induction xs with
  | nil => simp [upsert,hkp.fresh]
  | cons x xs ih =>
    unfold upsert
    by_cases hx : key x=k
    · rw [if_pos hx,map_cons,map_cons,hkp.change,if_pos (by simp [hx])]
    · rw [if_neg hx,map_cons,map_cons,ih]
      by_cases hm : k∈xs.map key
      · rw [if_pos hm,if_pos (mem_cons_of_mem _ hm)]
      · rw [if_neg hm,if_neg (by simp [Ne.symm hx,hm]),cons_append]

variable {xs : List α}

theorem nodup_upsert (hkp : Keeps key k change fresh) (h : (xs.map key).Nodup) :
    ((upsert key k change fresh xs).map key).Nodup := by
  rw [map_key_upsert hkp]
  split_ifs with hm
  · exact h
  · refine nodup_append.mpr ⟨h,nodup_singleton k,?_⟩
    intro a ha b hb hab
    rw [hab,mem_singleton.mp hb] at ha
    exact hm ha

theorem forall_mem_upsert {p : α → Prop} (hf : p fresh) (hchg : ∀ x∈xs,p x → p (change x)) (h : ∀ x∈xs,p x) :
    ∀ x∈upsert key k change fresh xs,p x := by
  induction xs with
  | nil =>
    intro x hx
    rw [mem_singleton.mp hx]
    exact hf
  | cons y ys ih =>
    have hr:=ih (fun x hx => hchg x (mem_cons_of_mem y hx)) fun x hx => h x (mem_cons_of_mem y hx)
    intro x hx
    unfold upsert at hx
    split_ifs at hx with hy
    · rcases mem_cons.mp hx with rfl | hx
      · exact hchg y mem_cons_self (h y mem_cons_self)
      · exact h x (mem_cons_of_mem y hx)
    · rcases mem_cons.mp hx with rfl | hx
      · exact h x mem_cons_self
      · exact hr x hx

theorem filter_upsert_of_ne (hkp : Keeps key k change fresh) {k' : κ} (hk : k'≠k) (xs : List α) :
    ((upsert key k change fresh xs).filter fun x => key x=k') = xs.filter fun x => key x=k' := by
  induction xs with
  | nil => simp [upsert,hkp.fresh,Ne.symm hk]
  | cons x xs ih =>
    unfold upsert
    by_cases hx : key x=k
    · simp [hkp.change,hx,Ne.symm hk]
    · rw [if_neg hx,filter_cons,filter_cons,ih]

theorem findKey_upsert_self (hkp : Keeps key k change fresh) (xs : List α) :
    findKey key k (upsert key k change fresh xs)=some ((findKey key k xs).elim fresh change) := by
  induction xs with
  | nil => simp [upsert,hkp.fresh,findKey]
  | cons x xs ih =>
    unfold upsert
    split_ifs with hx
    · rw [findKey_cons,findKey_cons,hkp.change,if_pos hx,if_pos hx]
      rfl
    · rw [findKey_cons,findKey_cons,if_neg hx,if_neg hx,ih]

theorem filter_upsert_self (hkp : Keeps key k change fresh) (h : (xs.map key).Nodup) :
    ((upsert key k change fresh xs).filter fun x => key x=k) = [(findKey key k xs).elim fresh change] := by
  rw [filter_key (nodup_upsert hkp h),findKey_upsert_self hkp]
  rfl

end

section

variable {σ : Type} (f : σ → α → σ) (inv : σ → Prop) (same : σ → σ → Prop) {xs : List α}

theorem foldl_same (hr : ∀ s,same s s) (htrans : ∀ s t u,same s t → same t u → same s u)
    (ht : ∀ x∈xs,∀ s,inv s → inv (f s x) ∧ same s (f s x)) {s : σ} (hs : inv s) :
    inv (xs.foldl f s) ∧ same s (xs.foldl f s) := by
  induction xs generalizing s with
  | nil => exact ⟨hs,hr s⟩
  | cons x xs ih =>
    obtain ⟨hi,hsame⟩ := ht x mem_cons_self s hs
    obtain ⟨hi',hsame'⟩ := ih (fun y hy => ht y (mem_cons_of_mem x hy)) hi
    exact ⟨hi',htrans s _ _ hsame hsame'⟩

/-- When the elements are apart, and a turn leaves alone what `same` compares unless it is that of
`x`, the loop does to it what the turn of `x` does. -/
theorem foldl_one_turn (hr : ∀ s,same s s) (ht : ∀ s t u,same s t → same t u → same s u)
    {apart : α → α → Prop} (hsymm : ∀ x y,apart x y → apart y x) (hap : xs.Pairwise apart) (hx : x∈xs)
    (hi : ∀ y∈xs,∀ s,inv s → inv (f s y))
    (hturn : ∀ y∈xs,apart x y → ∀ s,inv s → same s (f s y)) {s : σ} (hs : inv s) :
    ∃ t,inv t ∧ same s t ∧ same (f t x) (xs.foldl f s) := by
  obtain ⟨before,after,rfl⟩ := append_of_mem hx
  obtain ⟨-,ha,hbef⟩ := pairwise_append.mp hap
  have hturn_before : ∀ y∈before,∀ s,inv s → inv (f s y) ∧ same s (f s y) := by
    intro y hy s hs
    have hmem:=mem_append_left (x::after) hy
    have hxy:=hsymm y x (hbef y hy x mem_cons_self)
    exact ⟨hi y hmem s hs,hturn y hmem hxy s hs⟩
  have hturn_after : ∀ y∈after,∀ s,inv s → inv (f s y) ∧ same s (f s y) := by
    intro y hy s hs
    have hmem:=mem_append_right before (mem_cons_of_mem x hy)
    have hxy:=(pairwise_cons.mp ha).1 y hy
    exact ⟨hi y hmem s hs,hturn y hmem hxy s hs⟩
  obtain ⟨hm,hsame⟩ := foldl_same f inv same hr ht hturn_before hs
  have hrest:=foldl_same f inv same hr ht hturn_after (hi x hx _ hm)
  refine ⟨before.foldl f s,hm,hsame,?_⟩
  rw [foldl_append,foldl_cons]
  exact hrest.2

/- A loop that may fail, whose turns all succeed and keep an invariant. -/
theorem foldlM_invariant {f : σ → α → Option σ}
    (hstep : ∀ s,inv s → ∀ x∈xs,∃ s',f s x=some s' ∧ inv s') {s : σ} (hs : inv s) :
    ∃ s',xs.foldlM f s=some s' ∧ inv s' := by
  induction xs generalizing s with
  | nil => exact ⟨s,rfl,hs⟩
  | cons x xs ih =>
    obtain ⟨s',hf,hs'⟩ := hstep s hs x mem_cons_self
    have hr (s : σ) (hs : inv s) (y : α) (hy : y∈xs) : ∃ s',f s y=some s' ∧ inv s' :=
      hstep s hs y (mem_cons_of_mem x hy)
    obtain ⟨s'',hl,hs''⟩ := ih hr hs'
    refine ⟨s'',?_,hs''⟩
    rw [foldlM_cons,hf]
    exact hl

end

section

variable {β : Type} (key : α → κ) (val : α → Option β)

def fill (xs : List α) (m : AList fun _ : κ => β) : AList fun _ : κ => β :=
  xs.foldl (fun m x => match val x with
    | some v => m.insert (key x) v
    | none => m) m

def entryOf (x : α) : Option (Sigma fun _ : κ => β) := (val x).map (Sigma.mk (key x))

variable {xs : List α}

variable (hnd : (xs.map key).Nodup)
include hnd

theorem entries_fill {m : AList fun _ : κ => β} (hf : ∀ x∈xs,key x∉m) :
    (fill key val xs m).entries=(xs.filterMap (entryOf key val)).reverse++m.entries := by
  induction xs generalizing m with
  | nil => rfl
  | cons x xs ih =>
    rw [map_cons,nodup_cons] at hnd
    have hr : ∀ y∈xs,key y∉m := fun y hy => hf y (mem_cons_of_mem x hy)
    cases hval : val x with
    | none =>
      have hstep : fill key val (x::xs) m=fill key val xs m := by
        simp [fill,hval]
      rw [hstep,ih hnd.2 hr]
      simp [entryOf,hval]
    | some v =>
      have hstep : fill key val (x::xs) m=fill key val xs (m.insert (key x) v) := by
        simp [fill,hval]
      have hf' : ∀ y∈xs,key y∉m.insert (key x) v := by
        intro y hy hm
        rcases (AList.mem_insert m).mp hm with heq | ho
        · exact hnd.1 (heq ▸ mem_map_of_mem hy)
        · exact hr y hy ho
      rw [hstep,ih hnd.2 hf',AList.entries_insert_of_notMem (hf x mem_cons_self)]
      simp [entryOf,hval]

theorem entries_fill_empty : (fill key val xs ∅).entries=(xs.filterMap (entryOf key val)).reverse := by
  rw [entries_fill key val hnd fun x _ => AList.notMem_empty (key x)]
  exact append_nil _

theorem lookup_fill (hx : x∈xs) : (fill key val xs ∅).lookup (key x)=val x := by
  have hm : ∀ v,(fill key val xs ∅).lookup (key x)=some v ↔ val x=some v := by
    intro v
    rw [← mem_def,AList.mem_lookup_iff,entries_fill_empty key val hnd,mem_reverse,mem_filterMap]
    constructor
    · intro h
      obtain ⟨y,hy,he⟩ := h
      obtain ⟨w,hw,heq⟩ := map_eq_some_iff.mp he
      obtain ⟨hk,hval⟩ := Sigma.mk.inj_iff.mp heq
      obtain rfl := inj_on_of_nodup_map hnd hy hx hk
      rw [hw,eq_of_heq hval]
    · intro h
      exact ⟨x,hx,map_eq_some_iff.mpr ⟨v,h,rfl⟩⟩
  exact Option.ext hm

theorem lookup_fill_of_notMem {k : κ} (hk : k∉xs.map key) : (fill key val xs ∅).lookup k=none := by
  refine eq_none_iff_forall_not_mem.mpr ?_
  intro v hv
  rw [AList.mem_lookup_iff,entries_fill_empty key val hnd,mem_reverse,mem_filterMap] at hv
  obtain ⟨x,hx,he⟩ := hv
  obtain ⟨w,-,heq⟩ := map_eq_some_iff.mp he
  exact hk (mem_map.mpr ⟨x,hx,(Sigma.mk.inj_iff.mp heq).1⟩)

end

theorem forall_update {β : Type} {table : κ → Option β} {p : κ → β → Prop}
    (h : ∀ k x,table k=some x → p k x) {entry : Option β} (he : ∀ x,entry=some x → p k x) :
    ∀ k' x,Function.update table k entry k'=some x → p k' x := by
  intro k' x hx
  by_cases hk : k'=k
  · subst hk
    rw [Function.update_self] at hx
    exact he x hx
  · rw [Function.update_of_ne hk] at hx
    exact h k' x hx

end Kruise.Lib.Keyed
