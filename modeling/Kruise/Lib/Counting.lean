import Mathlib.Data.List.Perm.Subperm

/-!
# Counting in lists

Counts split by a second test, over keyed entries, by indexes, and bounded by ranks.
-/

namespace Kruise.Lib.Counting

open List

variable {α β : Type}

theorem countP_split (a b : α → Bool) (xs : List α) :
    xs.countP (fun x => a x&&b x)+xs.countP (fun x => !a x&&b x)=xs.countP b := by
  induction xs with
  | nil => rfl
  | cons x xs ih =>
    cases ha : a x <;> cases hb : b x <;> simp [ha,hb] <;> omega

theorem countP_split_int (a b : α → Bool) (xs : List α) :
    (xs.countP (fun x => a x&&b x) : Int)+xs.countP (fun x => !a x&&b x)=xs.countP b := by
  exact_mod_cast countP_split a b xs

theorem countP_lt_countP {p q : α → Bool} {xs : List α} (h : ∀ x∈xs,p x → q x)
    {x : α} (hx : x∈xs) (hp : p x=false) (hq : q x) : xs.countP p<xs.countP q := by
  obtain ⟨before,after,rfl⟩ := append_of_mem hx
  have hbef : before.countP p≤before.countP q :=
    countP_mono_left fun y hy => h y (mem_append_left _ hy)
  have ha : after.countP p≤after.countP q :=
    countP_mono_left fun y hy => h y (mem_append_right _ (mem_cons_of_mem x hy))
  rw [countP_append,countP_append,countP_cons_of_neg (by simp [hp]),countP_cons_of_pos hq]
  omega

theorem countP_le_of_nodup_keys (key : α → β) (p : α → Bool) (q : β → Bool) (xs : List α)
    (ys : List β) (hnd : (xs.map key).Nodup) (hm : ∀ x∈xs,p x → key x∈ys ∧ q (key x)) :
    xs.countP p≤ys.countP q := by
  rw [countP_eq_length_filter,countP_eq_length_filter]
  have hsub : (xs.filter p).map key ⊆ ys.filter q := by
    intro k hk
    obtain ⟨x,hx,rfl⟩ := mem_map.mp hk
    obtain ⟨hxs,hpx⟩ := mem_filter.mp hx
    exact mem_filter.mpr (hm x hxs hpx)
  have hf : ((xs.filter p).map key).Nodup :=
    hnd.sublist (List.Sublist.map key filter_sublist)
  have hl:=(hf.subperm hsub).length_le
  rwa [length_map] at hl

theorem countP_mem_comm [DecidableEq α] {xs ys : List α} (hxs : xs.Nodup) (hys : ys.Nodup) :
    xs.countP (fun x => decide (x∈ys))=ys.countP fun y => decide (y∈xs) := by
  rw [countP_eq_length_filter,countP_eq_length_filter]
  refine Perm.length_eq ((perm_ext_iff_of_nodup (hxs.filter _) (hys.filter _)).mpr ?_)
  intro a
  simp only [mem_filter,decide_eq_true_eq]
  exact and_comm

theorem countP_le_succ_of_nodup (a : α) (p q : α → Bool) (xs : List α) (hnd : xs.Nodup)
    (h : ∀ x∈xs,x≠a → p x → q x) : xs.countP p≤xs.countP q+1 := by
  induction xs with
  | nil => simp
  | cons x xs ih =>
    obtain ⟨hx,hxs⟩ := nodup_cons.mp hnd
    by_cases hxa : x=a
    · have hr : xs.countP p≤xs.countP q := by
        refine countP_mono_left ?_
        intro y hy
        refine h y (mem_cons_of_mem x hy) ?_
        rintro rfl
        exact hx (hxa ▸ hy)
      rw [countP_cons,countP_cons]
      split_ifs <;> omega
    · have hr:=ih hxs fun y hy => h y (mem_cons_of_mem x hy)
      have hh:=h x mem_cons_self hxa
      rw [countP_cons,countP_cons]
      split_ifs with hp hq hq
      · omega
      · exact absurd (hh hp) hq
      · omega
      · omega

theorem filterMap_range_get (xs : List α) : (range xs.length).filterMap (xs[·]?)=xs := by
  induction xs with
  | nil => rfl
  | cons x xs ih =>
    rw [length_cons,range_succ_eq_map,filterMap_cons,filterMap_map]
    simpa using ih

theorem countP_range_get (p : α → Bool) (xs : List α) :
    (range xs.length).countP (fun i => (xs[i]?).any p)=xs.countP p := by
  rw [← congrArg (List.countP p) (filterMap_range_get xs),countP_filterMap]
  apply countP_congr
  intro i _
  cases xs[i]? <;> rfl

theorem index_of_range {n i : Nat} {before after : List Nat}
    (h : range n=before++i::after) : i=before.length ∧ i<n := by
  have hg : (range n)[before.length]?=some i := by
    rw [h,getElem?_append_right (Nat.le_refl _),Nat.sub_self]
    rfl
  obtain ⟨hlt,heq⟩ := List.getElem?_eq_some_iff.mp hg
  rw [getElem_range] at heq
  rw [length_range] at hlt
  omega

theorem countP_indexes_le (p : α → Bool) (xs : List α) {indexes : List Nat} (hnd : indexes.Nodup) :
    indexes.countP (fun i => (xs[i]?).any p)≤xs.countP p := by
  rw [← countP_range_get p xs]
  refine countP_le_of_nodup_keys id _ _ indexes _ (by rwa [map_id]) ?_
  intro i _ hi
  refine ⟨mem_range.mpr ?_,hi⟩
  by_contra ho
  have hn : xs[i]?=none := getElem?_eq_none (Nat.le_of_not_lt ho)
  rw [hn] at hi
  cases hi

theorem le_length_filter_not_mem_take [DecidableEq α] {xs ys : List α} (hnd : (xs++ys).Nodup)
    (n : Nat) : ys.length-(n-xs.length)≤(ys.filter (· ∉ (xs++ys).take n)).length := by
  have hk : ∀ a∈ys.drop (n-xs.length),a∉(xs++ys).take n := by
    intro a hd ht
    have hr : a∈(xs++ys).drop n := by
      rw [drop_append]
      exact mem_append_right _ hd
    exact disjoint_take_drop hnd (Nat.le_refl n) ht hr
  have ha : (ys.drop (n-xs.length)).filter (· ∉ (xs++ys).take n) =
      ys.drop (n-xs.length) := filter_eq_self.mpr (by simpa using hk)
  calc ys.length-(n-xs.length)=(ys.drop (n-xs.length)).length := length_drop.symm
    _=((ys.drop (n-xs.length)).filter (· ∉ (xs++ys).take n)).length := by rw [ha]
    _≤(ys.filter (· ∉ (xs++ys).take n)).length :=
      ((drop_sublist (n-xs.length) ys).filter _).length_le

theorem length_le_of_nodup_of_bounds (low high : Nat) {ns : List Nat} (hnd : ns.Nodup)
    (hbds : ∀ n∈ns,low≤n ∧ n<high) : ns.length≤high-low := by
  have hsub : ns ⊆ range' low (high-low) := by
    intro n hn
    have := hbds n hn
    exact mem_range'_1.mpr (by omega)
  calc ns.length≤(range' low (high-low)).length := (hnd.subperm hsub).length_le
    _=high-low := length_range'

section

variable [DecidableEq β] {group : α → β} {rank : α → Nat} {xs taken rest : List α}

theorem countP_rest_le_of_cut (hperm : (taken++rest).Perm xs)
    (hranks : ∀ g,((xs.filter (group · = g)).map rank).Perm (range (xs.countP (group · = g))))
    (hcut : ∀ a∈taken,∀ b∈rest,rank b≤rank a) {n : β} (hlost : 0<taken.countP (group · = n)) (m : β) :
    rest.countP (group · = m)≤rest.countP (group · = n)+1 := by
  have hspl (g : β) : ((taken.filter (group · = g)).map rank ++
      (rest.filter (group · = g)).map rank).Perm (range (xs.countP (group · = g))) := by
    rw [← map_append,← filter_append]
    exact ((hperm.filter _).map rank).trans (hranks g)
  have hnd (g : β) := (hspl g).nodup_iff.mpr nodup_range
  have hcnt : xs.countP (group · = n)=taken.countP (group · = n)+rest.countP (group · = n) := by
    rw [← hperm.countP_eq,countP_append]
  -- the ranks that are left on `m` are distinct and no higher than any rank that was cut off
  have hl : ∀ a∈taken,rest.countP (group · = m)≤rank a+1 := by
    intro a ha
    have hlen:=length_le_of_nodup_of_bounds 0 (rank a+1) (nodup_append.mp (hnd m)).2.1
    rw [length_map,← countP_eq_length_filter] at hlen
    refine hlen ?_
    intro r hr
    obtain ⟨b,hb,rfl⟩ := mem_map.mp hr
    have := hcut a ha b (mem_of_mem_filter hb)
    omega
  have hcutOff:=length_le_of_nodup_of_bounds (rest.countP (group · = m)-1)
    (xs.countP (group · = n)) (nodup_append.mp (hnd n)).1
  rw [length_map,← countP_eq_length_filter] at hcutOff
  have := hcutOff ?_
  · omega
  · intro r hr
    have hran:=(hspl n).mem_iff.mp (mem_append_left _ hr)
    obtain ⟨a,ha,rfl⟩ := mem_map.mp hr
    have := hl a (mem_of_mem_filter ha)
    exact ⟨by omega,mem_range.mp hran⟩

end

end Kruise.Lib.Counting
