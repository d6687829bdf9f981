import Kruise.StatefulSet.Control

/-!
# The replicas of a StatefulSet

The range of ordinals holds as many valid ones as the set has replicas, a listed pod is at the
index of its ordinal, and every other valid ordinal gets a new pod.
-/

namespace Kruise.StatefulSet

open Util.IntStr Lib.Counting Lib.Slots Lib.Sorting List
open UpdateSort (trailingDigits)

def validBelow (set : Sts) (n : Nat) : Nat :=
  (range n).countP fun (o : Nat) => !isReserved set o

variable (set : Sts)

theorem validBelow_succ (n : Nat) : validBelow set (n+1)=validBelow set n+if isReserved set n then 0 else 1 := by
  unfold validBelow
  rw [range_succ,countP_append,countP_singleton]
  cases isReserved set n <;> rfl

def reservedFrom (set : Sts) (n : Nat) : Nat :=
  set.spec.reserveOrdinals.countP fun o => (n : Int)≤o

theorem reservedFrom_succ_le (n : Nat) : reservedFrom set (n+1)≤reservedFrom set n := by
  apply countP_mono_left
  intro o _ ho
  simp only [decide_eq_true_eq] at ho ⊢
  omega

theorem reservedFrom_succ_lt {set : Sts} {n : Nat} (h : isReserved set n) :
    reservedFrom set (n+1)<reservedFrom set n := by
  have hm : (n : Int)∈set.spec.reserveOrdinals := by simpa [isReserved] using h
  refine countP_lt_countP ?_ hm (by simp) (by simp)
  intro o _ ho
  simp only [decide_eq_true_eq] at ho ⊢
  omega

/- Every turn finds a replica or passes a reserved ordinal, so the fuel suffices. -/
theorem replicaCountLoop_spec (fuel n : Nat) (hle : validBelow set n≤(replicasOf set).toNat)
    (hfuel : (replicasOf set).toNat-validBelow set n+reservedFrom set n≤fuel) :
    validBelow set (replicaCountLoop set fuel n (validBelow set n))=(replicasOf set).toNat := by
  induction fuel generalizing n with
  | zero =>
    rw [replicaCountLoop]
    omega
  | succ fuel ih =>
    rw [replicaCountLoop]
    split_ifs with hlt hr
    · have hsucc : validBelow set (n+1)=validBelow set n := by
        rw [validBelow_succ,if_pos hr,Nat.add_zero]
      have hf:=reservedFrom_succ_lt hr
      rw [← hsucc]
      exact ih (n+1) (by omega) (by omega)
    · have hsucc : validBelow set (n+1)=validBelow set n+1 := by
        rw [validBelow_succ,if_neg hr]
      have hn:=reservedFrom_succ_le set n
      rw [← hsucc]
      exact ih (n+1) (by omega) (by omega)
    · omega

theorem validBelow_replicaCountLoop {fuel : Nat}
    (hf : (replicasOf set).toNat+set.spec.reserveOrdinals.length≤fuel) :
    validBelow set (replicaCountLoop set fuel 0 0)=(replicasOf set).toNat := by
  have hr : reservedFrom set 0 ≤ set.spec.reserveOrdinals.length := countP_le_length
  exact replicaCountLoop_spec set fuel 0 (Nat.zero_le _) (by simp only [validBelow]; omega)

theorem validBelow_replicaCountOf : validBelow set (replicaCountOf set)=(replicasOf set).toNat :=
  validBelow_replicaCountLoop set le_rfl

/- The loop leaves a number behind only while replicas are missing. -/
theorem replicaCountLoop_below (fuel n k : Nat) (hn : n≤k) (hk : k<replicaCountLoop set fuel n (validBelow set n)) :
    validBelow set k<(replicasOf set).toNat := by
  induction fuel generalizing n with
  | zero =>
    rw [replicaCountLoop] at hk
    omega
  | succ fuel ih =>
    rw [replicaCountLoop] at hk
    split_ifs at hk with hlt hr
    all_goals
      by_cases heq : k=n
      · subst heq
        omega
    · have hsucc : validBelow set (n+1)=validBelow set n := by
        rw [validBelow_succ,if_pos hr,Nat.add_zero]
      rw [← hsucc] at hk
      exact ih (n+1) (by omega) hk
    · have hsucc : validBelow set (n+1)=validBelow set n+1 := by
        rw [validBelow_succ,if_neg hr]
      rw [← hsucc] at hk
      exact ih (n+1) (by omega) hk
    · omega

theorem replicaCount_unique {n : Nat} (hn : validBelow set n=(replicasOf set).toNat)
    (hb : ∀ k<n,validBelow set k<(replicasOf set).toNat) {fuel : Nat}
    (hf : (replicasOf set).toNat+set.spec.reserveOrdinals.length≤fuel) : replicaCountLoop set fuel 0 0=n := by
  have hs:=validBelow_replicaCountLoop set hf
  rcases Nat.lt_trichotomy (replicaCountLoop set fuel 0 0) n with hlt | heq | hgt
  · have:=hb _ hlt
    omega
  · exact heq
  · have:=replicaCountLoop_below set fuel 0 n (Nat.zero_le n) hgt
    omega

/-- More turns do not change the result; it is the least number with as many ordinals below it that
are not reserved as there are replicas. Ordinals from it on may be reserved as well. -/
theorem replicaCountOf_exact :
    (∀ fuel,(replicasOf set).toNat+set.spec.reserveOrdinals.length≤fuel →
      replicaCountLoop set fuel 0 0=replicaCountOf set) ∧
    validBelow set (replicaCountOf set)=(replicasOf set).toNat ∧
    (∀ k<replicaCountOf set,validBelow set k≠(replicasOf set).toNat) ∧
    (0<replicasOf set → 0<replicaCountOf set ∧ isReserved set (replicaCountOf set-1)=false) ∧
    ∀ more : List Int,(∀ o∈more,(replicaCountOf set : Int)≤o) → replicaCountOf {set with spec := {set.spec with
        reserveOrdinals := set.spec.reserveOrdinals++more}}=replicaCountOf set := by
  have hv:=validBelow_replicaCountOf set
  have hb : ∀ k<replicaCountOf set,validBelow set k<(replicasOf set).toNat :=
    fun k hk => replicaCountLoop_below set _ 0 k (Nat.zero_le k) hk
  refine ⟨fun fuel hf => replicaCount_unique set hv hb hf,hv,fun k hk => (hb k hk).ne,?_,?_⟩
  · intro hpos
    cases hn : replicaCountOf set with
    | zero =>
      rw [hn] at hv
      simp only [validBelow,range_zero,countP_nil] at hv
      omega
    | succ n =>
      have hlt:=hb n (by omega)
      rw [hn,validBelow_succ] at hv
      refine ⟨Nat.succ_pos n,?_⟩
      rw [Nat.cast_succ,Int.add_sub_cancel]
      by_contra hr
      rw [if_pos (Bool.not_eq_false _ ▸ hr)] at hv
      omega
  · intro more hm
    have hsame : ∀ k≤replicaCountOf set,validBelow {set with spec := {set.spec with
        reserveOrdinals := set.spec.reserveOrdinals++more}} k=validBelow set k := by
      intro k hk
      refine countP_congr fun o ho => ?_
      have hlt:=mem_range.mp ho
      have hno : (o : Int)∉more := fun h => by
        have:=hm o h
        omega
      simp [isReserved,hno]
    refine replicaCount_unique _ ((hsame _ le_rfl).trans hv) ?_ le_rfl
    intro k hk
    rw [hsame k hk.le]
    exact hb k hk

theorem trailingDigits_append (base digits : String) (h : ∀ c∈digits.toList,c.isDigit) :
    trailingDigits (base ++ "-" ++ digits)=digits.toList := by
  unfold trailingDigits
  rw [String.toList_append,String.toList_append,reverse_append,
    takeWhile_append_of_pos (by simpa using h),reverse_append]
  simp

theorem splitOrdinal_append (base digits : String) (hne : digits.toList≠[]) (h : ∀ c∈digits.toList,c.isDigit) :
    splitOrdinal (base ++ "-" ++ digits)=some (base,digits.toList) := by
  have he : digits.toList.isEmpty=false := by simpa using hne
  have hd : (base ++ "-" ++ digits).toList.reverse.drop digits.toList.length = '-'::base.toList.reverse := by
    rw [String.toList_append,String.toList_append,reverse_append,reverse_append, ← length_reverse,drop_left]
    rfl
  unfold splitOrdinal
  rw [trailingDigits_append base digits h]
  simp only [hd,he,Bool.false_eq_true,if_false,reverse_reverse,String.ofList_toList]

variable {ordinal : Nat}

theorem ordinal_of_name {pod : Pod} (hlt : ordinal<2^31)
    (hname : pod.name=getPodName set ordinal) : getOrdinal pod=ordinal := by
  have hd : ∀ c∈(Nat.repr ordinal).toList,c.isDigit := fun c => isDigit_of_mem_repr
  have hne : (Nat.repr ordinal).toList≠[] := by
    intro hn
    have hpar:=parseNat_repr ordinal
    rw [hn] at hpar
    cases hpar
  have hspl:=splitOrdinal_append set.objectMeta.name (Nat.repr ordinal) hne hd
  have hpod : pod.name=set.objectMeta.name ++ "-" ++ Nat.repr ordinal := hname
  unfold getOrdinal getParentNameAndOrdinal
  rw [hpod,hspl]
  simp only [parseNat_repr,if_pos hlt]

theorem getOrdinal_congr {p q : Pod} (h : p.name=q.name) : getOrdinal p=getOrdinal q := by
  rw [getOrdinal,getOrdinal,getParentNameAndOrdinal,getParentNameAndOrdinal,h]

theorem getOrdinal_newStatefulSetPod (hlt : ordinal<2^31) : getOrdinal (newStatefulSetPod set ordinal)=ordinal := by
  have hbase : getOrdinal (podFromTemplate set ordinal)=ordinal := ordinal_of_name set hlt rfl
  apply ordinal_of_name set hlt
  change getPodName set (getOrdinal (podFromTemplate set ordinal))=getPodName set ordinal
  rw [hbase]

structure IsNew (ordinal : Nat) (pod : Pod) : Prop where
  notCreated : isCreated pod=false
  notTerminating : isTerminating pod=false
  ordinal : ordinal<2^31 → getOrdinal pod=ordinal

theorem isNew_newReplica (c : Call) (ordinal : Nat) (replicas : List (Option Pod)) :
    IsNew ordinal (newReplica c ordinal replicas) := by
  unfold newReplica newVersionedStatefulSetPod
  split_ifs
  · exact ⟨rfl,rfl,getOrdinal_newStatefulSetPod c.currentSet⟩
  · exact ⟨rfl,rfl,getOrdinal_newStatefulSetPod c.updateSet⟩

/- The pod that the list has for an ordinal; the last one if there are several. -/
def podAt (pods : List Pod) (ordinal : Nat) : Option Pod :=
  pods.reverse.find? fun pod => getOrdinal pod=ordinal

variable (pods : List Pod)

theorem podAt_append (pod : Pod) (ordinal : Nat) : podAt (pods++[pod]) ordinal =
      if getOrdinal pod=ordinal then some pod else podAt pods ordinal := by
  unfold podAt
  by_cases h : getOrdinal pod=ordinal <;> simp [h]

theorem podAt_mem {pods : List Pod} {pod : Pod} (h : podAt pods ordinal=some pod) : pod∈pods :=
  mem_reverse.mp (mem_of_find?_eq_some h)

theorem podAt_ordinal {pods : List Pod} {pod : Pod} (h : podAt pods ordinal=some pod) : getOrdinal pod=ordinal := by
  simpa using find?_some h

theorem isReplica_iff (pod : Pod) (ordinal : Nat) (h : getOrdinal pod=ordinal) :
    isReplica set pod=isValidOrdinal set ordinal := by
  simp [isReplica,isValidOrdinal,h]

theorem placeReplicas_append (pod : Pod) : placeReplicas set (pods++[pod]) =
      if isReplica set pod then
        (placeReplicas set pods).set (getOrdinal pod).toNat (some pod)
      else placeReplicas set pods := by
  unfold placeReplicas
  rw [foldl_append]
  rfl

theorem length_placeReplicas : (placeReplicas set pods).length=replicaCountOf set := by
  induction pods using reverseRecOn with
  | nil => exact length_replicate
  | append_singleton pods pod ih =>
    rw [placeReplicas_append]
    split_ifs
    · rw [length_set,ih]
    · exact ih

theorem slot_placeReplicas (ordinal : Nat) : slot (placeReplicas set pods) ordinal =
      if isValidOrdinal set ordinal then podAt pods ordinal else none := by
  induction pods using reverseRecOn with
  | nil =>
    rw [show placeReplicas set []=List.replicate (replicaCountOf set) none from rfl, slot_replicate_none]
    split_ifs <;> rfl
  | append_singleton pods pod ih =>
    rw [placeReplicas_append,podAt_append]
    by_cases ho : getOrdinal pod=ordinal
    · rw [isReplica_iff set pod ordinal ho,if_pos ho,ho,Int.toNat_natCast]
      by_cases hval : isValidOrdinal set ordinal
      · have hlt : ordinal<(placeReplicas set pods).length := by
          rw [length_placeReplicas]
          simp only [isValidOrdinal,Bool.and_eq_true,decide_eq_true_eq] at hval
          exact hval.1
        rw [if_pos hval,if_pos hval,slot_set_self hlt]
      · rw [if_neg hval,ih,if_neg hval,if_neg hval]
    · split_ifs with hr hval hval
      -- a pod that is placed has a natural number as ordinal, which is not this one
      · have hn : 0≤getOrdinal pod := by
          simp only [isReplica,Bool.and_eq_true,decide_eq_true_eq] at hr
          exact hr.1.1
        rw [slot_set_ne _ (by omega),ih,if_pos hval]
      · have hn : 0≤getOrdinal pod := by
          simp only [isReplica,Bool.and_eq_true,decide_eq_true_eq] at hr
          exact hr.1.1
        rw [slot_set_ne _ (by omega),ih,if_neg hval]
      · rw [ih,if_pos hval]
      · rw [ih,if_neg hval]

section

variable (c : Call) (replicas : List (Option Pod))

theorem fillReplica_cases (ordinal : Nat) : (fillReplica c replicas ordinal=replicas ∧
        (isReserved c.set ordinal ∨ (slot replicas ordinal).isSome)) ∨
      (isReserved c.set ordinal=false ∧ slot replicas ordinal=none ∧ fillReplica c replicas ordinal =
          replicas.set ordinal (some (newReplica c ordinal replicas))) := by
  unfold fillReplica
  cases hr : isReserved c.set ordinal with
  | true => exact .inl ⟨rfl,.inl rfl⟩
  | false =>
    cases hslot : slot replicas ordinal with
    | some pod => exact .inl ⟨rfl,.inr rfl⟩
    | none => exact .inr ⟨rfl,rfl,rfl⟩

theorem length_fillReplica (ordinal : Nat) : (fillReplica c replicas ordinal).length=replicas.length := by
  obtain ⟨h,-⟩ | ⟨-,-,h⟩ := fillReplica_cases c replicas ordinal
  · rw [h]
  · rw [h,length_set]

variable {pods replicas} {ordinals : List Nat}

variable {i : Nat}

theorem slot_fillReplica_ne (hne : ordinal≠i) : slot (fillReplica c replicas ordinal) i=slot replicas i := by
  obtain ⟨h,-⟩ | ⟨-,-,h⟩ := fillReplica_cases c replicas ordinal
  · rw [h]
  · rw [h,slot_set_ne _ hne]

variable {pod : Pod}

theorem slot_fillReplica_some (hslot : slot replicas i=some pod) :
    slot (fillReplica c replicas ordinal) i=some pod := by
  by_cases hne : ordinal=i
  · subst hne
    obtain ⟨h,-⟩ | ⟨-,hn,-⟩ := fillReplica_cases c replicas ordinal
    · rw [h,hslot]
    · rw [hslot] at hn
      cases hn
  · rw [slot_fillReplica_ne c hne,hslot]

theorem slot_fillReplica_self (hlt : ordinal<replicas.length)
    (hr : isReserved c.set ordinal=false) (hslot : slot replicas ordinal=none) :
    slot (fillReplica c replicas ordinal) ordinal=some (newReplica c ordinal replicas) := by
  obtain ⟨-,h⟩ | ⟨-,-,h⟩ := fillReplica_cases c replicas ordinal
  · simp [hr,hslot] at h
  · rw [h,slot_set_self hlt]

theorem fillReplicas_cons (ordinal : Nat) (ordinals : List Nat) (replicas : List (Option Pod)) :
    fillReplicas c (ordinal::ordinals) replicas = fillReplicas c ordinals (fillReplica c replicas ordinal) := rfl

theorem length_fillReplicas (ordinals : List Nat) (replicas : List (Option Pod)) :
    (fillReplicas c ordinals replicas).length=replicas.length := by
  refine foldlRecOn (motive := fun r => r.length=replicas.length) ordinals (fillReplica c) rfl ?_
  intro r h ordinal _
  rw [length_fillReplica,h]

theorem slot_fillReplicas_some (hslot : slot replicas i=some pod) :
    slot (fillReplicas c ordinals replicas) i=some pod := by
  refine foldlRecOn (motive := fun r => slot r i=some pod) ordinals (fillReplica c) hslot ?_
  exact fun r h ordinal _ => slot_fillReplica_some c h

theorem slot_fillReplicas_reserved (hr : isReserved c.set i) :
    slot (fillReplicas c ordinals replicas) i=slot replicas i := by
  refine foldlRecOn (motive := fun r => slot r i=slot replicas i) ordinals (fillReplica c) rfl ?_
  intro r h ordinal _
  rw [← h]
  by_cases hne : ordinal=i
  · subst hne
    obtain ⟨heq,-⟩ | ⟨hn,-,-⟩ := fillReplica_cases c r ordinal
    · rw [heq]
    · rw [hr] at hn
      cases hn
  · exact slot_fillReplica_ne c hne

theorem slot_fillReplicas_new (hm : i∈ordinals) (hlt : i<replicas.length)
    (hres : isReserved c.set i=false) (hslot : slot replicas i=none) :
    ∃ pod,slot (fillReplicas c ordinals replicas) i=some pod ∧ IsNew i pod := by
  induction ordinals generalizing replicas with
  | nil => cases hm
  | cons ordinal ordinals ih =>
    rw [fillReplicas_cons]
    by_cases hne : ordinal=i
    · subst hne
      have hself:=slot_fillReplica_self c hlt hres hslot
      exact ⟨_,slot_fillReplicas_some c hself,isNew_newReplica c ordinal replicas⟩
    · have hr : i∈ordinals := (mem_cons.mp hm).resolve_left (Ne.symm hne)
      apply ih hr
      · rwa [length_fillReplica]
      · rw [slot_fillReplica_ne c hne,hslot]

theorem isValidOrdinal_iff (set : Sts) (ordinal : Nat) : isValidOrdinal set ordinal ↔
      ordinal<replicaCountOf set ∧ isReserved set ordinal=false := by
  simp [isValidOrdinal]

theorem length_initialReplicas (pods : List Pod) : (initialReplicas c pods).length=replicaCountOf c.set :=
  (length_fillReplicas c _ _).trans (length_placeReplicas c.set pods)

theorem slot_initialReplicas_listed (hval : isValidOrdinal c.set ordinal)
    (hpod : podAt pods ordinal=some pod) : slot (initialReplicas c pods) ordinal=some pod := by
  apply slot_fillReplicas_some
  rw [slot_placeReplicas,if_pos hval,hpod]

theorem slot_initialReplicas_new (hval : isValidOrdinal c.set ordinal) (hpod : podAt pods ordinal=none) :
    ∃ pod,slot (initialReplicas c pods) ordinal=some pod ∧ IsNew ordinal pod := by
  have hpl : slot (placeReplicas c.set pods) ordinal=none := by
    rw [slot_placeReplicas,if_pos hval,hpod]
  obtain ⟨hlt,hr⟩ := (isValidOrdinal_iff c.set ordinal).mp hval
  apply slot_fillReplicas_new
  · exact mem_range.mpr hlt
  · rwa [length_placeReplicas]
  · exact hr
  · exact hpl

theorem valid_of_slot_initialReplicas (h : slot (initialReplicas c pods) ordinal=some pod) :
    isValidOrdinal c.set ordinal := by
  have hlt:=lt_length_of_slot h
  rw [length_initialReplicas] at hlt
  refine (isValidOrdinal_iff c.set ordinal).mpr ⟨hlt,?_⟩
  cases hr : isReserved c.set ordinal with
  | false => rfl
  | true =>
    have hn : ¬isValidOrdinal c.set ordinal := by simp [isValidOrdinal,hr]
    rw [initialReplicas,slot_fillReplicas_reserved c hr,slot_placeReplicas,if_neg hn] at h
    cases h

theorem slot_initialReplicas_cases (h : slot (initialReplicas c pods) ordinal=some pod) :
    podAt pods ordinal=some pod ∨ (podAt pods ordinal=none ∧ IsNew ordinal pod) := by
  have hval:=valid_of_slot_initialReplicas c h
  cases hpod : podAt pods ordinal with
  | some listed =>
    rw [slot_initialReplicas_listed c hval hpod] at h
    exact .inl h
  | none =>
    obtain ⟨fresh,hslot,hn⟩ := slot_initialReplicas_new c hval hpod
    rw [hslot,Option.some.injEq] at h
    rw [← h]
    exact .inr ⟨rfl,hn⟩

end

end Kruise.StatefulSet
