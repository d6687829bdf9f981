import Kruise.StatefulSet.Burst

/-!
# The budget of a scaling set

With `scaleStrategy.maxUnavailable` the loop over the replicas (`stateful_set_control.go:491-643`)
has a budget. A pod that is created, terminating or not available takes one of it; a pod that is
both terminating and not available takes two.
-/

namespace Kruise.StatefulSet

open Lib.Counting Lib.Loop Lib.Slots List

variable {pod : Pod}

section

variable (c : Call) (replicas : List (Option Pod))

def isAbsent (pod : Pod) : Bool := !isCreated pod

def Call.takesTwice (pod : Pod) : Bool :=
  isCreated pod&&(isTerminating pod&&!c.isAvailable pod)

def missingAt (i : Nat) : Bool := (slot replicas i).any isAbsent

def Call.staleAt (i : Nat) : Bool :=
  (slot replicas i).any c.claimIsStale

def countBefore (p : Pod → Bool) (replicas : List (Option Pod)) (i : Nat) : Nat :=
  (range i).countP fun j => (slot replicas j).any p

def Call.takenBefore (i : Nat) : Nat :=
  countBefore c.takesBudget replicas i+countBefore c.takesTwice replicas i

theorem countBefore_succ (p : Pod → Bool) (replicas : List (Option Pod)) (i : Nat) :
    countBefore p replicas (i+1) = countBefore p replicas i+((slot replicas i).any p).toNat := by
  unfold countBefore
  rw [range_succ,countP_append,countP_singleton]
  cases (slot replicas i).any p <;> rfl

theorem countBefore_mono (p : Pod → Bool) (replicas : List (Option Pod)) {i j : Nat} (h : i≤j) :
    countBefore p replicas i≤countBefore p replicas j := by
  induction j,h using Nat.le_induction with
  | base => exact Nat.le_refl _
  | succ j _ ih =>
    rw [countBefore_succ]
    omega

theorem takenBefore_mono {i j : Nat} (h : i≤j) : c.takenBefore replicas i≤c.takenBefore replicas j :=
  Nat.add_le_add (countBefore_mono _ replicas h) (countBefore_mono _ replicas h)

theorem takenBefore_succ (i : Nat) :
    c.takenBefore replicas (i+1)=c.takenBefore replicas i +
      (((slot replicas i).any c.takesBudget).toNat+((slot replicas i).any c.takesTwice).toNat) := by
  unfold Call.takenBefore
  rw [countBefore_succ,countBefore_succ]
  omega

theorem isAvailable_created (h : c.isAvailable pod) : isCreated pod := by
  have hr:=isRunningAndReady_of_available h
  simp only [isRunningAndReady,Bool.and_eq_true] at hr
  exact hr.1.1

theorem takesBudget_of_absent (h : isCreated pod=false) : c.takesBudget pod := by
  have hun : c.isAvailable pod=false := by
    rw [← Bool.not_eq_true]
    intro hav
    rw [isAvailable_created c hav] at h
    cases h
  simp [Call.takesBudget,hun]

end

def Action.createdOrdinal : Action → Option Nat
  | .create ordinal _ => some ordinal
  | _ => none

def creations (actions : List Action) : List Nat := actions.filterMap Action.createdOrdinal

theorem creations_append (actions more : List Action) :
    creations (actions++more)=creations actions++creations more :=
  filterMap_append

section

variable (c : Call)

def Call.cost (pod : Pod) : Int := (isTerminating pod).toNat+(!c.isAvailable pod).toNat

theorem cost_eq (h : isCreated pod) :
    c.cost pod=(((c.takesBudget pod).toNat+(c.takesTwice pod).toNat : Nat) : Int) := by
  unfold Call.cost Call.takesBudget Call.takesTwice
  rw [h]
  cases isTerminating pod <;> cases c.isAvailable pod <;> rfl

theorem usesUp_eq (first second : Bool) {budget : Option Int} (hpos : ∀ n∈budget,0<n) :
    usesUp first second budget=budget.any fun n => decide (n-((first.toNat : Int)+second.toNat)≤0) := by
  unfold usesUp
  cases budget with
  | none => simp
  | some n =>
    have hn:=hpos n rfl
    rw [Bool.eq_iff_iff]
    cases first <;> cases second <;> simp <;> omega

end

/-! ## The turns of the loop -/

section

variable (c : Call)

/- A failed pod is created anew. -/
def needsNew (pod : Pod) : Bool := isFailed pod||isAbsent pod

section

variable (replicas : List (Option Pod)) (i : Nat)

def Call.fresh (pod : Pod) : Pod := if isFailed pod then newReplica c i replicas else pod

def Call.place : List (Option Pod) :=
  match slot replicas i with
  | none => replicas
  | some pod =>
    if needsNew pod then replicas.set i (some (setNormal (c.fresh replicas i pod))) else replicas

/- The replicas when the loop gets to the index. -/
def Call.placed : List (Option Pod) := (range i).foldl c.place replicas

/- A stale claim of a pod to be created ends the call and, in monotonic mode, so does every pod that is
to be created, terminating or not available. -/
def Call.returnsAt : Bool :=
  (slot replicas i).any fun pod =>
    if needsNew pod then c.monotonic||c.claimIsStale (c.fresh replicas i pod)
    else c.monotonic&&c.takesBudget pod

def Call.costAt : Int :=
  (slot replicas i).elim 0 fun pod => if needsNew pod then 1 else c.cost pod

def Call.takenTo : Int := ((range i).map (c.costAt replicas)).sum

def Call.replicaFlow (scaleMaxUnavailable : Option Int) : Flow Bool :=
  if c.returnsAt (c.placed replicas i) i then .done false
  else if scaleMaxUnavailable.any fun n => decide (n≤c.takenTo replicas (i+1)) then .leave
  else .go

/- The replicas the loop deals with. -/
def Call.reached (scaleMaxUnavailable : Option Int) : List Nat :=
  upTo (c.replicaFlow replicas · scaleMaxUnavailable) (range replicas.length)

end

variable {c} {w : Work} {i : Nat}

variable (c w i) in
theorem processReplica_takes : ∃ first second : Bool,c.costAt w.replicas i=(first.toNat : Int)+second.toNat ∧
      Takes (c.returnsAt w.replicas i) first second w (processReplica c i w) := by
  unfold Call.returnsAt Call.costAt needsNew Call.fresh isAbsent
  refine processReplica_elim c ?_ ?_ ?_ ?_ ?_
  · intro hslot
    rw [hslot]
    exact ⟨false,false,rfl,.inr ⟨by simp [usesUp],by simp⟩⟩
  · intro pod hslot hf
    exact ⟨false,true,by simp [hslot,hf],.inl rfl⟩
  · intro pod hslot hf
    refine ⟨false,true,by simp [hslot,hf],?_⟩
    rw [hslot,Option.any_some,hf]
    exact createReplica_takes c i (newReplica c i w.replicas) (recreated c i pod w)
  · intro pod hslot hf hcreated
    refine ⟨false,true,by simp [hslot,hf,hcreated],?_⟩
    simpa [hslot,hf,hcreated] using createReplica_takes c i pod w
  · intro pod hslot hf hcreated
    refine ⟨isTerminating pod,!c.isAvailable pod,by simp [hslot,hf,hcreated,Call.cost],?_⟩
    simpa [hslot,hf,hcreated] using keepReplica_takes c pod w

theorem createReplica_go (h : (createReplica c i pod w).2=.go) :
    (createReplica c i pod w).1.replicas=w.replicas.set i (some (setNormal pod)) := by
  have hne : (createReplica c i pod w).2≠.done true := by simp [h]
  rw [createReplica_eq c hne] at h ⊢
  split_ifs at h ⊢
  exact (requestCreation_effect c i pod w).1

theorem processReplica_place (h : (processReplica c i w).2=.go) :
    (processReplica c i w).1.replicas=c.place w.replicas i := by
  revert h
  unfold Call.place needsNew Call.fresh isAbsent
  refine processReplica_elim c ?_ ?_ ?_ ?_ ?_
  · intro hslot _
    rw [hslot]
  · intro pod _ _ h
    cases h
  · intro pod hslot hf h
    rw [createReplica_go h]
    simp [hslot,hf,recreated,Work.setReplica]
  · intro pod hslot hf hcreated h
    simp [createReplica_go h,hslot,hf,hcreated]
  · intro pod hslot hf hcreated _
    simp [(keepReplica_effect c pod w).1,hslot,hf,hcreated]

theorem takenTo_succ (replicas : List (Option Pod)) (i : Nat) :
    c.takenTo replicas (i+1)=c.takenTo replicas i+c.costAt replicas i := by
  simp [Call.takenTo,range_succ]

theorem placed_succ (replicas : List (Option Pod)) (i : Nat) :
    c.placed replicas (i+1)=c.place (c.placed replicas i) i := by
  simp [Call.placed,range_succ]

theorem slot_placed (replicas : List (Option Pod)) {i j : Nat} (h : i≤j) :
    slot (c.placed replicas i) j=slot replicas j := by
  induction i with
  | zero => rfl
  | succ i ih =>
    rw [placed_succ,← ih (by omega),Call.place]
    split
    · rfl
    · split_ifs
      · exact slot_set_ne _ (by omega) _
      · rfl

structure Turn (c : Call) (replicas : List (Option Pod)) (scaleMaxUnavailable : Option Int) (i : Nat)
    (w : Work) : Prop where
  placed : w.replicas=c.placed replicas i
  budget : w.scaleMaxUnavailable=scaleMaxUnavailable.map (· - c.takenTo replicas i)
  left : ∀ n∈scaleMaxUnavailable,c.takenTo replicas i<n
  gone : ∀ gone,.delete gone∈w.actions → getOrdinal gone < i

variable {replicas : List (Option Pod)} {scaleMaxUnavailable : Option Int}

theorem Turn.slot_eq (h : Turn c replicas scaleMaxUnavailable i w) : slot w.replicas i=slot replicas i := by
  rw [h.placed,slot_placed replicas (Nat.le_refl i)]

theorem Turn.takes (h : Turn c replicas scaleMaxUnavailable i w) (he : (processReplica c i w).2≠.done true) :
    (processReplica c i w).2=c.replicaFlow replicas i scaleMaxUnavailable ∧
      ((processReplica c i w).2=.go → (processReplica c i w).1.scaleMaxUnavailable =
        w.scaleMaxUnavailable.map (· - c.costAt replicas i)) := by
  obtain ⟨first,second,hcost,htakes⟩ := processReplica_takes c w i
  obtain ⟨hflow,hgo⟩ := htakes.resolve_left he
  rw [← hcost,Call.costAt,h.slot_eq,← Call.costAt] at hgo
  refine ⟨?_,hgo⟩
  have hpos : ∀ n∈w.scaleMaxUnavailable,0<n := by
    intro n hn
    rw [h.budget] at hn
    obtain ⟨n,hm,rfl⟩ := Option.mem_map.mp hn
    have hlt:=h.left n hm
    omega
  rw [hflow,usesUp_eq first second hpos,← hcost,Call.costAt,h.slot_eq,← Call.costAt,h.placed,
    h.budget,Call.replicaFlow,takenTo_succ]
  cases scaleMaxUnavailable with
  | none => rfl
  | some n =>
    have hle : n-c.takenTo replicas i-c.costAt replicas i≤0 ↔ n≤c.takenTo replicas i+c.costAt replicas i := by
      omega
    simp only [Option.map_some,Option.any_some,hle]

theorem Turn.next (h : Turn c replicas scaleMaxUnavailable i w)
    (hslot : ∀ pod,slot replicas i=some pod → isCreated pod → getOrdinal pod=i)
    (hgo : (processReplica c i w).2=.go) :
    Turn c replicas scaleMaxUnavailable (i+1) (processReplica c i w).1 where
  placed := by
    rw [processReplica_place hgo,h.placed,placed_succ]
  budget := by
    rw [(h.takes (by simp [hgo])).2 hgo,h.budget,Option.map_map,takenTo_succ]
    congr 1
    funext n
    exact Int.sub_sub _ _ _
  left := by
    intro n hn
    have hflow:=(h.takes (by simp [hgo])).1
    rw [hgo,Call.replicaFlow,Option.mem_def.mp hn,Option.any_some] at hflow
    by_contra hle
    simp only [not_lt.mp hle,decide_true,if_true] at hflow
    split_ifs at hflow
  gone := by
    intro gone hm
    obtain hm | ⟨hpod,hf⟩ := processReplica_delete c hm
    · have hlt:=h.gone gone hm
      omega
    · rw [isFailed,Bool.and_eq_true] at hf
      rw [h.slot_eq] at hpod
      have ho:=hslot gone hpod hf.1
      omega

end

section

variable (c : Call) {pods : List Pod}

theorem listed_of_slot {i : Nat} (hslot : slot (initialReplicas c pods) i=some pod)
    (hcreated : isCreated pod) : pod∈pods ∧ getOrdinal pod=i := by
  obtain hl | ⟨-,hn⟩ := slot_initialReplicas_cases c hslot
  · exact ⟨podAt_mem hl,podAt_ordinal hl⟩
  · rw [hn.notCreated] at hcreated
    cases hcreated

variable {c} {status : Status} {scaleMaxUnavailable : Option Int}

theorem replicaLoop_upTo (R : List Nat → Work → Prop) (hpos : ∀ n∈scaleMaxUnavailable,0<n)
    (hr : R [] (initialWork c pods status scaleMaxUnavailable))
    (hstep : ∀ dealt i w,Turn c (initialReplicas c pods) scaleMaxUnavailable i w → R dealt w →
      (processReplica c i w).2≠.done true → R (dealt++[i]) (processReplica c i w).1)
    (he : (replicaLoop c (initialWork c pods status scaleMaxUnavailable)).2≠.done true) :
    R (c.reached (initialReplicas c pods) scaleMaxUnavailable)
        (replicaLoop c (initialWork c pods status scaleMaxUnavailable)).1 ∧
      (replicaLoop c (initialWork c pods status scaleMaxUnavailable)).2.isDone =
        (c.reached (initialReplicas c pods) scaleMaxUnavailable).any fun i =>
          (c.replicaFlow (initialReplicas c pods) i scaleMaxUnavailable).isDone := by
  refine runLoop_upTo (fun before w => Turn c (initialReplicas c pods) scaleMaxUnavailable before.length w) R _
    ⟨rfl,by simp [initialWork,Call.takenTo],hpos,by simp [initialWork]⟩ hr ?_ he
  intro before i after w hran hturn hR hne
  obtain ⟨rfl,-⟩ := index_of_range hran
  refine ⟨(hturn.takes hne).1,hstep before _ w hturn hR hne,fun hgo => ?_⟩
  rw [length_append,length_singleton]
  exact hturn.next (fun pod hpod hcreated => (listed_of_slot c hpod hcreated).2) hgo

end

section

variable (c : Call) (replicas : List (Option Pod)) (m : Int)

/- There is budget left when the loop gets to the index, and no claim of a missing pod up to it is
stale. -/
def Call.creates (i : Nat) : Bool :=
  missingAt replicas i&&decide ((c.takenBefore replicas i : Int) < m) &&
    (range (i+1)).all fun j => !missingAt replicas j||!c.staleAt replicas j

theorem creates_iff (i : Nat) : c.creates replicas m i ↔ missingAt replicas i ∧
      (c.takenBefore replicas i : Int) < m ∧
      ∀ j ≤ i,missingAt replicas j → c.staleAt replicas j=false := by
  unfold Call.creates
  rw [Bool.and_eq_true,Bool.and_eq_true,decide_eq_true_iff,all_eq_true,and_assoc]
  refine and_congr_right fun _ => and_congr_right fun _ => forall_congr' fun j => ?_
  rw [mem_range,Nat.lt_succ_iff]
  cases missingAt replicas j <;> cases c.staleAt replicas j <;> simp

variable {c replicas m} {w : Work} {i : Nat}

theorem creations_keepReplica (pod : Pod) (w : Work) :
    creations (keepReplica c pod w).1.actions=creations w.actions := by
  obtain ⟨-,h | h⟩ := keepReplica_effect c pod w
  · rw [h]
  · rw [h,creations_append]
    exact append_nil _

theorem createReplica_creations (he : (createReplica c i pod w).2≠.done true) :
    creations (createReplica c i pod w).1.actions =
      creations w.actions++if c.claimIsStale pod then [] else [i] := by
  rw [createReplica_eq c he]
  split_ifs
  · exact (append_nil _).symm
  · rw [(requestCreation_effect c i pod w).2,creations_append]
    rfl

theorem processReplica_creations (hf : ∀ pod,slot w.replicas i=some pod → isFailed pod=false)
    (he : (processReplica c i w).2≠.done true) :
    creations (processReplica c i w).1.actions =
      creations w.actions++[i].filter fun i => missingAt w.replicas i&&!c.staleAt w.replicas i := by
  revert he
  unfold missingAt Call.staleAt isAbsent
  refine processReplica_elim c ?_ ?_ ?_ ?_ ?_
  · intro hslot _
    simp [hslot]
  · intro pod hslot hfailed
    rw [hf pod hslot] at hfailed
    cases hfailed
  · intro pod hslot hfailed
    rw [hf pod hslot] at hfailed
    cases hfailed
  · intro pod hslot _ hcreated he
    rw [createReplica_creations he]
    cases hstl : c.claimIsStale pod <;> simp [hslot,hcreated,hstl]
  · intro pod hslot _ hcreated _
    simp [creations_keepReplica,hslot,hcreated]

section

variable (hburst : c.monotonic=false) (hf : ∀ i pod,slot replicas i=some pod → isFailed pod=false)
include hf

theorem takenTo_eq (i : Nat) : c.takenTo replicas i=c.takenBefore replicas i := by
  induction i with
  | zero => rfl
  | succ i ih =>
    rw [takenTo_succ,takenBefore_succ,ih,Nat.cast_add]
    congr 1
    unfold Call.costAt
    cases hslot : slot replicas i with
    | none => rfl
    | some pod =>
      cases hcreated : isCreated pod with
      | true => simp [needsNew,isAbsent,hf i pod hslot,hcreated,cost_eq c hcreated]
      | false =>
        simp [needsNew,isAbsent,hcreated,takesBudget_of_absent c hcreated,Call.takesTwice]

include hburst

theorem returnsAt_eq (i : Nat) :
    c.returnsAt (c.placed replicas i) i=(missingAt replicas i&&c.staleAt replicas i) := by
  unfold Call.returnsAt missingAt Call.staleAt
  rw [slot_placed replicas (Nat.le_refl i)]
  cases hslot : slot replicas i with
  | none => rfl
  | some pod =>
    simp [needsNew,Call.fresh,hf i pod hslot,hburst]

theorem creates_eq (hm : 0 < m) (i : Nat) :
    c.creates replicas m i=(((range i).all fun j => (c.replicaFlow replicas j (some m)).isGo) &&
      (missingAt replicas i&&!c.staleAt replicas i)) := by
  have hgo : ∀ j,(c.replicaFlow replicas j (some m)).isGo ↔
      (missingAt replicas j → c.staleAt replicas j=false) ∧ (c.takenBefore replicas (j+1) : Int) < m := by
    intro j
    unfold Call.replicaFlow
    simp only [returnsAt_eq hburst hf,takenTo_eq hf,Option.any_some,Bool.and_eq_true,decide_eq_true_iff]
    split_ifs with hr hl
    · simp [Flow.isGo,hr]
    · simp only [Flow.isGo,Bool.false_eq_true,false_iff]
      omega
    · simp only [Flow.isGo,true_iff]
      refine ⟨fun hmiss => ?_,by omega⟩
      rw [← Bool.not_eq_true]
      exact fun hstl => hr ⟨hmiss,hstl⟩
  rw [Bool.eq_iff_iff,creates_iff,Bool.and_eq_true,Bool.and_eq_true,Bool.not_eq_true',all_eq_true]
  simp only [mem_range,hgo]
  constructor
  · rintro ⟨hmiss,hl,hstl⟩
    refine ⟨fun j hj => ⟨hstl j hj.le,?_⟩,hmiss,hstl i (Nat.le_refl i) hmiss⟩
    have hmono:=takenBefore_mono c replicas (show j+1 ≤ i from hj)
    omega
  · rintro ⟨hall,hmiss,hstl⟩
    refine ⟨hmiss,?_,fun j hj hmiss' => ?_⟩
    · cases i with
      | zero => exact hm
      | succ i => exact (hall i (Nat.lt_succ_self i)).2
    · rcases hj.lt_or_eq with hlt | rfl
      · exact (hall j hlt).1 hmiss'
      · exact hstl

end

theorem replicaLoop_creates {pods : List Pod} {status : Status} (hburst : c.monotonic=false) (hm : 0 < m)
    (hf : ∀ i pod,slot (initialReplicas c pods) i=some pod → isFailed pod=false)
    (he : (replicaLoop c (initialWork c pods status (some m))).2≠.done true) :
    creations (replicaLoop c (initialWork c pods status (some m))).1.actions =
      (range (initialReplicas c pods).length).filter (c.creates (initialReplicas c pods) m) := by
  obtain ⟨hcrs,-⟩ : creations (replicaLoop c (initialWork c pods status (some m))).1.actions=_ ∧ _ := by
    refine replicaLoop_upTo (fun dealt w => creations w.actions=dealt.filter fun i =>
      missingAt (initialReplicas c pods) i&&!c.staleAt (initialReplicas c pods) i) (by simpa using hm) rfl ?_ he
    intro dealt i w hturn hR hne
    have hslot:=hturn.slot_eq
    rw [processReplica_creations (by rw [hslot]; exact hf i) hne,filter_append,hR]
    simp only [filter_singleton,missingAt,Call.staleAt,hslot]
  rw [hcrs,Call.reached,upTo_range,filter_filter]
  apply filter_congr
  intro i _
  rw [creates_eq hburst hf hm,Bool.and_comm]

theorem lt_of_missingAt (h : missingAt replicas i) : i<replicas.length := by
  obtain ⟨pod,hpod,-⟩ := (Option.any_eq_true _ _).mp h
  exact lt_length_of_slot hpod

variable (c replicas m) in
/- When counting every index once gives the same creations. -/
theorem filter_creates_iff :
    (range replicas.length).filter (c.creates replicas m) =
        (range replicas.length).filter (fun i => missingAt replicas i &&
          decide ((countBefore c.takesBudget replicas i : Int) < m)) ↔
      ∀ i,missingAt replicas i → (countBefore c.takesBudget replicas i : Int) < m →
        (c.takenBefore replicas i : Int) < m ∧ c.staleAt replicas i=false := by
  constructor
  · intro heq i hm hcnt
    have hmem : i∈(range replicas.length).filter (c.creates replicas m) := by
      rw [heq,mem_filter,mem_range]
      exact ⟨lt_of_missingAt hm,by simp [hm,hcnt]⟩
    obtain ⟨-,htk,hstl⟩ := (creates_iff c replicas m i).mp (mem_filter.mp hmem).2
    exact ⟨htk,hstl i (Nat.le_refl i) hm⟩
  · intro he
    apply filter_congr
    intro i _
    rw [Bool.eq_iff_iff,creates_iff,Bool.and_eq_true,decide_eq_true_iff]
    refine and_congr_right fun hm => ⟨fun h => ?_,fun hcnt => ?_⟩
    · have htk:=h.1
      unfold Call.takenBefore at htk
      omega
    · refine ⟨(he i hm hcnt).1,fun j hj hm' => ?_⟩
      have hmono:=countBefore_mono c.takesBudget replicas hj
      exact (he j hm' (by omega)).2

end

section

variable (c : Call) (pods : List Pod)

def ordinalMissing (set : Sts) (i : Nat) : Bool :=
  isValidOrdinal set i&&(podAt pods i).all isAbsent

def Call.ordinalTakes (i : Nat) : Bool :=
  isValidOrdinal c.set i&&(podAt pods i).all c.takesBudget

def Call.ordinalTakesTwice (i : Nat) : Bool :=
  isValidOrdinal c.set i&&(podAt pods i).any c.takesTwice

theorem slot_of_not_valid {i : Nat} (h : ¬isValidOrdinal c.set i) : slot (initialReplicas c pods) i=none := by
  cases hslot : slot (initialReplicas c pods) i with
  | none => rfl
  | some pod => exact absurd (valid_of_slot_initialReplicas c hslot) h

theorem any_slot {p : Pod → Bool} (b : Bool) (hn : ∀ pod,isCreated pod=false → p pod=b) (i : Nat) :
    (slot (initialReplicas c pods) i).any p=(isValidOrdinal c.set i&&(podAt pods i).elim b p) := by
  by_cases hval : isValidOrdinal c.set i
  · rw [hval,Bool.true_and]
    cases hpod : podAt pods i with
    | some pod => rw [slot_initialReplicas_listed c hval hpod,Option.any_some,Option.elim_some]
    | none =>
      obtain ⟨fresh,hslot,hf⟩ := slot_initialReplicas_new c hval hpod
      rw [hslot,Option.any_some,Option.elim_none,hn fresh hf.notCreated]
  · rw [slot_of_not_valid c pods hval,Bool.eq_false_iff.mpr hval]
    rfl

theorem missingAt_initialReplicas (i : Nat) : missingAt (initialReplicas c pods) i=ordinalMissing pods c.set i := by
  unfold missingAt ordinalMissing
  rw [any_slot c pods true (fun pod h => by simp [isAbsent,h]) i]
  cases podAt pods i <;> rfl

theorem countBefore_takesBudget (i : Nat) : countBefore c.takesBudget (initialReplicas c pods) i =
      (range i).countP (c.ordinalTakes pods) := by
  apply countP_congr
  intro j _
  rw [any_slot c pods true ?_ j]
  · unfold Call.ordinalTakes
    cases podAt pods j <;> rfl
  · intro pod hcreated
    exact takesBudget_of_absent c hcreated

theorem countBefore_takesTwice (i : Nat) : countBefore c.takesTwice (initialReplicas c pods) i =
      (range i).countP (c.ordinalTakesTwice pods) := by
  apply countP_congr
  intro j _
  rw [any_slot c pods false (fun pod h => by simp [Call.takesTwice,h]) j]
  unfold Call.ordinalTakesTwice
  cases podAt pods j <;> rfl

theorem not_isFailed_of_slot {pods : List Pod} (h : ∀ pod∈pods,isFailed pod=false) :
    ∀ i pod,slot (initialReplicas c pods) i=some pod → isFailed pod=false := by
  intro i pod hslot
  obtain hl | ⟨-,hn⟩ := slot_initialReplicas_cases c hslot
  · exact h pod (podAt_mem hl)
  · have hcreated : pod.created=false := hn.notCreated
    rw [isFailed,hcreated]
    rfl

theorem scaleMaxUnavailable_pos {m : Int} (h : scaleMaxUnavailableOf c=some (some m)) : 0 < m := by
  unfold scaleMaxUnavailableOf at h
  split at h
  · cases h
  · obtain ⟨n,-,hn⟩ := Option.map_eq_some_iff.mp h
    have hm : max 1 n=m := Option.some.inj hn
    omega

end

/-- In burst mode, without errors and failed pods, the loop creates the missing ordinals before
which fewer than `m` are missing, terminating or not available, exactly if for each of them there
are fewer than `m` even when pods that are terminating and not available count twice, and none has a
stale claim. -/
theorem replicaLoop_exact_iff (c : Call) (pods : List Pod) (status : Status) (m : Int)
    (hburst : allowsBurst c.set) (hmax : scaleMaxUnavailableOf c=some (some m))
    (hfailed : ∀ pod∈pods,isFailed pod=false)
    (herr : (replicaLoop c (initialWork c pods status (some m))).2≠.done true) :
    creations (replicaLoop c (initialWork c pods status (some m))).1.actions =
        (range (replicaCountOf c.set)).filter (fun i => ordinalMissing pods c.set i &&
          decide (((range i).countP (c.ordinalTakes pods) : Int) < m)) ↔
      ∀ i,ordinalMissing pods c.set i → ((range i).countP (c.ordinalTakes pods) : Int) < m →
        ((range i).countP (c.ordinalTakes pods) : Int) + (range i).countP (c.ordinalTakesTwice pods) < m ∧
          c.staleAt (initialReplicas c pods) i=false := by
  have hm : c.monotonic=false := by
    rw [Call.monotonic,hburst]
    rfl
  have hcrs:=replicaLoop_creates hm (scaleMaxUnavailable_pos c hmax) (not_isFailed_of_slot c hfailed) herr
  have hiff:=filter_creates_iff c (initialReplicas c pods) m
  rw [hcrs]
  rw [length_initialReplicas] at hiff ⊢
  simp only [missingAt_initialReplicas,countBefore_takesBudget,Call.takenBefore,
    countBefore_takesTwice,Nat.cast_add] at hiff
  exact hiff

def budgetCall (m : Int) : Call :=
  { env := plainEnv
    api := plainApi
    now := 0
    set := plainSet 4 [] .parallel none (some ⟨some (.int m)⟩)
    currentRevision := "web-a"
    updateRevision := "web-a"
    currentTemplate := plainTemplate
    updateTemplate := plainTemplate
    revisions := []}

def budgetLoop (m : Int) (pods : List Pod) : Work × Flow Bool :=
  replicaLoop (budgetCall m) (initialWork (budgetCall m) pods
    (initialStatus (budgetCall m) 0 "") (some m))

def unreadyPod (name : String) : Pod := {plainPod name "web-a" with ready := none}

/- The budget is used up with the creation of `web-2`. -/
def threePods : List Pod :=
  [{plainPod "web-1" "web-a" with terminating := true},plainPod "web-3" "web-a"]

theorem threePods_takeOnce (i : Nat) : (budgetCall 3).ordinalTakesTwice threePods i=false := by
  rw [Call.ordinalTakesTwice,Bool.and_eq_false_iff]
  right
  cases hpod : podAt threePods i with
  | none => rfl
  | some pod =>
    have hm:=podAt_mem hpod
    simp only [threePods,mem_cons,not_mem_nil,or_false] at hm
    obtain rfl | rfl := hm <;> decide

theorem threePods_exact :
    creations (budgetLoop 3 threePods).1.actions=[0,2] ∧ creations (budgetLoop 3 threePods).1.actions =
        (range (replicaCountOf (budgetCall 3).set)).filter (fun i =>
          ordinalMissing threePods (budgetCall 3).set i &&
            decide (((range i).countP ((budgetCall 3).ordinalTakes threePods) : Int)<3)) := by
  have hf : (budgetLoop 3 threePods).2=.leave := rfl
  have ht : ∀ i,(range i).countP ((budgetCall 3).ordinalTakesTwice threePods)=0 := by
    intro i
    rw [countP_eq_zero]
    simp [threePods_takeOnce]
  have hstl : ∀ i, (budgetCall 3).staleAt (initialReplicas (budgetCall 3) threePods) i=false := by
    intro i
    unfold Call.staleAt
    cases slot (initialReplicas (budgetCall 3) threePods) i <;> rfl
  refine ⟨by decide +kernel,(replicaLoop_exact_iff (budgetCall 3) threePods _ 3 rfl
    (by decide +kernel) (by decide) ?_).mpr ?_⟩
  · intro hd
    have hboth:=hf.symm.trans hd
    cases hboth
  · intro i _ hcnt
    exact ⟨by rw [ht]; omega,hstl i⟩

/- `web-0` is terminating and not ready and takes both of the budget: `web-1` is not created. -/
theorem terminating_pod_counts_twice :
    scaleMaxUnavailableOf (budgetCall 2)=some (some 2) ∧
      (budgetLoop 2 [{unreadyPod "web-0" with terminating := true}]).2=.leave ∧
      creations (budgetLoop 2 [{unreadyPod "web-0" with terminating := true}]).1.actions=[] ∧
      ordinalMissing [{unreadyPod "web-0" with terminating := true}] (budgetCall 2).set 1 = true ∧
      (range 1).countP ((budgetCall 2).ordinalTakes [{unreadyPod "web-0" with terminating := true}])=1 :=
  ⟨by decide,rfl,by decide +kernel,by decide +kernel,by decide +kernel⟩

end Kruise.StatefulSet
