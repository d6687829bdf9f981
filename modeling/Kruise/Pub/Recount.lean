import Kruise.Lib.Counting
import Kruise.Pub.Types

/-!
# What the controller's recount keeps and counts

What a recount may drop (records of pods it does not see active) and count as available (active
pods without a record).
-/

namespace Kruise.Pub

open Lib.Counting Util

def available (s : PodState) : Bool := s.active&&(s.consistent&&s.ready)

/- No record of the status has timed out. -/
def unexpired (status : Status) (now : Int) : Bool :=
  noneExpired deletionTimeout now status.disruptedPods &&
    noneExpired updatedDelayCheckTime now status.unavailablePods

theorem mem_keepRecord (timeout now : Int) (records kept : Records) (p : ObservedPod) (n : String) :
    n∈keepRecord timeout now records kept p ↔ n∈kept ∨ p.name=n ∧ p.state.active ∧
        ∃ t,records.lookup n=some t ∧ expired timeout now t=false := by
  unfold keepRecord
  cases ha : p.state.active with
  | false => simp
  | true =>
    cases hlk : records.lookup p.name with
    | none =>
      simp only [Bool.not_true,Bool.false_eq_true,if_false,iff_self_or]
      rintro ⟨rfl,_,t,ht,_⟩
      rw [hlk] at ht
      cases ht
    | some t =>
      simp only [Bool.not_true,Bool.false_eq_true,if_false]
      split_ifs with he
      · simp only [iff_self_or]
        rintro ⟨rfl,_,t',ht,hf⟩
        rw [hlk] at ht
        cases ht
        rw [he] at hf
        cases hf
      · rw [AList.mem_insert]
        refine ⟨?_,?_⟩
        · rintro (rfl | h)
          · exact .inr ⟨rfl,trivial,t,hlk,Bool.eq_false_iff.mpr he⟩
          · exact .inl h
        · rintro (h | ⟨rfl,_⟩)
          · exact .inr h
          · exact .inl rfl

theorem mem_foldl_keepRecord (timeout now : Int) (records kept : Records) (pods : List ObservedPod) (n : String) :
    n∈pods.foldl (keepRecord timeout now records) kept ↔ n∈kept ∨ ∃ p∈pods,p.name=n ∧ p.state.active ∧
        ∃ t,records.lookup n=some t ∧ expired timeout now t=false := by
  induction pods generalizing kept with
  | nil => simp
  | cons p pods ih =>
    rw [List.foldl_cons,ih,mem_keepRecord]
    simp only [List.mem_cons,exists_eq_or_imp,or_assoc]

theorem mem_keepRecords (timeout now : Int) (records : Records) (pods : List ObservedPod) (n : String) :
    n∈keepRecords timeout now records pods ↔ ∃ p∈pods,p.name=n ∧ p.state.active ∧
        ∃ t,records.lookup n=some t ∧ expired timeout now t=false := by
  unfold keepRecords
  rw [mem_foldl_keepRecord]
  simp

variable {status : Status} {pods : List ObservedPod}

theorem mem_of_mem_keepRecords {timeout now : Int} {records : Records} {n : String}
    (h : n∈keepRecords timeout now records pods) : n∈records := by
  obtain ⟨_,_,_,_,t,ht,_⟩ := (mem_keepRecords timeout now records pods n).mp h
  exact AList.lookup_isSome.mp (Option.isSome_of_mem ht)

theorem isPodRecordedInPub_iff (n : String) (status : Status) :
    isPodRecordedInPub n status ↔ n∈status.unavailablePods ∨ n∈status.disruptedPods := by
  simp [isPodRecordedInPub]

theorem checkAndDecrement_records {name : String} {status' : Status} {op : Operation} {now : Int}
    (h : checkAndDecrement name status op now=some status') :
    status'.desiredAvailable=status.desiredAvailable ∧ ∀ n,isPodRecordedInPub n status' ↔
        n=name ∨ isPodRecordedInPub n status := by
  unfold checkAndDecrement at h
  split_ifs at h with ha hsize hop
  · cases Option.some.inj h
    refine ⟨rfl,?_⟩
    intro n
    rw [isPodRecordedInPub_iff,isPodRecordedInPub_iff,AList.mem_insert,or_assoc]
  · cases Option.some.inj h
    refine ⟨rfl,?_⟩
    intro n
    rw [isPodRecordedInPub_iff,isPodRecordedInPub_iff,AList.mem_insert,or_left_comm]

variable {generation desired expected now : Int}

theorem recorded_of_recorded_recount {n : String}
    (h : isPodRecordedInPub n (recount generation status pods desired expected now)) :
    isPodRecordedInPub n status := by
  rw [isPodRecordedInPub_iff] at h ⊢
  rcases h with h | h
  · exact .inl (mem_of_mem_keepRecords h)
  · exact .inr (mem_of_mem_keepRecords h)

theorem recorded_recount (generation desired expected : Int) {now : Int} {n : String}
    (hf : unexpired status now) (h : isPodRecordedInPub n status) (hseen : ∃ p∈pods,p.name=n ∧ p.state.active) :
    isPodRecordedInPub n (recount generation status pods desired expected now) := by
  obtain ⟨p,hp,hn,ha⟩ := hseen
  obtain ⟨hd,hun⟩ := Bool.and_eq_true_iff.mp hf
  rw [isPodRecordedInPub_iff] at h ⊢
  rcases h with h | h
  · left
    obtain ⟨t,ht⟩ := Option.isSome_iff_exists.mp (AList.lookup_isSome.mpr h)
    exact (mem_keepRecords _ _ _ _ _).mpr ⟨p,hp,hn,ha,t,ht,expired_of_noneExpired hun ht⟩
  · right
    obtain ⟨t,ht⟩ := Option.isSome_iff_exists.mp (AList.lookup_isSome.mpr h)
    exact (mem_keepRecords _ _ _ _ _).mpr ⟨p,hp,hn,ha,t,ht,expired_of_noneExpired hd ht⟩

theorem currentAvailable_recount_le (names : List String) (q : String → Bool)
    (hf : unexpired status now) (hnd : (pods.map ObservedPod.name).Nodup)
    (hq : ∀ p∈pods,available p.state → isPodRecordedInPub p.name status=false → p.name∈names ∧ q p.name) :
    (recount generation status pods desired expected now).currentAvailable≤names.countP q := by
  have hcnt : countAvailablePods pods (buildDisruptedPods status pods now)
      (buildUnavailablePods status pods now)≤names.countP q := by
    refine countP_le_of_nodup_keys ObservedPod.name _ q pods names hnd ?_
    intro p hp hcntd
    simp only [Bool.and_eq_true,Bool.not_eq_true',Bool.or_eq_false_iff, decide_eq_false_iff_not] at hcntd
    obtain ⟨⟨ha,hd,hun⟩,hrdy⟩ := hcntd
    refine hq p hp (by simp [available,ha,hrdy]) ?_
    by_contra hr
    rw [Bool.not_eq_false] at hr
    have hk:=recorded_recount generation desired expected hf hr ⟨p,hp,rfl,ha⟩
    rcases (isPodRecordedInPub_iff _ _).mp hk with h | h
    · exact hun h
    · exact hd h
  exact Int.ofNat_le.mpr hcnt

end Kruise.Pub
