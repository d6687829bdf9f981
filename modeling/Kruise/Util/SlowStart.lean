import Kruise.Lib.SlowStart
import Mathlib.Algebra.Order.Ring.Int
import Mathlib.Data.Nat.Find

/-!
# Slow-start batches

`SlowStartBatch` (`pkg/util/tools.go` 49-75) and `DoItSlowly` (`cloneset_utils.go` 228-252). The
calls of a batch come back in any order; those of `DoItSlowly` get no index and are numbered as they
are made.
-/

namespace Kruise.Util.SlowStart

open List Lib

structure Run where
  calls : List Nat
  successes : Nat
  failed : Bool

def call (fails : Nat → Bool) (r : Run) (idx : Nat) : Run :=
  ⟨r.calls++[idx],if fails idx then r.successes else r.successes+1,r.failed||fails idx⟩

/-- The loop, with a number of turns after which it has ended. -/
def batches (schedule : Schedule) (fails : Nat → Bool) (count initialBatchSize fuel : Nat) : Run × Nat :=
  slowStart schedule (call fails) (fun _ r => r.failed) count fuel (min count initialBatchSize) 0
    ⟨[],0,false⟩

def slowStartBatch (schedule : Schedule) (fails : Nat → Bool) (count initialBatchSize : Nat) : Run :=
  (batches schedule fails count initialBatchSize count).1

def doItSlowly (fails : Nat → Bool) (count initialBatchSize : Nat) : Run :=
  slowStartBatch ⟨id,fun _ => .refl _⟩ fails count initialBatchSize

/-- The first call of a batch. -/
def batchStart (initialBatchSize j : Nat) : Nat := initialBatchSize*(2^j-1)

/-- Every call succeeds, or the calls end with the batch of the first failure. -/
def Ends (fails : Nat → Bool) (count initialBatchSize k : Nat) : Prop :=
  k=count ∧ (∀ i<count,fails i=false) ∨
    ∃ i j,i<k ∧ fails i ∧ (∀ l < i,fails l=false) ∧ batchStart initialBatchSize j ≤ i ∧
      i<batchStart initialBatchSize (j+1) ∧ k=min count (batchStart initialBatchSize (j+1))

variable {schedule : Schedule} {fails : Nat → Bool} {count init : Nat}

theorem foldl_call (calls : List Nat) : calls.foldl (call fails) ⟨[],0,false⟩ =
    ⟨calls,calls.countP fun i => !fails i,calls.any fails⟩ := by
  induction calls using reverseRecOn with
  | nil => rfl
  | append_singleton calls i ih =>
    rw [foldl_append,ih]
    cases h : fails i <;> simp [call,h]

theorem batchStart_add (init j : Nat) : batchStart init j+init=init*2^j := by
  have hpos : 0<2^j := Nat.two_pow_pos j
  unfold batchStart
  rw [← Nat.mul_succ]
  congr 1
  omega

theorem batchStart_succ (init j : Nat) : batchStart init (j+1)=2*batchStart init j+init := by
  have hj:=batchStart_add init j
  have hn:=batchStart_add init (j+1)
  rw [Nat.pow_succ,← Nat.mul_assoc] at hn
  omega

theorem ends_of_le {pos j : Nat} (hok : ∀ i<pos,fails i=false)
    (hpos : pos=min count (batchStart init j)) (hle : count≤pos) : Ends fails count init pos := by
  obtain rfl : pos=count := by omega
  exact .inl ⟨rfl,hok⟩

theorem ends_of_fails {pos size j : Nat} (hpos : pos=min count (batchStart init j))
    (hsize : pos+size=min count (batchStart init (j+1))) (hok : ∀ i<pos,fails i=false)
    (hf : ∃ i<pos+size,fails i) : Ends fails count init (pos+size) := by
  have hlt:=(Nat.find_spec hf).1
  refine .inr ⟨Nat.find hf,j,hlt,(Nat.find_spec hf).2,fun l hl => ?_,?_,by omega,hsize⟩
  · by_contra hn
    exact Nat.find_min hf hl ⟨by omega,Bool.not_eq_false _ ▸ hn⟩
  · by_contra hn
    have hi:=hok (Nat.find hf) (by omega)
    rw [(Nat.find_spec hf).2] at hi
    cases hi

/-- By induction on the turns left, at the start of a batch before which nothing has failed. -/
theorem slowStart_ends {fuel j pos size : Nat} {done : List Nat} (hi : 0 < init)
    (hd : done.Perm (range pos)) (hok : ∀ i<pos,fails i=false) (hf : count-pos≤fuel)
    (hpos : pos=min count (batchStart init j)) (hsize : size=min (init*2^j) (count-pos)) :
    ∃ (calls : List Nat) (k : Nat), slowStart schedule (call fails) (fun _ r => r.failed) count fuel size pos
        (done.foldl (call fails) ⟨[],0,false⟩)=(calls.foldl (call fails) ⟨[],0,false⟩,k) ∧
      calls.Perm (range k) ∧ Ends fails count init k := by
  induction fuel generalizing size pos done j with
  | zero => exact ⟨done,pos,rfl,hd,ends_of_le hok hpos (by omega)⟩
  | succ fuel ih =>
    unfold slowStart
    split_ifs with he
    · exact ⟨done,pos,rfl,hd,ends_of_le hok hpos he⟩
    · have hn : (done++schedule.order (range' pos size)).Perm (range (pos+size)) := by
        rw [range_add,← range'_eq_map_range]
        exact hd.append (schedule.perm _)
      have ha:=batchStart_add init j
      have hs:=batchStart_succ init j
      have hp : 0 < init*2^j := Nat.mul_pos hi (Nat.two_pow_pos j)
      have hnext : pos+size=min count (batchStart init (j+1)) := by omega
      dsimp only
      rw [← foldl_append]
      split_ifs with hfail
      · refine ⟨_,_,rfl,hn,ends_of_fails hpos hnext hok ?_⟩
        rw [foldl_call] at hfail
        obtain ⟨i,hmem,hfi⟩ := any_eq_true.mp hfail
        exact ⟨i,mem_range.mp (hn.mem_iff.mp hmem),hfi⟩
      · have hok' : ∀ i<pos+size,fails i=false := by
          intro i hlt
          by_contra hfi
          refine hfail ?_
          rw [foldl_call]
          exact any_eq_true.mpr ⟨i,hn.mem_iff.mpr (mem_range.mpr hlt),Bool.not_eq_false _ ▸ hfi⟩
        have hdouble : init*2^(j+1)=2*(init*2^j) := by
          rw [Nat.pow_succ,← Nat.mul_assoc,Nat.mul_comm]
        exact ih hn hok' (by omega) hnext (by omega)

theorem Ends.le {k : Nat} (h : Ends fails count init k) : k≤count := by
  rcases h with ⟨rfl,-⟩ | ⟨i,j,-,-,-,-,-,hk⟩ <;> omega

/-- The calls are numbered from 0 without a gap or a repetition; if one fails, none follows its
batch and there are at most twice as many as succeed, and the first batch. -/
structure SlowStarts (fails : Nat → Bool) (count initialBatchSize : Nat) (r : Run) : Prop where
  once : r.calls.Perm (range r.calls.length)
  successes : r.successes=r.calls.countP fun i => !fails i
  failed : r.failed ↔ ∃ i<count,fails i
  all : (∀ i<count,fails i=false) → r.calls.length=count
  bound : r.failed → r.calls.length≤2*r.successes+initialBatchSize
  ends : Ends fails count initialBatchSize r.calls.length

theorem slowStarts_of_ends {calls : List Nat} {k : Nat} (hc : calls.Perm (range k)) (h : Ends fails count init k) :
    SlowStarts fails count init (calls.foldl (call fails) ⟨[],0,false⟩) := by
  obtain rfl : calls.length=k := by simpa using hc.length_eq
  have hle:=h.le
  have hany : calls.any fails ↔ ∃ i<count,fails i := by
    rw [any_eq_true]
    constructor
    · rintro ⟨i,hi,hf⟩
      have hlt:=mem_range.mp (hc.mem_iff.mp hi)
      exact ⟨i,hlt.trans_le hle,hf⟩
    · rintro ⟨i,hi,hf⟩
      rcases h with ⟨-,hok⟩ | ⟨l,-,hl,hfl,-⟩
      · rw [hok i hi] at hf
        cases hf
      · exact ⟨l,hc.mem_iff.mpr (mem_range.mpr hl),hfl⟩
  rw [foldl_call]
  refine ⟨hc,rfl,hany,?_,?_,h⟩
  · intro hok
    rcases h with ⟨hk,-⟩ | ⟨i,-,hi,hf,-⟩
    · exact hk
    · have hok:=hok i (hi.trans_le hle)
      rw [hf] at hok
      cases hok
  · intro hf
    obtain ⟨l,hl,hfl⟩ := hany.mp hf
    rcases h with ⟨-,hok⟩ | ⟨i,j,hi,-,hok,hj,-,hk⟩
    · rw [hok l hl] at hfl
      cases hfl
    -- the calls before the first failure succeed, and they are all those of the earlier batches
    · have hlow : i≤calls.countP fun i => !fails i := by
        have hall : (range i).countP (fun i => !fails i)=(range i).length :=
          countP_eq_length.mpr fun l hl => by simp [hok l (mem_range.mp hl)]
        rw [length_range] at hall
        rw [hc.countP_eq,← hall]
        exact (range_sublist.mpr hi.le).countP_le
      have hs:=batchStart_succ init j
      dsimp only
      omega

theorem slowStarts_batches (schedule : Schedule) (hi : 0 < init) :
    SlowStarts fails count init (slowStartBatch schedule fails count init) := by
  have h0 : 0=min count (batchStart init 0) := by simp [batchStart]
  have hsize : min count init=min (init*2^0) (count-0) := by omega
  obtain ⟨calls,k,hr,hc,he⟩ := slowStart_ends hi (Perm.refl (range 0)) (by simp) (Nat.le_refl _) h0 hsize
  have heq : slowStartBatch schedule fails count init=calls.foldl (call fails) ⟨[],0,false⟩ :=
    congrArg Prod.fst hr
  rw [heq]
  exact slowStarts_of_ends hc he

/-- Both loops end: more turns do nothing. -/
theorem slowStart_batches_exact (hi : 0 < init) :
    (∀ schedule,SlowStarts fails count init (slowStartBatch schedule fails count init) ∧ ∀ fuel,count≤fuel →
        (batches schedule fails count init fuel).1=slowStartBatch schedule fails count init) ∧
    SlowStarts fails count init (doItSlowly fails count init) := by
  refine ⟨fun schedule => ⟨slowStarts_batches schedule hi,fun fuel hf => ?_⟩, slowStarts_batches _ hi⟩
  exact congrArg Prod.fst (slowStart_fuel schedule _ _ count (by omega) (by omega) hf (Nat.le_refl _))

theorem third_call_fails :
    0<1 ∧ SlowStarts (fun i => i=2) 5 1 (doItSlowly (fun i => i=2) 5 1) ∧
      (doItSlowly (fun i => i=2) 5 1).calls=[0,1,2] :=
  ⟨by decide,(slowStart_batches_exact (by decide)).2,by decide⟩

end Kruise.Util.SlowStart
