import Kruise.Util.IntStr
import Mathlib.Data.List.Induction

/-!
# Expectations on resource versions

`realResourceVersionExpectation` (`resource_version_expectation.go:28-121`) holds for each UID the
newest version that is expected; a version that is new enough clears the entry. The two readings of
the clock of `IsSatisfied` are parameters.
-/

namespace Kruise.Expectations

open Util.IntStr List Function

structure Object where
  uid : String
  resourceVersion : String
  deriving DecidableEq

/- `firstUnsatisfiedTimestamp` is `none` while it is the zero time. -/
structure ObjectCacheVersions where
  version : String
  firstUnsatisfiedTimestamp : Option Int
  deriving DecidableEq

abbrev ObjectVersions := String → Option ObjectCacheVersions

def parseUint (s : String) : Option Nat := (parseNat s.toList).filter (· < 2^64)

def isResourceVersionNewer (old new : String) : Bool :=
  if old = "" then true
  else match parseUint old with
    | none => true
    | some oldCount =>
      match parseUint new with
      | none => false
      | some newCount => newCount ≥ oldCount

section

variable (table : ObjectVersions) (obj : Object)

def expect : ObjectVersions :=
  let entry:=(table obj.uid).getD ⟨"",none⟩
  update table obj.uid (some
    (if isResourceVersionNewer entry.version obj.resourceVersion then
      {entry with version := obj.resourceVersion} else entry))

def observe : ObjectVersions :=
  match table obj.uid with
  | none => table
  | some entry =>
    if isResourceVersionNewer entry.version obj.resourceVersion then
      update table obj.uid none
    else table

/- The answer and the time since it was first no. -/
def isSatisfied (now later : Int) : ObjectVersions × Bool × Int :=
  match table obj.uid with
  | none => (table,true,0)
  | some entry =>
    if isResourceVersionNewer entry.version obj.resourceVersion then
      (update table obj.uid none,true,0)
    else
      let first:=entry.firstUnsatisfiedTimestamp.getD now
      (update table obj.uid
        (some {entry with firstUnsatisfiedTimestamp := some first}),false,later-first)

def delete : ObjectVersions := update table obj.uid none

end

inductive Op
  | expect (obj : Object)
  | observe (obj : Object)
  | isSatisfied (obj : Object) (now later : Int)
  | delete (obj : Object)

def Op.object : Op → Object
  | .expect obj | .observe obj | .isSatisfied obj _ _ | .delete obj => obj

def Op.apply (table : ObjectVersions) : Op → ObjectVersions
  | .expect obj => Expectations.expect table obj
  | .observe obj => Expectations.observe table obj
  | .isSatisfied obj now later => (Expectations.isSatisfied table obj now later).1
  | .delete obj => Expectations.delete table obj

def run (ops : List Op) : ObjectVersions := ops.foldl Op.apply fun _ => none

def versionOf (obj : Object) : Nat := (parseUint obj.resourceVersion).getD 0

def maxVersion (versions : List Nat) : Nat := versions.foldr max 0

/- Since they were last cleared: by a deletion, or by an object with at least the largest of them.
-/
def Op.expected (uid : String) (versions : List Nat) : Op → List Nat
  | .expect obj => if obj.uid=uid then versionOf obj::versions else versions
  | .observe obj | .isSatisfied obj _ _ =>
    if obj.uid=uid ∧ maxVersion versions≤versionOf obj then [] else versions
  | .delete obj => if obj.uid=uid then [] else versions

def expectedSince (ops : List Op) (uid : String) : List Nat := ops.foldl (Op.expected uid) []

def Represents (versions : List Nat) : Option ObjectCacheVersions → Prop
  | none => versions=[]
  | some entry => versions≠[] ∧ parseUint entry.version=some (maxVersion versions)

def Decimal (obj : Object) : Prop := ∃ n,parseUint obj.resourceVersion=some n

variable {obj : Object}

theorem Decimal.parse (h : Decimal obj) : parseUint obj.resourceVersion=some (versionOf obj) := by
  obtain ⟨n,hn⟩ := h
  rw [versionOf,hn]
  rfl

theorem ne_empty_of_parse {s : String} {n : Nat} (h : parseUint s=some n) : s ≠ "" := by
  rintro rfl
  cases h

theorem isResourceVersionNewer_iff {old new : String} {oldCount newCount : Nat}
    (ho : parseUint old=some oldCount) (hn : parseUint new=some newCount) :
    isResourceVersionNewer old new ↔ oldCount≤newCount := by
  rw [isResourceVersionNewer,if_neg (ne_empty_of_parse ho),ho,hn]
  exact decide_eq_true_iff

def waiting (obj : Object) (entry : Option ObjectCacheVersions) : Option ObjectCacheVersions :=
  entry.filter fun e => !isResourceVersionNewer e.version obj.resourceVersion

@[simp] theorem waiting_none (obj : Object) : waiting obj none=none := rfl

theorem waiting_of_newer {e : ObjectCacheVersions} (h : isResourceVersionNewer e.version obj.resourceVersion) :
    waiting obj (some e)=none := by
  rw [waiting,Option.filter_some,h]
  rfl

theorem waiting_of_older {e : ObjectCacheVersions}
    (h : isResourceVersionNewer e.version obj.resourceVersion=false) : waiting obj (some e)=some e := by
  rw [waiting,Option.filter_some,h]
  rfl

def Op.entry (entry : Option ObjectCacheVersions) : Op → Option ObjectCacheVersions
  | .expect obj =>
    let old:=entry.getD ⟨"",none⟩
    some (if isResourceVersionNewer old.version obj.resourceVersion then
      {old with version := obj.resourceVersion} else old)
  | .observe obj => waiting obj entry
  | .isSatisfied obj now _ => (waiting obj entry).map fun e =>
    {e with firstUnsatisfiedTimestamp := some (e.firstUnsatisfiedTimestamp.getD now)}
  | .delete _ => none

theorem apply_eq_update (table : ObjectVersions) (op : Op) :
    op.apply table=Function.update table op.object.uid (op.entry (table op.object.uid)) := by
  cases op with
  | expect obj => rfl
  | observe obj =>
    simp only [Op.apply,observe,Op.object,Op.entry]
    cases he : table obj.uid with
    | none => exact (update_eq_self_iff.mpr he.symm).symm
    | some e =>
      cases hn : isResourceVersionNewer e.version obj.resourceVersion with
      | true => simp [hn,waiting_of_newer hn]
      | false =>
        have hsame : update table obj.uid (some e)=table :=
          update_eq_self_iff.mpr he.symm
        rw [waiting_of_older hn,hsame]
        simp [hn]
  | isSatisfied obj now later =>
    simp only [Op.apply,isSatisfied,Op.object,Op.entry]
    cases he : table obj.uid with
    | none => exact (update_eq_self_iff.mpr he.symm).symm
    | some e =>
      cases hn : isResourceVersionNewer e.version obj.resourceVersion with
      | true => simp [hn,waiting_of_newer hn]
      | false => simp [hn,waiting_of_older hn]
  | delete obj => rfl

theorem isSatisfied_answer (table : ObjectVersions) (obj : Object) (now later : Int) :
    (isSatisfied table obj now later).2.1=(waiting obj (table obj.uid)).isNone := by
  unfold isSatisfied
  cases table obj.uid with
  | none => rfl
  | some e =>
    cases hn : isResourceVersionNewer e.version obj.resourceVersion with
    | true => simp [hn,waiting_of_newer hn]
    | false => simp [hn,waiting_of_older hn]

section

variable {versions : List Nat} {entry : Option ObjectCacheVersions}

theorem Represents.expect (h : Represents versions entry) (ho : Decimal obj) :
    Represents (versionOf obj::versions) ((Op.expect obj).entry entry) := by
  have hpar:=ho.parse
  refine ⟨cons_ne_nil _ _,?_⟩
  cases entry with
  | none =>
    have he : versions=[] := h
    subst he
    rw [Option.getD_none,isResourceVersionNewer,if_pos rfl,if_pos rfl]
    simpa [maxVersion] using hpar
  | some e =>
    obtain ⟨-,hm⟩ := h
    have hi:=isResourceVersionNewer_iff hm hpar
    have hcons : maxVersion (versionOf obj::versions) = max (versionOf obj) (maxVersion versions) := rfl
    rw [Option.getD_some,hcons]
    by_cases hle : maxVersion versions≤versionOf obj
    · rw [if_pos (hi.mpr hle),max_eq_left hle]
      exact hpar
    · rw [if_neg (fun hn => hle (hi.mp hn)),max_eq_right (by omega)]
      exact hm

theorem Represents.waiting (h : Represents versions entry) (ho : Decimal obj) :
    Represents (if maxVersion versions≤versionOf obj then [] else versions) (waiting obj entry) ∧
      ((waiting obj entry).isNone ↔ maxVersion versions≤versionOf obj) := by
  cases entry with
  | none =>
    have he : versions=[] := h
    subst he
    exact ⟨rfl,by simp [maxVersion]⟩
  | some e =>
    have hi:=isResourceVersionNewer_iff h.2 ho.parse
    by_cases hle : maxVersion versions≤versionOf obj
    · rw [if_pos hle,waiting_of_newer (hi.mpr hle)]
      exact ⟨rfl,by simp [hle]⟩
    · have hn : isResourceVersionNewer e.version obj.resourceVersion=false := by
        rw [← Bool.not_eq_true,hi]
        exact hle
      rw [if_neg hle,waiting_of_older hn]
      exact ⟨h,by simp [hle]⟩

theorem Represents.map (h : Represents versions entry)
    {f : ObjectCacheVersions → ObjectCacheVersions} (hf : ∀ e,(f e).version=e.version) :
    Represents versions (entry.map f) := by
  cases entry with
  | none => exact h
  | some e => exact ⟨h.1,by rw [hf]; exact h.2⟩

end

theorem Op.expected_of_ne (op : Op) {uid : String} (versions : List Nat)
    (h : uid≠op.object.uid) : op.expected uid versions=versions := by
  have hne : op.object.uid≠uid := Ne.symm h
  cases op with
  | expect obj => exact if_neg hne
  | observe obj => exact if_neg fun hboth => hne hboth.1
  | isSatisfied obj now later => exact if_neg fun hboth => hne hboth.1
  | delete obj => exact if_neg hne

theorem Represents.entry {versions : List Nat} {entry : Option ObjectCacheVersions}
    (h : Represents versions entry) {op : Op} (hop : Decimal op.object) :
    Represents (op.expected op.object.uid versions) (op.entry entry) := by
  cases op with
  | expect obj =>
    simp only [Op.expected,Op.object,if_true]
    exact h.expect hop
  | observe obj =>
    simp only [Op.expected,Op.object,true_and]
    exact (h.waiting hop).1
  | isSatisfied obj now later =>
    simp only [Op.expected,Op.object,true_and]
    exact (h.waiting hop).1.map fun e => rfl
  | delete obj =>
    simp only [Op.expected,Op.object,if_true]
    rfl

variable (ops : List Op)

theorem run_concat (op : Op) : run (ops++[op])=op.apply (run ops) := by
  unfold run
  rw [foldl_append]
  rfl

theorem run_represents (ho : ∀ op∈ops,Decimal op.object) (uid : String) :
    Represents (expectedSince ops uid) (run ops uid) := by
  induction ops using reverseRecOn with
  | nil => rfl
  | append_singleton ops op ih =>
    have hbef:=ih fun other hoth => ho other (mem_append_left _ hoth)
    have hop:=ho op (mem_append_right _ mem_cons_self)
    have he : expectedSince (ops++[op]) uid=op.expected uid (expectedSince ops uid) := by
      unfold expectedSince
      rw [foldl_append]
      rfl
    rw [he,run_concat,apply_eq_update]
    by_cases hu : uid=op.object.uid
    · subst hu
      rw [update_self]
      exact hbef.entry hop
    · rw [update_of_ne hu,op.expected_of_ne _ hu]
      exact hbef

def Op.isFor (uid : String) (op : Op) : Bool := op.object.uid=uid

theorem run_filter (uid : String) : run ops uid=run (ops.filter (Op.isFor uid)) uid := by
  induction ops using reverseRecOn with
  | nil => rfl
  | append_singleton ops op ih =>
    rw [filter_append,run_concat,apply_eq_update]
    by_cases hu : uid=op.object.uid
    · subst hu
      have hf : op.isFor op.object.uid := by simp [Op.isFor]
      rw [filter_cons_of_pos hf,filter_nil,run_concat,apply_eq_update,update_self,update_self,ih]
    · have ho : ¬op.isFor uid := by
        simpa [Op.isFor] using Ne.symm hu
      rw [filter_cons_of_neg ho,filter_nil,append_nil,update_of_ne hu,ih]

theorem isSatisfied_congr {table table' : ObjectVersions} (h : table obj.uid=table' obj.uid) (now later : Int) :
    (isSatisfied table obj now later).2=(isSatisfied table' obj now later).2 := by
  unfold isSatisfied
  rw [← h]
  split
  · rfl
  · split_ifs <;> rfl

/-- `IsSatisfied` says yes exactly to an object with at least the largest version that was expected
since the entry was cleared; calls for other UIDs make no difference. -/
theorem isSatisfied_newest_expected (ops : List Op) (obj : Object) (now later : Int)
    (hops : ∀ op∈ops,Decimal op.object) (hobj : Decimal obj) :
    ((isSatisfied (run ops) obj now later).2.1 ↔ maxVersion (expectedSince ops obj.uid)≤versionOf obj) ∧
      (isSatisfied (run ops) obj now later).2 =
        (isSatisfied (run (ops.filter (Op.isFor obj.uid))) obj now later).2 :=
  ⟨by rw [isSatisfied_answer]; exact ((run_represents ops hops obj.uid).waiting hobj).2,
    isSatisfied_congr (run_filter ops obj.uid) now later⟩

/- The older version of an expectation that comes second does not count; 7 does not satisfy 12. -/
def expectTwice : List Op :=
  [.expect ⟨"a", "12"⟩,.expect ⟨"b", "90"⟩,.expect ⟨"a", "10"⟩,.observe ⟨"a", "11"⟩]

theorem expectTwice_newest :
    (isSatisfied (run expectTwice) ⟨"a", "7"⟩ 0 0).2.1=false ∧
      ((isSatisfied (run expectTwice) ⟨"a", "012"⟩ 0 0).2.1 ↔
        maxVersion (expectedSince expectTwice "a")≤versionOf ⟨"a", "012"⟩) := by
  have ho : ∀ op∈expectTwice,Decimal op.object := by
    intro op hop
    simp only [expectTwice,mem_cons,not_mem_nil,or_false] at hop
    rcases hop with rfl | rfl | rfl | rfl
    · exact ⟨12,by decide⟩
    · exact ⟨90,by decide⟩
    · exact ⟨10,by decide⟩
    · exact ⟨11,by decide⟩
  exact ⟨by decide,(isSatisfied_newest_expected expectTwice ⟨"a", "012"⟩ 0 0 ho ⟨12,by decide⟩).1⟩

end Kruise.Expectations
