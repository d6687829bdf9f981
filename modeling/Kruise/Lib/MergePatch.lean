import Mathlib.Data.Finset.Sort
import Mathlib.Data.Set.Finite.Lattice
import Mathlib.Data.String.Basic

/-!
# JSON values and merge patches

JSON trees, and merge patches over them as RFC 7386 has them and as `evanphx/json-patch` computes them
(`merge.go`). The library departs from the standard: a patch that is `null`, a string, a number or a
truth value is refused, and what replaces a value that is not an object loses the `null` members of the
objects in its arrays too. What replaces an object is kept as it stands, so that an array can change
again when the same patch is applied to its own result.
-/

namespace Kruise.Lib.MergePatch

inductive Library
  | rfc7386
  | jsonPatch

/-- JSON values; `A` are the literals other than `null`, which stay as they are written, and `K` the
keys of objects. -/
inductive Json (A K : Type) where
  | null
  | atom (a : A)
  | array (items : List (Json A K))
  | object (members : K → Option (Json A K))

abbrev Members (A K : Type) := K → Option (Json A K)

variable {A K : Type}

namespace Json

def isNull : Json A K → Bool
  | .null => true
  | _ => false

def isObject : Json A K → Bool
  | .object _ => true
  | _ => false

/- Objects have finitely many members. -/
inductive Finite : Json A K → Prop
  | null : Finite .null
  | atom (a : A) : Finite (.atom a)
  | array {items : List (Json A K)} : (∀ j∈items,Finite j) → Finite (.array items)
  | object {ms : Members A K} : {k | (ms k).isSome}.Finite → (∀ k v,ms k=some v → Finite v) →
      Finite (.object ms)

variable (lib : Library)

/- `json-patch` takes no `null` as document. -/
def isDocument (j : Json A K) : Bool :=
  match lib with
  | .rfc7386 => true
  | .jsonPatch => !j.isNull

/- It takes an object or an array as patch. -/
def isPatch : Json A K → Bool
  | .object _ => true
  | .array _ => true
  | _ =>
    match lib with
    | .rfc7386 => true
    | .jsonPatch => false

mutual

/- `pruneNulls`: the `null` items of an array stay. The standard leaves arrays alone. -/
def prune : Json A K → Json A K
  | .array items =>
    match lib with
    | .rfc7386 => .array items
    | .jsonPatch => .array (pruneItems items)
  | .object ms => .object fun k => pruneMember (ms k)
  | j => j

def pruneItems : List (Json A K) → List (Json A K)
  | [] => []
  | j::js => prune j::pruneItems js

def pruneMember : Option (Json A K) → Option (Json A K)
  | none => none
  | some v => if v.isNull then none else some (prune v)

end

mutual

/- A target that is no object is replaced by the pruned patch. -/
def merge (target : Json A K) : Json A K → Json A K
  | .object ps =>
    match target with
    | .object ts => .object fun k => mergeMember (ts k) (ps k)
    | _ => prune lib (.object ps)
  | patch => if target.isObject then patch else prune lib patch

def mergeMember (target : Option (Json A K)) : Option (Json A K) → Option (Json A K)
  | none => target
  | some v => if v.isNull then none else some (merge (target.getD .null) v)

end

mutual

/-- The patch leaves its result alone: what it puts in the place of an object is pruned. -/
def Settled (target : Json A K) : Json A K → Prop
  | .object ps =>
    match target with
    | .object ts => ∀ k,SettledMember (ts k) (ps k)
    | _ => True
  | patch => target.isObject → prune lib patch=patch

def SettledMember (target : Option (Json A K)) : Option (Json A K) → Prop
  | none => True
  | some v => v.isNull=false → Settled (target.getD .null) v

end

mutual

/- A pruned patch is what it makes of itself. -/
theorem merge_prune : ∀ patch : Json A K,merge lib (prune lib patch) patch=prune lib patch
  | .null => rfl
  | .atom _ => rfl
  | .array _ => by cases lib <;> rfl
  | .object ps => congrArg Json.object (funext fun k => mergeMember_pruneMember (ps k))

theorem mergeMember_pruneMember : ∀ p : Option (Json A K),
    mergeMember lib (pruneMember lib p) p=pruneMember lib p
  | none => rfl
  | some v => by
    unfold pruneMember mergeMember
    split_ifs
    · rfl
    · exact congrArg some (merge_prune v)

end

theorem merge_merge_iff_of_not_isObject {target patch : Json A K} (h : patch.isObject=false) :
    merge lib (merge lib target patch) patch=merge lib target patch ↔ Settled lib target patch := by
  have hm : ∀ t : Json A K,merge lib t patch=if t.isObject then patch else prune lib patch := by
    intro t
    cases patch with
    | object ps => cases h
    | _ => rfl
  have hs : Settled lib target patch ↔ (target.isObject → prune lib patch=patch) := by
    cases patch with
    | object ps => cases h
    | _ => exact Iff.rfl
  rw [hs,hm target]
  cases target.isObject with
  | false => exact iff_of_true (merge_prune lib patch) (by simp)
  | true => simp [hm patch,h]

mutual

theorem merge_merge_iff : ∀ target patch : Json A K,
    merge lib (merge lib target patch) patch=merge lib target patch ↔ Settled lib target patch
  | _,.null => merge_merge_iff_of_not_isObject lib rfl
  | _,.atom _ => merge_merge_iff_of_not_isObject lib rfl
  | _,.array _ => merge_merge_iff_of_not_isObject lib rfl
  | target,.object ps => by
    cases target with
    | object ts =>
      simp only [merge,Settled,Json.object.injEq,funext_iff]
      exact forall_congr' fun k => mergeMember_iff (ts k) (ps k)
    | _ => exact iff_of_true (merge_prune lib (.object ps)) trivial

theorem mergeMember_iff : ∀ target patch : Option (Json A K),
    mergeMember lib (mergeMember lib target patch) patch=mergeMember lib target patch ↔
      SettledMember lib target patch
  | _,none => iff_of_true rfl trivial
  | target,some v => by
    simp only [mergeMember,SettledMember]
    cases v.isNull with
    | true => simp
    | false => simpa using merge_merge_iff (target.getD .null) v

end

mutual

theorem settled_rfc7386 : ∀ target patch : Json A K,Settled .rfc7386 target patch
  | _,.null => fun _ => rfl
  | _,.atom _ => fun _ => rfl
  | _,.array _ => fun _ => rfl
  | target,.object ps => by
    cases target with
    | object ts => exact fun k => settledMember_rfc7386 (ts k) (ps k)
    | _ => trivial

theorem settledMember_rfc7386 : ∀ target patch : Option (Json A K),SettledMember .rfc7386 target patch
  | _,none => trivial
  | target,some v => fun _ => settled_rfc7386 (target.getD .null) v

end

mutual

theorem merge_self_iff : ∀ j : Json A K,merge lib j j=j ↔ prune lib j=j
  | .null => Iff.rfl
  | .atom _ => Iff.rfl
  | .array _ => Iff.rfl
  | .object ms => by
    simp only [merge,prune,Json.object.injEq,funext_iff]
    exact forall_congr' fun k => mergeMember_self_iff (ms k)

theorem mergeMember_self_iff : ∀ m : Option (Json A K),mergeMember lib m m=m ↔ pruneMember lib m=m
  | none => Iff.rfl
  | some v => by
    simp only [mergeMember,pruneMember]
    cases v.isNull with
    | true => rfl
    | false => simpa using merge_self_iff v

end

theorem pruneItems_eq (items : List (Json A K)) : pruneItems lib items=items.map (prune lib) := by
  induction items with
  | nil => rfl
  | cons j js ih => rw [pruneItems,ih,List.map_cons]

variable {lib} {target patch : Json A K}

theorem Finite.prune (h : patch.Finite) : (prune lib patch).Finite := by
  induction h with
  | null => exact .null
  | atom a => exact .atom a
  | array h ih =>
    cases lib with
    | rfc7386 => exact .array h
    | jsonPatch =>
      refine .array fun j hj => ?_
      rw [pruneItems_eq] at hj
      obtain ⟨i,hi,rfl⟩ := List.mem_map.mp hj
      exact ih i hi
  | @object ms hms _ ih =>
    refine .object (hms.subset fun k hk => ?_) fun k v hv => ?_
    · cases hm : ms k with
      | none => simp [hm,pruneMember] at hk
      | some v => simp [hm]
    · cases hm : ms k with
      | none => simp [hm,pruneMember] at hv
      | some w =>
        simp only [hm,pruneMember] at hv
        split_ifs at hv
        cases hv
        exact ih k w hm

theorem Finite.merge (hp : patch.Finite) (ht : target.Finite) : (merge lib target patch).Finite := by
  induction hp generalizing target with
  | null => cases target <;> exact .null
  | atom a => cases target <;> exact .atom a
  | array h _ =>
    cases target with
    | object ts => exact .array h
    | _ => exact Finite.prune (.array h)
  | @object ps hps h ih =>
    cases ht with
    | @object ts hts hval =>
      refine .object ((hts.union hps).subset fun k hk => ?_) fun k v hv => ?_
      · cases hm : ps k with
        | none => simpa [hm,mergeMember] using hk
        | some w => simp [hm]
      · cases hm : ps k with
        | none =>
          rw [hm,mergeMember] at hv
          exact hval k v hv
        | some w =>
          simp only [hm,mergeMember] at hv
          split_ifs at hv
          cases hv
          refine ih k w hm ?_
          cases htk : ts k with
          | none => exact .null
          | some t => exact hval k t htk
    | _ => exact Finite.prune (.object hps h)

end Json

open Json List

/-- A library with its reader and writer of JSON texts: what is written is read back. -/
structure Codec (A K : Type) where
  library : Library
  read : String → Option (Json A K)
  write : Json A K → String
  read_empty : read "" = none
  read_finite : ∀ text j,read text=some j → j.Finite
  read_write : ∀ j,j.Finite → read (write j)=some j

namespace Codec

variable (c : Codec A K)

def merged (doc patch : Json A K) : Json A K :=
  if patch.isObject then merge c.library doc patch else prune c.library patch

/- `doMergePatch`. -/
def mergePatch (doc patch : String) : Except String String :=
  match c.read doc,c.read patch with
  | none,_ => .error "Invalid JSON Document"
  | _,none => .error "Invalid JSON Patch"
  | some d,some p =>
    if !d.isDocument c.library then .error "Invalid JSON Document"
    else if !p.isPatch c.library then .error "Invalid JSON Patch"
    else .ok (c.write (c.merged d p))

/- The patch leaves what it makes of the document alone. -/
def Settles (doc patch : String) : Prop :=
  ∀ d ps,c.read doc=some d → c.read patch=some (.object ps) → Settled c.library d (.object ps)

variable {c} {doc patch out : String}

theorem settles_iff : c.Settles doc patch ↔ (c.library=.jsonPatch → c.Settles doc patch) := by
  refine ⟨fun h _ => h,fun h => ?_⟩
  cases hlib : c.library with
  | jsonPatch => exact h hlib
  | rfc7386 =>
    unfold Settles
    rw [hlib]
    exact fun _ _ _ _ => settled_rfc7386 _ _

section

variable (h : c.mergePatch doc patch=.ok out)
include h

end

end Codec

/-! ## Compact JSON texts -/

section

/- The characters that end a literal. -/
def isStructural (c : Char) : Bool := c∈[',', ':', '[', ']', '\x7b', '\x7d']

/-- The text of a string, a number or a truth value, as far as it has no structural character. -/
abbrev Literal := {s : String // s ≠ "" ∧ s ≠ "null" ∧ ∀ c∈s.toList,isStructural c=false}

/- A comma stands before every text but the first. -/
def listText (close : Char) : Bool → List (List Char) → List Char
  | _,[] => [close]
  | first,t::ts => (if first then t else ',' :: t)++listText close false ts

open Classical in
noncomputable def keysOf (ms : Members Literal Literal) : List Literal :=
  if h : {k | (ms k).isSome}.Finite then h.toFinset.sort else []

mutual

noncomputable def textOf : Json Literal Literal → List Char
  | .null => "null".toList
  | .atom a => a.1.toList
  | .array items => '[' :: listText ']' true (itemTexts items)
  | .object ms => '\x7b' :: listText '\x7d' true ((keysOf ms).map fun k => k.1.toList ++ ':' :: memberText (ms k))

noncomputable def itemTexts : List (Json Literal Literal) → List (List Char)
  | [] => []
  | j::js => textOf j::itemTexts js

noncomputable def memberText : Option (Json Literal Literal) → List Char
  | none => []
  | some v => textOf v

end

/- What follows a value. -/
def Ends (r : List Char) : Prop := ∀ c∈r.head?,isStructural c

section

variable {α : Type} (text : α → List Char) {close : Char}

end

theorem mem_keysOf {ms : Members Literal Literal} (h : {k | (ms k).isSome}.Finite) {k : Literal} :
    k∈keysOf ms ↔ (ms k).isSome := by
  simp [keysOf,h]

end

end Kruise.Lib.MergePatch
