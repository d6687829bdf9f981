import Kruise.Lib.MergePatch
import Kruise.Sidecar.Validate

/-!
# Patching the metadata of a pod twice

`PatchPodMetadata` (`pkg/control/sidecarcontrol/util.go` 450-506) over the annotations of a pod. A
merge patch for an annotation that is missing or empty is stored as it stands. Applied again it is
merged into itself, which writes it anew and drops its `null` members. With the vendored library, an
array that has replaced an object loses the `null` members of its items then.
-/

namespace Kruise.Sidecar

open Lib.MergePatch List

abbrev Annotations := AList (fun _ : String => String)

/-- A patch with its values, in the order in which the map is visited. -/
structure AnnotationPatch where
  annotations : List (String × String)
  patchPolicy : PatchPolicy

def AnnotationPatch.metadata (p : AnnotationPatch) : PatchPodMetadata :=
  ⟨p.annotations.map Prod.fst,p.patchPolicy⟩

section

variable {A K : Type} (c : Codec A K) (annos : Annotations) (p : AnnotationPatch)

def retainPatchPodMetadata : Annotations :=
  p.annotations.foldl (fun a kv =>
    if (a.lookup kv.1).isSome then a else a.insert kv.1 kv.2) annos

def overwritePatchPodMetadata : Annotations :=
  p.annotations.foldl (fun a kv => a.insert kv.1 kv.2) annos

def mergePatchEntry (a : Annotations) (kv : String × String) : Except String Annotations :=
  let origin:=(a.lookup kv.1).getD ""
  if origin ≠ "" then (c.mergePatch origin kv.2).map (a.insert kv.1)
  else .ok (a.insert kv.1 kv.2)

def mergePatchJsonPodMetadata : Except String Annotations :=
  p.annotations.foldlM (mergePatchEntry c) annos

def patchPod : Except String Annotations :=
  match p.patchPolicy with
  | .retain => .ok (retainPatchPodMetadata annos p)
  | .overwrite => .ok (overwritePatchPodMetadata annos p)
  | .mergePatchJson => mergePatchJsonPodMetadata c annos p

/-- The annotations afterwards, and whether there was nothing to be done. -/
def patchPodMetadata (patches : List AnnotationPatch) : Except String (Annotations × Bool) :=
  (patches.foldlM (patchPod c) annos).map fun out => (out,decide (annos.entries.Perm out.entries))

end

/-- The same patches, their maps visited in another order. -/
def Reordered (patches patches' : List AnnotationPatch) : Prop :=
  Forall₂ (fun p q => q.annotations.Perm p.annotations ∧ q.patchPolicy=p.patchPolicy)
    patches patches'

/-- One annotation of a patch. -/
structure PatchEntry where
  policy : PatchPolicy
  key : String
  text : String

def entriesOf (patches : List AnnotationPatch) : List PatchEntry :=
  patches.flatMap fun p => p.annotations.map fun kv => ⟨p.patchPolicy,kv.1,kv.2⟩

variable {patches : List AnnotationPatch}

theorem Reordered.perm {patches patches' : List AnnotationPatch} (h : Reordered patches patches') :
    (entriesOf patches').Perm (entriesOf patches) := by
  induction h with
  | nil => exact Perm.refl _
  | cons hpq _ ih =>
    unfold entriesOf at ih ⊢
    rw [flatMap_cons,flatMap_cons,hpq.2]
    exact (hpq.1.map _).append ih

section

variable {A K : Type} {c : Codec A K}

/-- What a policy makes of the value of an annotation. -/
def patched (c : Codec A K) (policy : PatchPolicy) (old : Option String) (text : String) : Except String String :=
  match policy with
  | .retain => .ok (old.getD text)
  | .overwrite => .ok text
  | .mergePatchJson =>
    if old.getD "" ≠ "" then c.mergePatch (old.getD "") text else .ok text

end

end Kruise.Sidecar
