import Kruise.Lib.Text

/-!
# Environment variables that refer to the metadata of the pod

The parts of `env_hash.go` (31-36, 128-146) that tell which variables of a container take their
values from labels and annotations, with `SplitMaybeSubscriptedPath` of `fieldpath.go` (97-110).
-/

namespace Kruise.ContainerMeta

open Lib.Text

/- `fieldPath` is that of `ValueFrom.FieldRef`. -/
structure EnvVar where
  name : String
  value : String
  fieldPath : Option String
  deriving DecidableEq,Repr

def excludeEnvs : List String := ["SIDECARSET_VERSION", "SIDECARSET_VERSION_ALT"]

def splitMaybeSubscriptedPath (fieldPath : String) : Option (String × String) :=
  let cs:=fieldPath.toList
  if "']".toList.isSuffixOf cs then
    match cut "['".toList (cs.take (cs.length-2)) with
    | none => none
    | some (path,subscript) =>
      if path=[] then none else some (String.ofList path,String.ofList subscript)
  else none

def EnvVar.ref (e : EnvVar) : Option (String × String) :=
  if e.value ≠ "" then none
  else e.fieldPath.bind fun path =>
    if e.name∈excludeEnvs then none else splitMaybeSubscriptedPath path

def isContainerReferenceToMeta (env : List EnvVar) (path key : String) : Bool :=
  env.any fun e => e.ref=some (path,key)

end Kruise.ContainerMeta
