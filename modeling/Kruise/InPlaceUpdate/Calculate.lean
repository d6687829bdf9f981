import Kruise.ContainerMeta.Env
import Kruise.InPlaceUpdate.Patch

/-!
# The update spec between two revisions

`defaultCalculateInPlaceUpdateSpec` (`inplace_update_defaults.go` 223-335) over the operations of
`jsonpatch.CreatePatch`. A path is the list of its words, escaped as RFC 6901 has it. The patch of
the metadata is that of `strategicpatch.CreateTwoWayMergePatch` (`patch.go` 168-296, 368-379) for
two pods that have nothing but metadata.
-/

namespace Kruise.InPlaceUpdate

open ContainerMeta Lib.Keyed Util.IntStr

def Field.word : Field → String
  | .labels => "labels"
  | .annotations => "annotations"

def Field.ofWord (w : String) : Option Field :=
  if w = "labels" then some .labels else if w = "annotations" then some .annotations else none

theorem Field.ofWord_word (f : Field) : Field.ofWord f.word=some f := by
  cases f <;> decide

/- The path that environment variables use. -/
def Field.metadataPath (f : Field) : String := "metadata." ++ f.word

def ObjectMeta.set (m : ObjectMeta) (f : Field) (values : TextMap) : ObjectMeta :=
  match f with
  | .labels => {m with labels := values}
  | .annotations => {m with annotations := values}

@[simp] theorem ObjectMeta.get_set (m : ObjectMeta) (f g : Field) (values : TextMap) :
    (m.set f values).get g=if g=f then values else m.get g := by
  cases f <;> cases g <;> rfl

structure TemplateContainer where
  name : String
  image : String
  env : List EnvVar
  deriving DecidableEq,Repr

/- The template in the data of a revision, where labels and annotations may be missing. -/
structure Template where
  containers : List TemplateContainer
  fields : Field → Option TextMap
  distinct : (containers.map TemplateContainer.name).Nodup

def Template.objectMeta (t : Template) : ObjectMeta :=
  ⟨(t.fields .labels).getD ∅,(t.fields .annotations).getD ∅⟩

def Template.value (t : Template) (f : Field) (k : String) : Option String :=
  (t.fields f).bind fun m => m.lookup k

theorem Template.lookup_objectMeta (t : Template) (f : Field) (k : String) :
    (t.objectMeta.get f).lookup k=t.value f k := by
  have hg : t.objectMeta.get f=(t.fields f).getD ∅ := by cases f <;> rfl
  rw [hg,Template.value]
  cases t.fields f with
  | none => rfl
  | some m => rfl

inductive Kind
  | add
  | replace
  | remove
  deriving DecidableEq,Repr

/- A text, a map of texts, or a value that nothing looks into. -/
inductive Value
  | text (s : String)
  | map (m : TextMap)
  | other

/- The type assertion `Value.(string)`. -/
def Value.string : Value → Option String
  | .text s => some s
  | _ => none

structure Operation where
  kind : Kind
  path : List String
  value : Value

def encodeChars : List Char → List Char
  | [] => []
  | c::cs =>
    if c = '~' then '~' :: '0'::encodeChars cs
    else if c = '/' then '~' :: '1'::encodeChars cs
    else c::encodeChars cs

def decodeChars : List Char → List Char
  | '~' :: '1'::cs => '/'::decodeChars cs
  | '~' :: '0'::cs => '~'::decodeChars cs
  | c::cs => c::decodeChars cs
  | [] => []

theorem decodeChars_cons {c : Char} (hc : c ≠ '~') (cs : List Char) : decodeChars (c::cs)=c::decodeChars cs := by
  rw [decodeChars]
  · intro _ h
    exact absurd h hc
  · intro _ h
    exact absurd h hc

theorem decodeChars_encodeChars (cs : List Char) : decodeChars (encodeChars cs)=cs := by
  induction cs with
  | nil => rfl
  | cons c cs ih =>
    unfold encodeChars
    by_cases ht : c = '~'
    · rw [if_pos ht,decodeChars,ih,ht]
    · rw [if_neg ht]
      by_cases hslash : c = '/'
      · rw [if_pos hslash,decodeChars,ih,hslash]
      · rw [if_neg hslash,decodeChars_cons ht,ih]

def encodeKey (k : String) : String := String.ofList (encodeChars k.toList)

def decodeKey (w : String) : String := String.ofList (decodeChars w.toList)

theorem decodeKey_encodeKey (k : String) : decodeKey (encodeKey k)=k := by
  unfold decodeKey encodeKey
  rw [String.toList_ofList,decodeChars_encodeChars,String.ofList_toList]

/- `strings.Replace(op.Path, "/spec/template", "", 1)`. -/
def cutTemplate : List String → List String
  | a::b::rest => if a = "spec" ∧ b = "template" then rest else a::b::rest
  | path => path

def underMetadata : List String → Bool
  | a::_::_ => a == "metadata"
  | _ => false

/- The index in a path that `containerImagePatchRexp` matches. -/
def imageIndex : List String → Option Nat
  | [a,b,idx,d] =>
    if a = "spec" ∧ b = "containers" ∧ d = "image" then parseNat idx.toList else none
  | _ => none

structure Sorted where
  containerImages : TextMap
  metadataPatches : List Operation

def sortOperation (oldTemp : Template) (acc : Sorted) (op : Operation) : Option Sorted :=
  let path:=cutTemplate op.path
  if underMetadata path then
    some {acc with metadataPatches := acc.metadataPatches++[{op with path := path}]}
  else if op.kind≠.replace then none
  else match imageIndex path with
    | none => none
    | some idx =>
      match oldTemp.containers[idx]?,op.value.string with
      | some c,some image =>
        some {acc with containerImages := acc.containerImages.insert c.name image}
      | _,_ => none

/- The key of a path such as /metadata/labels/my-label-key; further words belong to the key. -/
def metadataKey : List String → Option (Field × String)
  | _::w::key::rest =>
    (Field.ofWord w).map fun f => (f,decodeKey (String.intercalate "/" (key::rest)))
  | _ => none

structure Moved where
  containerRefMetadata : RefMetadata
  oldMeta : ObjectMeta
  newMeta : ObjectMeta
  updateEnvFromMetadata : Bool

def moveKey (f : Field) (key : String) (value : Value) (acc : Moved) (c : TemplateContainer) : Option Moved :=
  if isContainerReferenceToMeta c.env f.metadataPath key then
    value.string.map fun v =>
      let objMeta:=(acc.containerRefMetadata.lookup c.name).getD ⟨∅,∅⟩
      { containerRefMetadata :=
          acc.containerRefMetadata.insert c.name (objMeta.set f ((objMeta.get f).insert key v))
        oldMeta := acc.oldMeta.set f ((acc.oldMeta.get f).erase key)
        newMeta := acc.newMeta.set f ((acc.newMeta.get f).erase key)
        updateEnvFromMetadata := true}
  else some acc

def moveOperation (containers : List TemplateContainer) (acc : Moved) (op : Operation) : Option Moved :=
  if op.kind=.remove then some acc
  else match metadataKey op.path with
    | none => some acc
    | some (f,key) => containers.foldlM (moveKey f key op.value) acc

/- How the value of a key changes; `some none` deletes the key. -/
def changeOf (old new : TextMap) (k : String) : Option (Option String) :=
  match new.lookup k with
  | some v => if old.lookup k=some v then none else some (some v)
  | none => if (old.lookup k).isSome then some none else none

def diffMap (old new : TextMap) : MapPatch :=
  if new.entries.isEmpty then
    if old.entries.isEmpty then .keep else .clear
  else .merge (fill id (changeOf old new) (new.keys++old.keys).dedup ∅)

def createTwoWayMergePatch (old new : ObjectMeta) : MetaDataPatch :=
  ⟨diffMap old.labels new.labels,diffMap old.annotations new.annotations⟩

/- `revision` is the name of the new revision or what `GetRevision` makes of it, and
`envFromMetadata` the feature gate. -/
structure UpdateOptions where
  gracePeriodSeconds : Int
  revision : String
  envFromMetadata : Bool

def defaultCalculateInPlaceUpdateSpec (opts : UpdateOptions) (patches : List Operation)
    (oldTemp newTemp : Template) : Option UpdateSpec :=
  (patches.foldlM (sortOperation oldTemp) ⟨∅,[]⟩).bind fun sorted =>
    let unmoved : Moved := ⟨∅,oldTemp.objectMeta,newTemp.objectMeta,false⟩
    let moved :=
      if opts.envFromMetadata then
        sorted.metadataPatches.foldlM (moveOperation newTemp.containers) unmoved
      else some unmoved
    moved.map fun moved =>
      { revision := opts.revision
        containerImages := sorted.containerImages
        containerRefMetadata := moved.containerRefMetadata
        metaDataPatch :=
          if sorted.metadataPatches.isEmpty then none
          else some (createTwoWayMergePatch moved.oldMeta moved.newMeta)
        updateEnvFromMetadata := moved.updateEnvFromMetadata
        graceSeconds := opts.gracePeriodSeconds}

theorem lookup_changes (old new : TextMap) (k : String) :
    (fill id (changeOf old new) (new.keys++old.keys).dedup ∅).lookup k=changeOf old new k := by
  have hnd : ((new.keys++old.keys).dedup.map id).Nodup := by
    rw [List.map_id]
    exact List.nodup_dedup _
  by_cases hk : k∈(new.keys++old.keys).dedup
  · exact lookup_fill id (changeOf old new) hnd hk
  · rw [lookup_fill_of_notMem id (changeOf old new) hnd (by rw [List.map_id]; exact hk)]
    rw [List.mem_dedup,List.mem_append,not_or] at hk
    have hn : new.lookup k=none := AList.lookup_eq_none.mpr hk.1
    have ho : old.lookup k=none := AList.lookup_eq_none.mpr hk.2
    simp [changeOf,hn,ho]

theorem lookup_of_isEmpty {m : TextMap} (h : m.entries.isEmpty) (k : String) : m.lookup k=none := by
  have hkeys : k∉m.keys := by
    rw [AList.keys,List.keys,List.isEmpty_iff.mp h]
    exact List.not_mem_nil
  exact AList.lookup_eq_none.mpr fun hk => hkeys (AList.mem_keys.mp hk)

theorem isEmpty_iff_lookup {m : TextMap} : m.entries.isEmpty ↔ ∀ k,m.lookup k=none := by
  refine ⟨lookup_of_isEmpty,fun h => ?_⟩
  by_contra he
  obtain ⟨e,es,hes⟩ := List.exists_cons_of_ne_nil (mt List.isEmpty_iff.mpr he)
  have hl : m.lookup e.1=some e.2 := AList.mem_lookup_iff.mpr (by simp [hes])
  rw [h e.1] at hl
  cases hl

theorem clears_diffMap_iff {old new : TextMap} :
    (diffMap old new).clears ↔ (∀ k,new.lookup k=none) ∧ ∃ k,(old.lookup k).isSome := by
  have ho : (∃ k,(old.lookup k).isSome) ↔ ¬old.entries.isEmpty := by
    rw [isEmpty_iff_lookup,not_forall]
    simp only [Option.isSome_iff_ne_none]
  rw [ho,← isEmpty_iff_lookup]
  unfold diffMap
  by_cases hn : new.entries.isEmpty <;> by_cases he : old.entries.isEmpty <;> simp [MapPatch.clears,hn,he]

/-- On a map with the old values, the patch gives the new ones and deletes the others of the old
ones, or all others. -/
theorem apply_diffMap {old new : TextMap} {m : Values} {k : String} (ho : ∀ v,old.lookup k=some v → m k=some v) :
    (diffMap old new).apply m k = (new.lookup k).or
      (if (old.lookup k).isSome||(diffMap old new).clears then none else m k) := by
  unfold diffMap
  by_cases hn : new.entries.isEmpty
  · rw [lookup_of_isEmpty hn,Option.none_or]
    by_cases he : old.entries.isEmpty
    · rw [if_pos hn,if_pos he,lookup_of_isEmpty he]
      rfl
    · rw [if_pos hn,if_neg he]
      simp [MapPatch.clears,MapPatch.apply]
  · rw [if_neg hn]
    simp only [MapPatch.apply,lookup_changes,MapPatch.clears,Bool.or_false]
    unfold changeOf
    cases hk : new.lookup k with
    | some v =>
      dsimp only
      rw [Option.some_or]
      split_ifs with hsame
      · exact ho v hsame
      · rfl
    | none =>
      split_ifs with hsome <;> rfl

end Kruise.InPlaceUpdate
