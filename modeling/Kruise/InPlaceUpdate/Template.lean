import Kruise.InPlaceUpdate.Batches
import Kruise.InPlaceUpdate.Calculate

/-!
# From one template to the next

An update spec computed from the operations between two templates (RFC 6902) brings a pod of the
old template to the new one. The operations may come in any order, and no label or annotation is
touched twice.
-/

namespace Kruise.InPlaceUpdate

open ContainerMeta Lib.Keyed Util.IntStr List

def fieldPath (f : Field) : List String := ["spec", "template", "metadata",f.word]

def keyPath (f : Field) (k : String) : List String := fieldPath f++[encodeKey k]

def imagePath (i : Nat) : List String :=
  ["spec", "template", "spec", "containers",i.repr, "image"]

def Template.setField (t : Template) (f : Field) (m : Option TextMap) : Template :=
  {t with fields := Function.update t.fields f m}

theorem map_name_modify (cs : List TemplateContainer) (i : Nat) (image : String) :
    (cs.modify i fun c => {c with image := image}).map TemplateContainer.name =
      cs.map TemplateContainer.name := by
  refine ext_getElem? ?_
  intro j
  rw [getElem?_map,getElem?_map,getElem?_modify]
  cases cs[j]? with
  | none => rfl
  | some c => by_cases hij : i=j <;> simp [hij]

def Template.setImage (t : Template) (i : Nat) (image : String) : Template :=
  {t with
    containers := t.containers.modify i fun c => {c with image := image}
    distinct := (map_name_modify t.containers i image).symm ▸ t.distinct}

/- Operations of other kinds or at other places make `defaultCalculateInPlaceUpdateSpec` give up. -/
def Operation.Allowed (op : Operation) : Prop :=
  underMetadata (cutTemplate op.path) ∨
    op.kind=.replace ∧ (imageIndex (cutTemplate op.path)).isSome

def Operation.OnField (op : Operation) : Prop := ∃ f,fieldPath f <+: op.path

/- The parts of a template that are not modelled may change in any way. -/
inductive Applies : Operation → Template → Template → Prop
  | image {t : Template} {i : Nat} {c : TemplateContainer} (image : String) :
      t.containers[i]?=some c →
      Applies ⟨.replace,imagePath i,.text image⟩ t (t.setImage i image)
  | setField {t : Template} {kind : Kind} (f : Field) (m : TextMap) : kind≠.remove →
      Applies ⟨kind,fieldPath f,.map m⟩ t (t.setField f (some m))
  | removeField {t : Template} (f : Field) (value : Value) :
      Applies ⟨.remove,fieldPath f,value⟩ t (t.setField f none)
  | setKey {t : Template} {kind : Kind} {m : TextMap} (f : Field) (k v : String) :
      kind≠.remove → t.fields f=some m →
      Applies ⟨kind,keyPath f k,.text v⟩ t (t.setField f (some (m.insert k v)))
  | removeKey {t : Template} {m : TextMap} (f : Field) (k : String) (value : Value) :
      t.fields f=some m →
      Applies ⟨.remove,keyPath f k,value⟩ t (t.setField f (some (m.erase k)))
  | metadata {t : Template} {kind : Kind} {w : String} (rest : List String) (value : Value) :
      Field.ofWord w=none →
      Applies ⟨kind, "spec" :: "template" :: "metadata" :: w::rest,value⟩ t t
  | elsewhere {t t' : Template} {op : Operation} : ¬op.Allowed → Applies op t t'

inductive AppliesAll : List Operation → Template → Template → Prop
  | nil {t : Template} : AppliesAll [] t t
  | cons {op : Operation} {ops : List Operation} {t t' t'' : Template} :
      Applies op t t' → AppliesAll ops t' t'' → AppliesAll (op::ops) t t''

/- A correct and minimal difference. -/
structure Diff (ops : List Operation) (oldTemp newTemp : Template) : Prop where
  correct : AppliesAll ops oldTemp newTemp
  minimal : ops.Pairwise fun a b => a.OnField ∨ b.OnField →
    ¬a.path <+: b.path ∧ ¬b.path <+: a.path

@[simp] theorem cutTemplate_fieldPath (f : Field) : cutTemplate (fieldPath f)=["metadata",f.word] := by
  simp [cutTemplate,fieldPath]

@[simp] theorem cutTemplate_keyPath (f : Field) (k : String) :
    cutTemplate (keyPath f k)=["metadata",f.word,encodeKey k] := by
  simp [cutTemplate,keyPath,fieldPath]

@[simp] theorem cutTemplate_imagePath (i : Nat) :
    cutTemplate (imagePath i)=["spec", "containers",i.repr, "image"] := by
  simp [cutTemplate,imagePath]

@[simp] theorem imageIndex_imagePath (i : Nat) : imageIndex ["spec", "containers",i.repr, "image"]=some i := by
  simp only [imageIndex,and_self,if_true,parseNat_repr]

theorem metadataKey_keyPath (f : Field) (k : String) : metadataKey ["metadata",f.word,encodeKey k]=some (f,k) := by
  simp [metadataKey,Field.ofWord_word,decodeKey_encodeKey]

theorem onField_keyPath {op : Operation} {f : Field} {k : String} (h : op.path=keyPath f k) :
    op.OnField := ⟨f,by rw [h]; exact List.prefix_append _ _⟩

variable {t t' newTemp oldTemp : Template} {op : Operation} {ops : List Operation} {spec : UpdateSpec}

section

variable {f : Field} {k : String}

theorem value_setField (t : Template) (f g : Field) (m : Option TextMap) (k : String) :
    (t.setField f m).value g k=if g=f then m.bind fun m => m.lookup k else t.value g k := by
  unfold Template.value Template.setField
  by_cases h : g=f
  · subst h
    simp
  · simp [h]

theorem value_setField_some {g : Field} {m m' : TextMap} (hm : t.fields f=some m)
    (hl : g=f → m'.lookup k=m.lookup k) : (t.setField f (some m')).value g k=t.value g k := by
  rw [value_setField]
  split_ifs with hg
  · rw [Option.bind_some,hl hg,Template.value,hg,hm,Option.bind_some]
  · rfl

/- What an operation under the metadata does to the template. -/
structure OnMetadata (op : Operation) (t t' : Template) : Prop where
  under : underMetadata (cutTemplate op.path)
  containers : t'.containers=t.containers
  apart : ∀ f k,¬op.path <+: keyPath f k → t'.value f k=t.value f k
  written : op.kind≠.remove → ∀ f k,metadataKey (cutTemplate op.path)=some (f,k) →
    op.path=keyPath f k ∧ ∀ v,op.value.string=some v → t'.value f k=some v

theorem Applies.cases (h : Applies op t t') (ha : op.Allowed) : OnMetadata op t t' ∨
      underMetadata (cutTemplate op.path)=false ∧ ∃ i image,imageIndex (cutTemplate op.path)=some i ∧
        op.value.string=some image ∧ t'=t.setImage i image := by
  cases h with
  | @image _ i c image hc =>
    refine .inr ⟨by simp [underMetadata],i,image,?_,rfl,rfl⟩
    rw [cutTemplate_imagePath,imageIndex_imagePath]
  | setField g m hkind =>
    refine .inl ⟨by simp [underMetadata],rfl,fun f k hap => ?_,?_⟩
    · rw [value_setField,if_neg]
      rintro rfl
      exact hap (prefix_append _ _)
    · rintro - f k ⟨⟩
  | removeField g value =>
    refine .inl ⟨by simp [underMetadata],rfl,fun f k hap => ?_,fun hkind => absurd rfl hkind⟩
    rw [value_setField,if_neg]
    rintro rfl
    exact hap (prefix_append _ _)
  | @setKey _ _ m g k' v hkind hm =>
    refine .inl ⟨by simp [underMetadata],rfl,fun f k hap => ?_,fun _ f k hk => ?_⟩
    · refine value_setField_some hm fun hg => AList.lookup_insert_ne ?_
      rintro rfl
      exact hap (hg ▸ prefix_refl _)
    · rw [cutTemplate_keyPath,metadataKey_keyPath] at hk
      obtain ⟨rfl,rfl⟩ := Prod.mk.inj (Option.some.inj hk)
      refine ⟨rfl,?_⟩
      rintro v ⟨⟩
      rw [value_setField,if_pos rfl,Option.bind_some,AList.lookup_insert]
  | @removeKey _ m g k' value hm =>
    refine .inl ⟨by simp [underMetadata],rfl,fun f k hap => ?_,fun hkind => absurd rfl hkind⟩
    refine value_setField_some hm fun hg => AList.lookup_erase_ne ?_
    rintro rfl
    exact hap (hg ▸ prefix_refl _)
  | metadata rest value hw =>
    refine .inl ⟨by simp [cutTemplate,underMetadata],rfl,fun f k _ => rfl,fun _ f k hk => ?_⟩
    cases rest with
    | nil => cases hk
    | cons key rest => simp [cutTemplate,metadataKey,hw] at hk
  | elsewhere hn => exact absurd ha hn

theorem AppliesAll.value_eq (h : AppliesAll ops t newTemp) (ha : ∀ op∈ops,op.Allowed)
    (hap : ∀ op∈ops,underMetadata (cutTemplate op.path) → ¬op.path <+: keyPath f k) :
    newTemp.value f k=t.value f k := by
  induction h with
  | nil => rfl
  | cons hop _ ih =>
    rw [ih (fun op hm => ha op (mem_cons_of_mem _ hm)) fun op hm => hap op (mem_cons_of_mem _ hm)]
    rcases hop.cases (ha _ mem_cons_self) with hon | ⟨-,i,image,-,-,rfl⟩
    · exact hon.apart f k (hap _ mem_cons_self hon.under)
    · rfl

theorem Diff.written {oldTemp : Template} (h : Diff ops oldTemp newTemp)
    (ha : ∀ op∈ops,op.Allowed) (hop : op∈ops) (hu : underMetadata (cutTemplate op.path)) (hk : op.kind≠.remove)
    (hkey : metadataKey (cutTemplate op.path)=some (f,k)) :
    op.path=keyPath f k ∧ ∀ v,op.value.string=some v → newTemp.value f k=some v := by
  obtain ⟨hcorrect,hm⟩ := h
  induction hcorrect with
  | nil => cases hop
  | cons hf hr ih =>
    rw [pairwise_cons] at hm
    have ha':=fun o ho => ha o (mem_cons_of_mem _ ho)
    rcases mem_cons.mp hop with rfl | hmem
    · rcases hf.cases (ha op hop) with hon | ⟨hn,-⟩
      · obtain ⟨hpath,hval⟩ := hon.written hk f k hkey
        refine ⟨hpath,fun v hv => ?_⟩
        rw [hr.value_eq ha',hval v hv]
        intro other hoth _
        rw [← hpath]
        exact (hm.1 other hoth (.inl (onField_keyPath hpath))).2
      · rw [hu] at hn
        cases hn
    · exact ih ha' hmem hm.2

end

section

variable {acc acc' : Sorted}

def withImages (images : TextMap) (c : TemplateContainer) : TemplateContainer :=
  {c with image := (images.lookup c.name).getD c.image}

theorem modify_withImages {i : Nat} {c : TemplateContainer} (images : TextMap) (image : String)
    (hc : oldTemp.containers[i]?=some c) :
    ((oldTemp.containers.map (withImages images)).modify i fun c => {c with image := image}) =
      oldTemp.containers.map (withImages (images.insert c.name image)) := by
  refine ext_getElem? ?_
  intro j
  rw [getElem?_modify,getElem?_map,getElem?_map]
  by_cases hij : i=j
  · subst hij
    simp [hc,withImages]
  · cases hd : oldTemp.containers[j]? with
    | none => simp [hij]
    | some d =>
      have hn : d.name≠c.name := by
        intro heq
        refine hij ?_
        have hi : (oldTemp.containers.map TemplateContainer.name)[i]?=some c.name := by
          rw [getElem?_map,hc]
          rfl
        have hj : (oldTemp.containers.map TemplateContainer.name)[j]?=some c.name := by
          rw [getElem?_map,hd,← heq]
          rfl
        obtain ⟨hlt,-⟩ := List.getElem?_eq_some_iff.mp hi
        exact (getElem?_inj hlt oldTemp.distinct).mp (hi.trans hj.symm)
      simp [hij,withImages,AList.lookup_insert_ne hn]

theorem sortOperation_cases (h : sortOperation oldTemp acc op=some acc') :
    underMetadata (cutTemplate op.path) ∧ acc'={acc with
          metadataPatches := acc.metadataPatches++[{op with path := cutTemplate op.path}]} ∨
      underMetadata (cutTemplate op.path)=false ∧ op.kind=.replace ∧
        ∃ i c image,imageIndex (cutTemplate op.path)=some i ∧
          oldTemp.containers[i]?=some c ∧ op.value.string=some image ∧
          acc'={acc with containerImages := acc.containerImages.insert c.name image} := by
  unfold sortOperation at h
  dsimp only at h
  split_ifs at h with hu hk
  · exact .inl ⟨hu,(Option.some.inj h).symm⟩
  · split at h
    · cases h
    · rename_i i hi
      split at h
      · rename_i c image hc hv
        exact .inr ⟨Bool.eq_false_iff.mpr hu,not_not.mp hk,i,c,image,hi,hc,hv, (Option.some.inj h).symm⟩
      · cases h

theorem allowed_of_sortOperation (h : sortOperation oldTemp acc op=some acc') : op.Allowed := by
  rcases sortOperation_cases h with ⟨hu,-⟩ | ⟨-,hk,i,c,image,hi,-⟩
  · exact .inl hu
  · exact .inr ⟨hk,by rw [hi]; rfl⟩

structure Sorted.At (oldTemp t : Template) (acc : Sorted) : Prop where
  containers : t.containers=oldTemp.containers.map (withImages acc.containerImages)
  named : ∀ v image,acc.containerImages.lookup v=some image →
    v∈oldTemp.containers.map TemplateContainer.name

theorem Sorted.At.next (hat : acc.At oldTemp t) (hop : Applies op t t')
    (h : sortOperation oldTemp acc op=some acc') : acc'.At oldTemp t' := by
  have ha:=allowed_of_sortOperation h
  rcases sortOperation_cases h with ⟨hu,rfl⟩ | ⟨hu,-,i,c,image,hi,hc,hv,rfl⟩
  · rcases hop.cases ha with hon | ⟨hn,-⟩
    · exact ⟨hon.containers.trans hat.containers,hat.named⟩
    · rw [hu] at hn
      cases hn
  · obtain ⟨-,j,image',hi',hv',rfl⟩ := (hop.cases ha).resolve_left fun hon => by simp [hon.under] at hu
    obtain rfl := Option.some.inj (hi.symm.trans hi')
    obtain rfl := Option.some.inj (hv.symm.trans hv')
    constructor
    · unfold Template.setImage
      dsimp only
      rw [hat.containers]
      exact modify_withImages acc.containerImages image hc
    · intro v image' hlk
      by_cases hvc : v=c.name
      · rw [hvc]
        exact mem_map_of_mem (mem_of_getElem? hc)
      · rw [AList.lookup_insert_ne hvc] at hlk
        exact hat.named v image' hlk

def metadataOps (ops : List Operation) : List Operation :=
  (ops.filter fun op => underMetadata (cutTemplate op.path)).map fun op =>
    {op with path := cutTemplate op.path}

theorem sort_spec (h : AppliesAll ops t newTemp) (hat : acc.At oldTemp t)
    (hsort : ops.foldlM (sortOperation oldTemp) acc=some acc') :
    acc'.At oldTemp newTemp ∧ acc'.metadataPatches=acc.metadataPatches++metadataOps ops ∧ ∀ op∈ops,op.Allowed := by
  induction h generalizing acc with
  | nil =>
    cases hsort
    exact ⟨hat,(append_nil _).symm,fun op hop => by cases hop⟩
  | @cons op ops t t' t'' hop _ ih =>
    obtain ⟨middle,hm,hr⟩ := Option.bind_eq_some_iff.mp hsort
    obtain ⟨he,hpats,ha⟩ := ih (hat.next hop hm) hr
    refine ⟨he,?_,?_⟩
    · rw [hpats]
      rcases sortOperation_cases hm with ⟨hu,rfl⟩ | ⟨hu,-,i,c,image,-,-,-,rfl⟩
      · simp [metadataOps,hu]
      · simp [metadataOps,hu]
    · intro o ho
      rcases mem_cons.mp ho with rfl | ho
      · exact allowed_of_sortOperation hm
      · exact ha o ho

end

section

variable {acc acc' : Moved}

/- The keys that are `gone` were moved out of both templates, the others are left in both. -/
structure Moved.Of (oldTemp newTemp : Template) (gone : Field → String → Prop) (acc : Moved) : Prop where
  sound : ∀ name m,acc.containerRefMetadata.lookup name=some m → ∀ f k v,
    (m.get f).lookup k=some v → newTemp.value f k=some v
  named : ∀ name m,acc.containerRefMetadata.lookup name=some m →
    name∈newTemp.containers.map TemplateContainer.name
  left : ∀ f k,¬gone f k →
    (acc.oldMeta.get f).lookup k=oldTemp.value f k ∧ (acc.newMeta.get f).lookup k=newTemp.value f k
  moved : ∀ f k,gone f k → (acc.oldMeta.get f).lookup k=none ∧ (acc.newMeta.get f).lookup k=none ∧
    ∃ name m,acc.containerRefMetadata.lookup name=some m ∧ ((m.get f).lookup k).isSome

theorem Moved.Of.start (oldTemp newTemp : Template) :
    Moved.Of oldTemp newTemp (fun _ _ => False) ⟨∅,oldTemp.objectMeta,newTemp.objectMeta,false⟩ := by
  refine ⟨?_,?_,?_,?_⟩
  · rintro name m ⟨⟩
  · rintro name m ⟨⟩
  · intro f k _
    exact ⟨oldTemp.lookup_objectMeta f k,newTemp.lookup_objectMeta f k⟩
  · rintro f k ⟨⟩

variable {gone gone' : Field → String → Prop}

theorem Moved.Of.congr (h : acc.Of oldTemp newTemp gone) (hg : ∀ f k,gone f k ↔ gone' f k) :
    acc.Of oldTemp newTemp gone' :=
  ⟨h.sound,h.named,fun f k hn => h.left f k (mt (hg f k).mp hn),fun f k hm => h.moved f k ((hg f k).mpr hm)⟩

theorem lookup_set_insert (m : ObjectMeta) (f g : Field) (key k v : String) :
    ((m.set f ((m.get f).insert key v)).get g).lookup k =
      if g=f ∧ k=key then some v else (m.get g).lookup k := by
  by_cases hg : g=f
  · subst hg
    by_cases hk : k=key
    · subst hk
      simp
    · simp [hk,AList.lookup_insert_ne hk]
  · simp [hg]

theorem lookup_set_erase (m : ObjectMeta) (f g : Field) (key k : String) :
    ((m.set f ((m.get f).erase key)).get g).lookup k =
      if g=f ∧ k=key then none else (m.get g).lookup k := by
  by_cases hg : g=f
  · subst hg
    by_cases hk : k=key
    · subst hk
      simp
    · simp [hk,AList.lookup_erase_ne hk]
  · simp [hg]

theorem lookup_insert_name (ref : RefMetadata) (name n : String) (m : ObjectMeta) :
    (ref.insert name m).lookup n=if n=name then some m else ref.lookup n := by
  by_cases hn : n=name
  · subst hn
    simp
  · rw [if_neg hn,AList.lookup_insert_ne hn]

theorem Moved.Of.sound_getD (h : acc.Of oldTemp newTemp gone) {name : String} {f : Field} {k u : String}
    (hu : (((acc.containerRefMetadata.lookup name).getD ⟨∅,∅⟩).get f).lookup k=some u) :
    newTemp.value f k=some u := by
  cases hm : acc.containerRefMetadata.lookup name with
  | none =>
    rw [hm] at hu
    cases f <;> cases hu
  | some m =>
    rw [hm] at hu
    exact h.sound name m hm f k u hu

theorem Moved.Of.moveKey (h : acc.Of oldTemp newTemp gone) {f : Field} {key : String} {value : Value}
    (hval : ∀ v,value.string=some v → newTemp.value f key=some v) {c : TemplateContainer}
    (hc : c∈newTemp.containers) (hmove : moveKey f key value acc c=some acc') :
    acc'.Of oldTemp newTemp fun g k =>
      gone g k ∨ (g=f ∧ k=key) ∧ isContainerReferenceToMeta c.env f.metadataPath key := by
  unfold InPlaceUpdate.moveKey at hmove
  split_ifs at hmove with hr
  · obtain ⟨v,hv,rfl⟩ := Option.map_eq_some_iff.mp hmove
    refine ⟨?_,?_,?_,?_⟩
    · intro name m hm g k u hu
      rw [lookup_insert_name] at hm
      split_ifs at hm
      · cases hm
        rw [lookup_set_insert] at hu
        split_ifs at hu with ht
        · rw [ht.1,ht.2,← Option.some.inj hu]
          exact hval v hv
        · exact h.sound_getD hu
      · exact h.sound name m hm g k u hu
    · intro name m hm
      rw [lookup_insert_name] at hm
      split_ifs at hm with hn
      · rw [hn]
        exact mem_map_of_mem hc
      · exact h.named name m hm
    · intro g k hn
      rw [not_or,not_and] at hn
      have ht : ¬(g=f ∧ k=key) := fun ht => hn.2 ht hr
      rw [lookup_set_erase,lookup_set_erase,if_neg ht,if_neg ht]
      exact h.left g k hn.1
    · intro g k hg
      rw [lookup_set_erase,lookup_set_erase]
      by_cases ht : g=f ∧ k=key
      · refine ⟨if_pos ht,if_pos ht,c.name,_,AList.lookup_insert _,?_⟩
        rw [lookup_set_insert,if_pos ht]
        rfl
      · rw [if_neg ht,if_neg ht]
        obtain ⟨ho,hnew,name,m,hm,hk⟩ := h.moved g k (hg.resolve_right fun hx => ht hx.1)
        refine ⟨ho,hnew,?_⟩
        -- the container that had the key still has it
        by_cases hn : name=c.name
        · refine ⟨c.name,_,AList.lookup_insert _,?_⟩
          rw [lookup_set_insert,if_neg ht,← hn,hm]
          exact hk
        · exact ⟨name,m,(AList.lookup_insert_ne hn).trans hm,hk⟩
  · cases hmove
    exact h.congr fun g k => by simp [hr]

theorem Moved.Of.moveKeys {f : Field} {key : String} {value : Value}
    (hval : ∀ v,value.string=some v → newTemp.value f key=some v)
    {cs : List TemplateContainer} (hcs : ∀ c∈cs,c∈newTemp.containers) (h : acc.Of oldTemp newTemp gone)
    (hm : cs.foldlM (InPlaceUpdate.moveKey f key value) acc=some acc') :
    acc'.Of oldTemp newTemp fun g k =>
      gone g k ∨ (g=f ∧ k=key) ∧ ∃ c∈cs,isContainerReferenceToMeta c.env f.metadataPath key := by
  induction cs generalizing acc gone with
  | nil =>
    cases hm
    exact h.congr fun g k => by simp
  | cons c cs ih =>
    obtain ⟨middle,hmid,hr⟩ := Option.bind_eq_some_iff.mp hm
    have hstep:=h.moveKey hval (hcs c mem_cons_self) hmid
    refine (ih (fun d hd => hcs d (mem_cons_of_mem _ hd)) hstep hr).congr fun g k => ?_
    rw [exists_mem_cons_iff,and_or_left,or_assoc]

theorem Moved.Of.moveOperations {ops : List Operation}
    (hwr : ∀ op∈ops,op.kind≠.remove → ∀ f k,metadataKey op.path=some (f,k) →
      ∀ v,op.value.string=some v → newTemp.value f k=some v)
    (h : acc.Of oldTemp newTemp gone) (hmove : ops.foldlM (moveOperation newTemp.containers) acc=some acc') :
    acc'.Of oldTemp newTemp fun g k => gone g k ∨ ∃ op∈ops,op.kind≠.remove ∧ metadataKey op.path=some (g,k) ∧
      ∃ c∈newTemp.containers,isContainerReferenceToMeta c.env g.metadataPath k := by
  induction ops generalizing acc gone with
  | nil =>
    cases hmove
    exact h.congr fun g k => by simp
  | cons op ops ih =>
    obtain ⟨middle,hm,hr⟩ := Option.bind_eq_some_iff.mp hmove
    have hstep : middle.Of oldTemp newTemp fun g k => gone g k ∨ op.kind≠.remove ∧ metadataKey op.path=some (g,k) ∧
        ∃ c∈newTemp.containers,isContainerReferenceToMeta c.env g.metadataPath k := by
      unfold moveOperation at hm
      split_ifs at hm with hkind
      · cases hm
        exact h.congr fun g k => by simp [hkind]
      · cases hk : metadataKey op.path with
        | none =>
          rw [hk] at hm
          cases hm
          exact h.congr fun g k => by simp
        | some target =>
          obtain ⟨f,key⟩ := target
          rw [hk] at hm
          refine (h.moveKeys (hwr op mem_cons_self hkind f key hk) (fun c hc => hc) hm).congr fun g k => ?_
          refine or_congr_right ⟨?_,?_⟩
          · rintro ⟨⟨rfl,rfl⟩,hc⟩
            exact ⟨hkind,rfl,hc⟩
          · rintro ⟨-,heq,hc⟩
            cases heq
            exact ⟨⟨rfl,rfl⟩,hc⟩
    refine (ih (fun o ho => hwr o (mem_cons_of_mem _ ho)) hstep hr).congr fun g k => ?_
    rw [exists_mem_cons_iff,or_assoc]

end

/- The difference sets the key by itself, and a container reads it through its environment. -/
def Handed (opts : UpdateOptions) (ops : List Operation) (newTemp : Template) (f : Field) (k : String) : Prop :=
  opts.envFromMetadata ∧ (∃ op∈ops,op.kind≠.remove ∧ op.path=keyPath f k) ∧
    ∃ c∈newTemp.containers,isContainerReferenceToMeta c.env f.metadataPath k

section

variable {opts : UpdateOptions}

structure Calculated (oldTemp newTemp : Template) (handed : Field → String → Prop) (spec : UpdateSpec) :
    Prop where
  containers : newTemp.containers=oldTemp.containers.map (withImages spec.containerImages)
  named : ∀ v,spec.names v → v∈oldTemp.containers.map TemplateContainer.name
  metadata : spec.metaDataPatch=none ∧ spec.containerRefMetadata = ∅ ∧
      (∀ f k,newTemp.value f k=oldTemp.value f k) ∨
    ∃ moved : Moved,moved.Of oldTemp newTemp handed ∧
      moved.containerRefMetadata=spec.containerRefMetadata ∧
      spec.metaDataPatch=some (createTwoWayMergePatch moved.oldMeta moved.newMeta)

theorem map_withImages_empty (cs : List TemplateContainer) : cs.map (withImages ∅)=cs := by
  refine map_id'' ?_ cs
  intro c
  rfl

theorem calculated_of_diff (hd : Diff ops oldTemp newTemp)
    (h : defaultCalculateInPlaceUpdateSpec opts ops oldTemp newTemp=some spec) :
    Calculated oldTemp newTemp (Handed opts ops newTemp) spec := by
  obtain ⟨sorted,hsort,hspec⟩ := Option.bind_eq_some_iff.mp h
  obtain ⟨moved,hmov,rfl⟩ := Option.map_eq_some_iff.mp hspec
  have hsta : Sorted.At oldTemp oldTemp ⟨∅,[]⟩ := by
    refine ⟨(map_withImages_empty _).symm,?_⟩
    rintro v image ⟨⟩
  obtain ⟨hat,hpats,ha⟩ := sort_spec hd.correct hsta hsort
  have hof : moved.Of oldTemp newTemp (Handed opts ops newTemp) := by
    have hops : ∀ op∈sorted.metadataPatches,op.kind≠.remove → ∀ f k,metadataKey op.path=some (f,k) →
        (∃ op∈ops,op.kind≠.remove ∧ op.path=keyPath f k) ∧
          ∀ v,op.value.string=some v → newTemp.value f k=some v := by
      intro op hop hk f k hkey
      rw [hpats] at hop
      obtain ⟨whole,hw,rfl⟩ := mem_map.mp hop
      obtain ⟨hpath,hval⟩ := hd.written ha (mem_filter.mp hw).1 (mem_filter.mp hw).2 hk hkey
      exact ⟨⟨whole,(mem_filter.mp hw).1,hk,hpath⟩,hval⟩
    split_ifs at hmov with henv
    · refine ((Moved.Of.start oldTemp newTemp).moveOperations (fun op hop hk f k hkey =>
        (hops op hop hk f k hkey).2) hmov).congr fun f k => ?_
      constructor
      · rintro (⟨⟨⟩⟩ | ⟨op,hop,hk,hkey,hc⟩)
        exact ⟨henv,(hops op hop hk f k hkey).1,hc⟩
      · rintro ⟨-,⟨op,hop,hk,hpath⟩,hc⟩
        refine .inr ⟨{op with path := cutTemplate op.path},?_,hk,?_,hc⟩
        · rw [hpats]
          exact mem_map_of_mem (mem_filter.mpr ⟨hop,by rw [hpath,cutTemplate_keyPath]; rfl⟩)
        · rw [hpath,cutTemplate_keyPath,metadataKey_keyPath]
    · cases hmov
      exact (Moved.Of.start oldTemp newTemp).congr fun f k => by simp [Handed,henv]
  have hnms : newTemp.containers.map TemplateContainer.name = oldTemp.containers.map TemplateContainer.name := by
    rw [hat.containers,map_map]
    rfl
  refine ⟨hat.containers,?_,?_⟩
  · intro v hv
    unfold UpdateSpec.names at hv
    rw [Bool.or_eq_true] at hv
    rcases hv with hv | hv
    · obtain ⟨image,hi⟩ := Option.isSome_iff_exists.mp hv
      exact hat.named v image hi
    · obtain ⟨m,hm⟩ := Option.isSome_iff_exists.mp hv
      exact hnms ▸ hof.named v m hm
  · by_cases he : sorted.metadataPatches.isEmpty
    · have hn:=isEmpty_iff.mp he
      refine .inl ⟨if_pos he,?_,fun f k => hd.correct.value_eq ha ?_⟩
      · rw [hn] at hmov
        split_ifs at hmov
        · cases hmov
          rfl
        · cases hmov
          rfl
      · intro op hop hu
        rw [hn] at hpats
        have hf:=map_eq_nil_iff.mp hpats.symm
        exact absurd hu (filter_eq_nil_iff.mp hf op hop)
    · exact .inr ⟨moved,hof,rfl,if_neg he⟩

end

def MetaDataPatch.get (patch : MetaDataPatch) : Field → MapPatch
  | .labels => patch.labels
  | .annotations => patch.annotations

/- The pod has the containers, labels and annotations of the template, and maybe others. -/
structure Agrees (pod : Pod) (t : Template) : Prop where
  images : ∀ c∈t.containers,∃ d∈pod.containers,d.name=c.name ∧ d.image=c.image
  values : ∀ f k v,t.value f k=some v → pod.get f k=some v

structure Reached (oldTemp newTemp : Template) (pod p : Pod) : Prop where
  agrees : Agrees p newTemp
  removed : ∀ f k,(oldTemp.value f k).isSome → newTemp.value f k=none → p.get f k=none
  names : p.containers.map Container.name=pod.containers.map Container.name
  extraContainers : ∀ d∈pod.containers,
    d.name∉oldTemp.containers.map TemplateContainer.name → d∈p.containers
  extraValues : ∀ f k,oldTemp.value f k=none → newTemp.value f k=none →
    p.get f k=pod.get f k

/- The old template has labels (annotations) that are not handed on, and the new one has none. -/
def Clears (oldTemp newTemp : Template) (handed : Field → String → Prop) (f : Field) : Prop :=
  (∃ k,(oldTemp.value f k).isSome ∧ ¬handed f k) ∧ ∀ k,(newTemp.value f k).isSome → handed f k

/- Where the map is cleared the pod has no key but those of the templates. -/
def NothingCleared (opts : UpdateOptions) (ops : List Operation) (oldTemp newTemp : Template) (pod : Pod) : Prop :=
  ∀ f,Clears oldTemp newTemp (Handed opts ops newTemp) f →
    ∀ k,oldTemp.value f k=none → newTemp.value f k=none → pod.get f k=none

section

variable {pod p : Pod}

theorem get_patchMetaData (pod : Pod) (patch : MetaDataPatch) (f : Field) :
    (pod.patchMetaData (some patch)).get f=(patch.get f).apply (pod.get f) := by
  cases f <;> rfl

theorem get_createTwoWayMergePatch (old new : ObjectMeta) (f : Field) :
    (createTwoWayMergePatch old new).get f=diffMap (old.get f) (new.get f) := by
  cases f <;> rfl

variable {refs : List RefEntry}

theorem overrideAll_of_sound {f : Field} {k : String} (base : Values)
    (hsou : ∀ e∈refs,∀ v,(e.2.get f).lookup k=some v → newTemp.value f k=some v) :
    (overrideAll (refs.map fun e => e.2.get f) base k=newTemp.value f k ∧ (newTemp.value f k).isSome) ∨
      overrideAll (refs.map fun e => e.2.get f) base k=base k ∧ ∀ e∈refs,(e.2.get f).lookup k=none := by
  rw [overrideAll_apply]
  unfold valuesOf
  rw [filterMap_map]
  cases hl : (refs.filterMap ((fun m => m.lookup k) ∘ fun e => e.2.get f)).getLast? with
  | none =>
    refine .inr ⟨Option.none_or,?_⟩
    exact filterMap_eq_nil_iff.mp (getLast?_eq_none_iff.mp hl)
  | some v =>
    obtain ⟨e,he,hv⟩ := mem_filterMap.mp (mem_of_getLast? hl)
    rw [hsou e he v hv]
    exact .inl ⟨rfl,rfl⟩

def UpdateSpec.clears (spec : UpdateSpec) (f : Field) : Bool :=
  spec.metaDataPatch.any fun patch => (patch.get f).clears

variable {handed : Field → String → Prop}

theorem Calculated.clears_iff (h : Calculated oldTemp newTemp handed spec) (f : Field) :
    spec.clears f ↔ Clears oldTemp newTemp handed f := by
  unfold UpdateSpec.clears Clears
  rcases h.metadata with ⟨hpat,-,hsame⟩ | ⟨moved,hof,-,hpat⟩
  · rw [hpat]
    refine iff_of_false (by simp) ?_
    rintro ⟨⟨k,hk,hn⟩,hall⟩
    exact hn (hall k (hsame f k ▸ hk))
  · rw [hpat,Option.any_some,get_createTwoWayMergePatch,clears_diffMap_iff,and_comm]
    refine and_congr (exists_congr fun k => ?_) (forall_congr' fun k => ?_)
    · by_cases hg : handed f k
      · simp [(hof.moved f k hg).1,hg]
      · simp [(hof.left f k hg).1,hg]
    · by_cases hg : handed f k
      · simp [(hof.moved f k hg).2.1,hg]
      · simp [(hof.left f k hg).2,hg]

theorem final_value {state : State} (hspec : Calculated oldTemp newTemp handed spec) (ha : Agrees pod oldTemp)
    (hmid : Midway (pod.patchMetaData spec.metaDataPatch) spec refs p state) (hend : Ended p)
    (f : Field) (k : String) :
    p.get f k = (newTemp.value f k).or
      (if (oldTemp.value f k).isSome||spec.clears f then none else pod.get f k) := by
  have hperm:=hmid.refs_of_ended hend
  rw [hmid.progress.values f]
  unfold UpdateSpec.clears
  rcases hspec.metadata with ⟨hpat,hr,hsame⟩ | ⟨moved,hof,hr,hpat⟩
  · have hrefs : refs=[] := perm_nil.mp (by rw [hr] at hperm; exact hperm)
    rw [hrefs,hpat,hsame]
    change pod.get f k=_
    cases hk : oldTemp.value f k with
    | none => rfl
    | some v => exact ha.values f k v hk
  · have hlk : ∀ e∈refs,spec.containerRefMetadata.lookup e.1=some e.2 :=
      fun e he => AList.mem_lookup_iff.mpr (hperm.mem_iff.mp he)
    have hsou : ∀ e∈refs,∀ v,(e.2.get f).lookup k=some v → newTemp.value f k=some v :=
      fun e he v hv => hof.sound e.1 e.2 (hr ▸ hlk e he) f k v hv
    rcases overrideAll_of_sound ((pod.patchMetaData spec.metaDataPatch).get f) hsou with
      ⟨hval,hsome⟩ | ⟨hval,hn⟩
    · rw [hval]
      obtain ⟨v,hv⟩ := Option.isSome_iff_exists.mp hsome
      rw [hv,Option.some_or]
    · rw [hval]
      by_cases hg : handed f k
      · -- a key that was moved is in one of the entries
        obtain ⟨-,-,name,m,hm,hk⟩ := hof.moved f k hg
        have hent : (⟨name,m⟩ : RefEntry)∈refs :=
          hperm.mem_iff.mpr (AList.mem_lookup_iff.mp (hr ▸ hm))
        rw [hn _ hent] at hk
        cases hk
      · obtain ⟨ho,hnew⟩ := hof.left f k hg
        rw [hpat,Option.any_some,get_patchMetaData,get_createTwoWayMergePatch,← ho,← hnew]
        exact apply_diffMap fun v hv => ha.values f k v (ho ▸ hv)

theorem updateImage_done {names : List String} (hn : ∀ v,spec.names v → v∈names) (d : Container) :
    updateImage spec names d = {d with image := (spec.containerImages.lookup d.name).getD d.image} := by
  unfold updateImage
  cases hlk : spec.containerImages.lookup d.name with
  | none => rfl
  | some image =>
    have hin : d.name∈names := hn d.name (by simp [UpdateSpec.names,hlk])
    simp [hin]

/-- At the end of a run only an extra key in a map that is cleared can be missing. -/
theorem reached_iff {state : State} (hspec : Calculated oldTemp newTemp handed spec) (ha : Agrees pod oldTemp)
    (hm : Midway (pod.patchMetaData spec.metaDataPatch) spec refs p state) (he : Ended p) :
    Reached oldTemp newTemp pod p ↔ ∀ f,Clears oldTemp newTemp handed f →
      ∀ k,oldTemp.value f k=none → newTemp.value f k=none → pod.get f k=none := by
  have hval:=final_value hspec ha hm he
  have hcons : p.containers=pod.containers.map fun d =>
      {d with image := (spec.containerImages.lookup d.name).getD d.image} := by
    rw [hm.progress.containers,containers_patchMetaData]
    refine map_congr_left ?_
    intro d _
    exact updateImage_done (fun v hv => hm.done_of_ended he hv) d
  constructor
  · intro hr f hc k ho hnew
    rw [← hr.extraValues f k ho hnew,hval,ho,hnew,(hspec.clears_iff f).mpr hc]
    rfl
  intro hclr
  refine ⟨⟨?_,?_⟩,?_,?_,?_,?_⟩
  · intro c hc
    rw [hspec.containers] at hc
    obtain ⟨b,hb,rfl⟩ := mem_map.mp hc
    obtain ⟨d,hd,hname,hi⟩ := ha.images b hb
    have hlk : spec.containerImages.lookup d.name=spec.containerImages.lookup b.name := by
      rw [hname]
    rw [hcons]
    refine ⟨_,mem_map_of_mem hd,hname,?_⟩
    rw [hlk,hi]
    rfl
  · intro f k v hv
    rw [hval,hv,Option.some_or]
  · intro f k ho hnew
    rw [hval,hnew,Option.none_or,ho]
    rfl
  · rw [hcons,map_map]
    rfl
  · intro d hd hname
    have hn : spec.containerImages.lookup d.name=none := by
      refine Option.not_isSome_iff_eq_none.mp ?_
      intro hsome
      exact hname (hspec.named d.name (by simp [UpdateSpec.names,hsome]))
    rw [hcons]
    refine mem_map.mpr ⟨d,hd,?_⟩
    rw [hn,Option.getD_none]
  · intro f k ho hnew
    rw [hval,hnew,ho,Option.none_or]
    split_ifs with hc
    · exact (hclr f ((hspec.clears_iff f).mp hc) k ho hnew).symm
    · rfl

end

/-- An in-place update brings a pod of the old template to the new one, through all its batches,
exactly when it clears no map that has other keys. -/
theorem template_reached_iff (opts : UpdateOptions) (ops : List Operation) (oldTemp newTemp : Template)
    (hdiff : Diff ops oldTemp newTemp) (spec : UpdateSpec)
    (hspec : defaultCalculateInPlaceUpdateSpec opts ops oldTemp newTemp=some spec) (pod : Pod)
    (hagrees : Agrees pod oldTemp) :
    ((∃ first n p,FirstBatch pod spec first ∧ Batches first n p ∧ Ended p) ∧
      ∀ first n p,FirstBatch pod spec first → Batches first n p → Ended p → Reached oldTemp newTemp pod p) ↔
    NothingCleared opts ops oldTemp newTemp pod := by
  have hcalc:=calculated_of_diff hdiff hspec
  have hn : ∀ v,spec.names v → v∈pod.containers.map Container.name := by
    intro v hv
    obtain ⟨c,hc,rfl⟩ := mem_map.mp (hcalc.named v hv)
    obtain ⟨d,hd,hname,-⟩ := hagrees.images c hc
    exact mem_map.mpr ⟨d,hd,hname⟩
  constructor
  · rintro ⟨⟨first,n,p,hf,hr,he⟩,hall⟩
    obtain ⟨state,refs,hm,-⟩ := midway_of_batches hn hf hr
    exact (reached_iff hcalc hagrees hm he).mp (hall first n p hf hr he)
  · intro hclr
    obtain ⟨first,n,p,hf,hr,he,-⟩ := exists_run hn (Perm.refl spec.containerRefMetadata.entries)
    refine ⟨⟨first,n,p,hf,hr,he⟩,?_⟩
    intro first n p hf hr he
    obtain ⟨state,refs,hm,-⟩ := midway_of_batches hn hf hr
    exact (reached_iff hcalc hagrees hm he).mpr hclr

def envOff : UpdateOptions := ⟨0, "web-2",false⟩

def modeTemplate : Template where
  containers := [⟨"web", "web:1",[⟨"MODE", "",some "metadata.labels['mode']"⟩]⟩]
  fields := fun f => match f with
    | .labels => some ((AList.singleton "app" "web").insert "mode" "fast")
    | .annotations => some (AList.singleton "note" "one")
  distinct := by decide

/- The pod has a container, a label and an annotation that are not of the template. -/
def modePod : Pod where
  containers := [⟨"web", "web:1",some "p_1"⟩,⟨"mesh", "mesh:7",some "p_5"⟩]
  statuses := [⟨"web", "sha-web-1"⟩]
  labels := fun k =>
    if k = "app" then some "web" else if k = "mode" then some "fast"
    else if k = "zone" then some "east" else none
  annotations := fun k =>
    if k = "note" then some "one" else if k = "zone" then some "east" else none
  state := none
  grace := none
  distinct := by decide

def removeNote : List Operation := [⟨.remove,fieldPath .annotations,.other⟩]

theorem value_singleton {m : TextMap} {key v w k : String} (hm : m=AList.singleton key v)
    (h : m.lookup k=some w) : k=key ∧ w=v := by
  subst hm
  have hmem : (⟨k,w⟩ : Sigma fun _ : String => String)∈(AList.singleton key v).entries :=
    AList.mem_lookup_iff.mp h
  obtain ⟨hk,hw⟩ := Sigma.mk.inj_iff.mp (mem_singleton.mp hmem)
  exact ⟨hk,eq_of_heq hw⟩

theorem modePod_agrees : Agrees modePod modeTemplate := by
  constructor
  · intro c hc
    obtain rfl := mem_singleton.mp hc
    exact ⟨_,mem_cons_self,rfl,rfl⟩
  · intro f k v hv
    cases f with
    | annotations =>
      obtain ⟨rfl,rfl⟩ := value_singleton rfl hv
      rfl
    | labels =>
      by_cases hk : k = "mode"
      · subst hk
        exact hv
      · have hlk : (AList.singleton "app" "web" : TextMap).lookup k=some v :=
          (AList.lookup_insert_ne hk).symm.trans hv
        obtain ⟨rfl,rfl⟩ := value_singleton rfl hlk
        rfl

def firstPatch (pod : Pod) (spec : UpdateSpec) : Pod :=
  defaultPatchUpdateSpecToPod 0 pod spec (State.start spec.revision 0 spec.updateEnvFromMetadata)

theorem firstBatch_firstPatch (pod : Pod) (spec : UpdateSpec) : FirstBatch pod spec (firstPatch pod spec) :=
  ⟨0,spec.containerRefMetadata,Perm.refl _,rfl⟩

/-- When the template loses its last annotation, the pod loses those that are its own. -/
theorem removeNote_clears_zone :
    ∃ newTemp spec first,Diff removeNote modeTemplate newTemp ∧
      defaultCalculateInPlaceUpdateSpec envOff removeNote modeTemplate newTemp=some spec ∧
      Agrees modePod modeTemplate ∧ FirstBatch modePod spec first ∧ Ended first ∧
      modePod.annotations "zone" = some "east" ∧ first.annotations "zone" = none ∧
      ¬Reached modeTemplate newTemp modePod first := by
  have hend : ((defaultCalculateInPlaceUpdateSpec envOff removeNote modeTemplate
      (modeTemplate.setField .annotations none)).any fun spec =>
        (firstPatch modePod spec).annotations "zone" == none &&
          (firstPatch modePod spec).state.all fun state => !state.hasNext) := by
    decide +kernel
  obtain ⟨spec,hspec,hf⟩ := (Option.any_eq_true _ _).mp hend
  rw [Bool.and_eq_true,beq_iff_eq] at hf
  have hd : Diff removeNote modeTemplate (modeTemplate.setField .annotations none) :=
    ⟨.cons (.removeField .annotations .other) .nil,pairwise_singleton _ _⟩
  have he : Ended (firstPatch modePod spec) := by
    intro state hst
    have ha:=hf.2
    rw [hst,Option.all_some,Bool.not_eq_true'] at ha
    exact ha
  refine ⟨_,spec,firstPatch modePod spec,hd,hspec,modePod_agrees,
    firstBatch_firstPatch modePod spec,he,rfl,hf.1,?_⟩
  intro hr
  have hz:=hr.extraValues .annotations "zone" (by decide +kernel) rfl
  exact absurd (hf.1.symm.trans hz) (by decide)

def changeMode : List Operation :=
  [⟨.replace,imagePath 0,.text "web:2"⟩,⟨.replace,keyPath .labels "mode",.text "safe"⟩]

def safeTemplate : Template :=
  (modeTemplate.setImage 0 "web:2").setField .labels
    (some (((AList.singleton "app" "web").insert "mode" "fast").insert "mode" "safe"))

def envOn : UpdateOptions := ⟨0, "web-2",true⟩

theorem changeMode_diff : Diff changeMode modeTemplate safeTemplate := by
  constructor
  · exact .cons (.image "web:2" rfl) (.cons (.setKey .labels "mode" "safe" (by decide) rfl) .nil)
  · refine pairwise_pair.mpr ?_
    intro _
    decide +kernel

theorem changeMode_reached :
    ∃ spec p,defaultCalculateInPlaceUpdateSpec envOn changeMode modeTemplate safeTemplate =
        some spec ∧ (spec.containerRefMetadata.lookup "web").isSome ∧
      Reached modeTemplate safeTemplate modePod p ∧ p.labels "zone" = some "east" := by
  have hend : ((defaultCalculateInPlaceUpdateSpec envOn changeMode modeTemplate safeTemplate).any
      fun spec => (spec.containerRefMetadata.lookup "web").isSome) := by decide +kernel
  obtain ⟨spec,hspec,hf⟩ := (Option.any_eq_true _ _).mp hend
  have hclr : NothingCleared envOn changeMode modeTemplate safeTemplate modePod := by
    rintro f ⟨-,hall⟩
    cases f with
    | labels =>
      have hno : ∀ op∈changeMode,op.path≠keyPath .labels "app" := by decide +kernel
      obtain ⟨-,⟨op,hop,-,hpath⟩,-⟩ := hall "app" (by decide +kernel)
      exact absurd hpath (hno op hop)
    | annotations =>
      have hno : ∀ op∈changeMode,op.path≠keyPath .annotations "note" := by decide +kernel
      obtain ⟨-,⟨op,hop,-,hpath⟩,-⟩ := hall "note" (by decide +kernel)
      exact absurd hpath (hno op hop)
  obtain ⟨⟨first,n,p,hfst,hrun,he⟩,hr⟩ := (template_reached_iff envOn changeMode
    modeTemplate safeTemplate changeMode_diff spec hspec modePod modePod_agrees).mpr hclr
  have hp:=hr first n p hfst hrun he
  exact ⟨spec,p,hspec,hf,hp,hp.extraValues .labels "zone" (by decide +kernel) (by decide +kernel)⟩

end Kruise.InPlaceUpdate
