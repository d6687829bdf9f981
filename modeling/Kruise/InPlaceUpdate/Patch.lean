import Kruise.ContainerLaunchPriority.Priorities
import Kruise.Lib.Keyed
import Kruise.Lib.Sharing
import Mathlib.Data.List.Dedup
import Mathlib.Data.List.Sort

/-!
# Patching an in-place update into a pod

`defaultPatchUpdateSpecToPod` and `addMetadataSharedContainersToUpdate`
(`inplace_update_defaults.go` 66-221) over the spec and the state kept in an annotation
(`apis/apps/pub/inplace_update.go`). Go's maps are association lists, whose order is the order of
iteration.
-/

namespace Kruise.InPlaceUpdate

open Lib Lib.Keyed List

abbrev TextMap := AList fun _ : String => String

instance : DecidableEq TextMap := fun a b =>
  decidable_of_iff (a.entries=b.entries) AList.ext_iff.symm

inductive Field
  | labels
  | annotations
  deriving DecidableEq,Repr

/- The labels and annotations that a container reads through its environment. -/
structure ObjectMeta where
  labels : TextMap
  annotations : TextMap
  deriving DecidableEq

def ObjectMeta.get (m : ObjectMeta) : Field → TextMap
  | .labels => m.labels
  | .annotations => m.annotations

abbrev RefMetadata := AList fun _ : String => ObjectMeta

instance : DecidableEq RefMetadata := fun a b =>
  decidable_of_iff (a.entries=b.entries) AList.ext_iff.symm

abbrev Values := String → Option String

/- A strategic merge patch of a map of strings: the map does not occur in the patch, is null, or is
an object whose null values delete keys. -/
inductive MapPatch
  | keep
  | clear
  | merge (changes : AList fun _ : String => Option String)

def MapPatch.apply : MapPatch → Values → Values
  | .keep,m => m
  | .clear,_ => fun _ => none
  | .merge changes,m => fun k => (changes.lookup k).getD (m k)

structure MetaDataPatch where
  labels : MapPatch
  annotations : MapPatch

structure UpdateSpec where
  revision : String
  containerImages : TextMap
  containerRefMetadata : RefMetadata
  metaDataPatch : Option MetaDataPatch
  updateEnvFromMetadata : Bool
  graceSeconds : Int

structure ContainerBatch where
  timestamp : Int
  containers : List String
  deriving DecidableEq,Repr

/- `InPlaceUpdateState`; `preCheckBeforeNext` lists the containers that have to be ready. -/
structure State where
  revision : String
  updateTimestamp : Int
  lastContainerStatuses : TextMap
  updateEnvFromMetadata : Bool
  nextContainerImages : TextMap
  nextContainerRefMetadata : RefMetadata
  preCheckBeforeNext : Option (List String)
  containerBatchesRecord : List ContainerBatch
  deriving DecidableEq

structure Container where
  name : String
  image : String
  barrierKey : Option String
  deriving DecidableEq,Repr

def Container.priority (c : Container) : Option Int :=
  ContainerLaunchPriority.getContainerPriority ⟨c.name,[],c.barrierKey⟩

structure ContainerStatus where
  name : String
  imageID : String

/- `state` and `grace` are what the annotations of the in-place update decode to; `annotations` is
about the other keys. -/
structure Pod where
  containers : List Container
  statuses : List ContainerStatus
  labels : Values
  annotations : Values
  state : Option State
  grace : Option UpdateSpec
  distinct : (containers.map Container.name).Nodup

def Pod.get (pod : Pod) : Field → Values
  | .labels => pod.labels
  | .annotations => pod.annotations

def UpdateSpec.names (spec : UpdateSpec) (name : String) : Bool :=
  (spec.containerImages.lookup name).isSome||(spec.containerRefMetadata.lookup name).isSome

variable {spec : UpdateSpec}

theorem names_of_mem_entries {e : Sigma fun _ : String => ObjectMeta}
    (he : e∈spec.containerRefMetadata.entries) : spec.names e.1 := by
  have hlk : spec.containerRefMetadata.lookup e.1=some e.2 := AList.mem_lookup_iff.mpr he
  simp [UpdateSpec.names,hlk]

structure Choice where
  containersToUpdate : List String
  highestPriority : Option Int
  containersWithHighestPriority : List String

def Choice.turn (spec : UpdateSpec) (choice : Choice) (c : Container) : Choice :=
  if !spec.names c.name then choice
  else match c.priority,choice.highestPriority with
    | none,_ => {choice with containersToUpdate := choice.containersToUpdate++[c.name]}
    | some priority,none => ⟨choice.containersToUpdate,some priority,[c.name]⟩
    | some priority,some highest =>
      if highest<priority then ⟨choice.containersToUpdate,some priority,[c.name]⟩
      else if highest=priority then
        {choice with
          containersWithHighestPriority := choice.containersWithHighestPriority++[c.name]}
      else choice

def chooseContainers (spec : UpdateSpec) (containers : List Container) : Choice :=
  containers.foldl (Choice.turn spec) ⟨[],none,[]⟩

/- Labels and annotations are two kinds of keys. -/
def ObjectMeta.keys (m : ObjectMeta) : List (Field × String) :=
  m.labels.keys.map (fun k => (.labels,k))++m.annotations.keys.map fun k => (.annotations,k)

def RefMetadata.nodes (ref : RefMetadata) : List (String × List (Field × String)) :=
  ref.entries.map fun e => (e.1,e.2.keys)

def containersToUpdate (spec : UpdateSpec) (containers : List Container) : List String :=
  let choice:=chooseContainers spec containers
  Sharing.closure spec.containerRefMetadata.nodes
    (choice.containersToUpdate++choice.containersWithHighestPriority)

def override (changes : TextMap) (m : Values) : Values := fun k => (changes.lookup k).or (m k)

def updateImage (spec : UpdateSpec) (toUpdate : List String) (c : Container) : Container :=
  match spec.containerImages.lookup c.name with
  | none => c
  | some newImage => if c.name∈toUpdate then {c with image := newImage} else c

theorem updateImage_kept (spec : UpdateSpec) (toUpdate : List String) (c : Container) :
    (updateImage spec toUpdate c).name=c.name ∧ (updateImage spec toUpdate c).priority=c.priority := by
  unfold updateImage
  split
  · exact ⟨rfl,rfl⟩
  · split_ifs <;> exact ⟨rfl,rfl⟩

theorem map_name_updateImage (spec : UpdateSpec) (toUpdate : List String) (cs : List Container) :
    (cs.map (updateImage spec toUpdate)).map Container.name=cs.map Container.name := by
  rw [map_map]
  exact map_congr_left fun c _ => (updateImage_kept spec toUpdate c).1

/- The maps win over what is there, each one over those before it. -/
def overrideAll (maps : List TextMap) (m : Values) : Values :=
  maps.foldl (fun m changes => override changes m) m

abbrev RefEntry := Sigma fun _ : String => ObjectMeta

def waitingImages (spec : UpdateSpec) (toUpdate : List String) (cs : List Container) : TextMap :=
  fill Container.name
    (fun c => if c.name∈toUpdate then none else spec.containerImages.lookup c.name) cs ∅

def waitingMetadata (ref : RefMetadata) (toUpdate : List String) : RefMetadata :=
  fill Sigma.fst (fun e => if e.1∈toUpdate then none else some e.2) ref.entries ∅

def recordStatuses (spec : UpdateSpec) (toUpdate : List String) (pod : Pod) (last : TextMap) : TextMap :=
  let changed:=(pod.containers.filter fun c =>
    c.name∈toUpdate&&(spec.containerImages.lookup c.name).isSome).map Container.name
  fill ContainerStatus.name (fun s => if s.name∈changed then some s.imageID else none)
    pod.statuses last

/- `sets.String.List`. -/
def sortedList (names : List String) : List String := names.dedup.insertionSort (· ≤ ·)

@[simp] theorem mem_sortedList {names : List String} {v : String} : v∈sortedList names ↔ v∈names := by
  unfold sortedList
  rw [mem_insertionSort,mem_dedup]

theorem nodup_sortedList (names : List String) : (sortedList names).Nodup :=
  (perm_insertionSort _ _).nodup_iff.mpr (nodup_dedup names)

def State.hasNext (state : State) : Bool :=
  !state.nextContainerImages.entries.isEmpty||!state.nextContainerRefMetadata.entries.isEmpty

def MapPatch.clears : MapPatch → Bool
  | .clear => true
  | _ => false

/- Clearing the annotations takes those of the in-place update away, too. -/
def Pod.patchMetaData (pod : Pod) (patch : Option MetaDataPatch) : Pod :=
  match patch with
  | none => pod
  | some p =>
    {pod with
      labels := p.labels.apply pod.labels
      annotations := p.annotations.apply pod.annotations
      state := if p.annotations.clears then none else pod.state
      grace := if p.annotations.clears then none else pod.grace}

def nextState (now : Int) (pod : Pod) (spec : UpdateSpec) (state : State) : State :=
  let toUpdate:=containersToUpdate spec pod.containers
  let state:={state with
    nextContainerImages := waitingImages spec toUpdate pod.containers
    nextContainerRefMetadata := waitingMetadata spec.containerRefMetadata toUpdate
    lastContainerStatuses := recordStatuses spec toUpdate pod state.lastContainerStatuses}
  {state with
    preCheckBeforeNext := if state.hasNext then some (sortedList toUpdate) else none
    containerBatchesRecord := state.containerBatchesRecord++[⟨now,sortedList toUpdate⟩]}

def patchContainers (now : Int) (pod : Pod) (spec : UpdateSpec) (state : State) : Pod :=
  let toUpdate:=containersToUpdate spec pod.containers
  let refs:=spec.containerRefMetadata.entries.filter fun e => e.1∈toUpdate
  {pod with
    containers := pod.containers.map (updateImage spec toUpdate)
    labels := overrideAll (refs.map fun e => e.2.labels) pod.labels
    annotations := overrideAll (refs.map fun e => e.2.annotations) pod.annotations
    state := some (nextState now pod spec state)
    distinct := (map_name_updateImage spec toUpdate pod.containers).symm ▸ pod.distinct}

def defaultPatchUpdateSpecToPod (now : Int) (pod : Pod) (spec : UpdateSpec) (state : State) : Pod :=
  patchContainers now (pod.patchMetaData spec.metaDataPatch) spec state

structure Choice.Of (spec : UpdateSpec) (cs : List Container) (choice : Choice) : Prop where
  plain : ∀ v∈choice.containersToUpdate,
    ∃ c∈cs,spec.names c.name ∧ c.name=v ∧ c.priority=none
  all : ∀ c∈cs,spec.names c.name → c.priority=none →
    c.name∈choice.containersToUpdate
  highest : ∀ v∈choice.containersWithHighestPriority,
    ∃ c∈cs,spec.names c.name ∧ c.name=v ∧
      ∃ p,c.priority=some p ∧ choice.highestPriority=some p
  bound : ∀ c∈cs,spec.names c.name → ∀ p,c.priority=some p →
    ∃ h,choice.highestPriority=some h ∧ p≤h
  kept : ∀ h,choice.highestPriority=some h → choice.containersWithHighestPriority≠[]
  nonempty : ∀ c∈cs,spec.names c.name →
    choice.containersToUpdate≠[] ∨ choice.containersWithHighestPriority≠[]

variable {cs : List Container} {choice : Choice} {c : Container}

theorem exists_concat {P : Container → Prop} (h : ∃ d∈cs,P d) : ∃ d∈cs++[c],P d := by
  obtain ⟨d,hd,hr⟩ := h
  exact ⟨d,mem_append_left _ hd,hr⟩

section

variable (h : choice.Of spec cs)
include h

theorem Choice.Of.skip (ha : spec.names c.name → c.priority=none → c.name∈choice.containersToUpdate)
    (hbd : spec.names c.name → ∀ p,c.priority=some p → ∃ h,choice.highestPriority=some h ∧ p≤h)
    (hn : spec.names c.name → choice.containersToUpdate≠[] ∨ choice.containersWithHighestPriority≠[]) :
    choice.Of spec (cs++[c]) := by
  constructor
  · exact fun v hv => exists_concat (h.plain v hv)
  · exact forall_mem_concat.mpr ⟨h.all,ha⟩
  · exact fun v hv => exists_concat (h.highest v hv)
  · exact forall_mem_concat.mpr ⟨h.bound,hbd⟩
  · exact h.kept
  · exact forall_mem_concat.mpr ⟨h.nonempty,hn⟩

theorem Choice.Of.replace {priority : Int} (hnm : spec.names c.name) (hc : c.priority=some priority)
    (hh : ∀ h,choice.highestPriority=some h → h<priority) :
    Choice.Of spec (cs++[c]) ⟨choice.containersToUpdate,some priority,[c.name]⟩ := by
  constructor
  · exact fun v hv => exists_concat (h.plain v hv)
  · refine forall_mem_concat.mpr ⟨h.all,fun _ hn => ?_⟩
    rw [hc] at hn
    cases hn
  · intro v hv
    exact ⟨c,by simp,hnm,(mem_singleton.mp hv).symm,priority,hc,rfl⟩
  · intro d hd hdn p hp
    refine ⟨priority,rfl,?_⟩
    rcases mem_append.mp hd with hd | hd
    · obtain ⟨q,hq,hle⟩ := h.bound d hd hdn p hp
      have hlt:=hh q hq
      omega
    · rw [mem_singleton.mp hd,hc] at hp
      exact (Option.some.inj hp).ge
  · intro _ _
    exact cons_ne_nil _ _
  · intro _ _ _
    exact .inr (cons_ne_nil _ _)

theorem Choice.Of.addPlain (hnm : spec.names c.name) (hc : c.priority=none) :
    Choice.Of spec (cs++[c]) {choice with containersToUpdate := choice.containersToUpdate++[c.name]} := by
  constructor
  · intro v hv
    rcases mem_append.mp hv with ho | hnew
    · exact exists_concat (h.plain v ho)
    · exact ⟨c,by simp,hnm,(mem_singleton.mp hnew).symm,hc⟩
  · refine forall_mem_concat.mpr ⟨?_,fun _ _ => mem_append_right _ mem_cons_self⟩
    intro d hd hdn hn
    exact mem_append_left _ (h.all d hd hdn hn)
  · exact fun v hv => exists_concat (h.highest v hv)
  · refine forall_mem_concat.mpr ⟨h.bound,fun _ p hp => ?_⟩
    rw [hc] at hp
    cases hp
  · exact h.kept
  · intro _ _ _
    exact .inl (by simp)

theorem Choice.Of.turn (c : Container) : (choice.turn spec c).Of spec (cs++[c]) := by
  unfold Choice.turn
  by_cases hnm : spec.names c.name
  · simp only [hnm,Bool.not_true,Bool.false_eq_true,if_false]
    cases hc : c.priority with
    | none => exact h.addPlain hnm hc
    | some priority =>
      obtain ⟨plain,high,tops⟩ := choice
      cases high with
      | none => exact h.replace hnm hc (by simp)
      | some highest =>
        have hk : tops≠[] := h.kept highest rfl
        dsimp only
        by_cases hl : highest<priority
        · rw [if_pos hl]
          exact h.replace hnm hc (by simp [hl])
        · have hbd : ∀ p,c.priority=some p → ∃ q,some highest=some q ∧ p≤q := by
            intro p hp
            rw [hc] at hp
            cases hp
            exact ⟨highest,rfl,by omega⟩
          have hskip:=h.skip (by simp [hc]) (fun _ => hbd) fun _ => .inr hk
          split_ifs with heq
          · refine ⟨hskip.plain,hskip.all,?_,hskip.bound,fun _ _ => by simp, fun _ _ _ => .inr (by simp)⟩
            intro v hv
            rcases mem_append.mp hv with ho | hn
            · exact hskip.highest v ho
            · exact ⟨c,by simp,hnm,(mem_singleton.mp hn).symm,priority,hc,heq ▸ rfl⟩
          · exact hskip
  · simp only [hnm,Bool.not_false,if_true]
    exact h.skip (fun hin => absurd hin hnm) (fun hin => absurd hin hnm) fun hin => absurd hin hnm

end

theorem chooseContainers_of (spec : UpdateSpec) (cs : List Container) : (chooseContainers spec cs).Of spec cs := by
  have hf : ∀ rest done choice,Choice.Of spec done choice →
      Choice.Of spec (done++rest) (rest.foldl (Choice.turn spec) choice) := by
    intro rest
    induction rest with
    | nil =>
      intro done choice h
      rw [append_nil]
      exact h
    | cons c rest ih =>
      intro done choice h
      have hr:=ih (done++[c]) (choice.turn spec c) (h.turn c)
      rw [append_assoc] at hr
      exact hr
  exact hf cs [] ⟨[],none,[]⟩ ⟨by simp,by simp,by simp,by simp,by simp,by simp⟩

/- The containers `u` and `v` read a common label or annotation. -/
def SharesKey (ref : RefMetadata) (u v : String) : Prop :=
  ∃ m n,ref.lookup u=some m ∧ ref.lookup v=some n ∧ ∃ k∈m.keys,k∈n.keys

section

variable {v : String}

theorem mem_nodes {ref : RefMetadata} {n : String × List (Field × String)} :
    n∈ref.nodes ↔ ∃ m,ref.lookup n.1=some m ∧ n.2=m.keys := by
  unfold RefMetadata.nodes
  rw [mem_map]
  constructor
  · intro h
    obtain ⟨e,he,rfl⟩ := h
    exact ⟨e.2,AList.mem_lookup_iff.mpr he,rfl⟩
  · intro h
    obtain ⟨m,hm,hk⟩ := h
    exact ⟨⟨n.1,m⟩,AList.mem_lookup_iff.mp hm,by rw [← hk]⟩

theorem sharesKey_of_share {ref : RefMetadata} {m n : String × List (Field × String)} (hm : m∈ref.nodes)
    (hn : n∈ref.nodes) (h : Sharing.Share m n) : SharesKey ref m.1 n.1 := by
  obtain ⟨k,hkm,hkn⟩ := h
  obtain ⟨metaM,hlookupM,hkeysM⟩ := mem_nodes.mp hm
  obtain ⟨metaN,hlookupN,hkeysN⟩ := mem_nodes.mp hn
  exact ⟨metaM,metaN,hlookupM,hlookupN,k,hkeysM ▸ hkm,hkeysN ▸ hkn⟩

/-- Every container of a batch is reached, over shared keys, from one that has no priority or one
that no container of the spec is above. -/
theorem reached_of_mem_containersToUpdate : ∀ v∈containersToUpdate spec cs,spec.names v ∧
    ∃ u∈cs,u.name∈containersToUpdate spec cs ∧
      (∀ p,u.priority=some p → ∀ d∈cs,spec.names d.name → ∀ q,d.priority=some q → q≤p) ∧
      Relation.ReflTransGen (SharesKey spec.containerRefMetadata) u.name v := by
  have hch:=chooseContainers_of spec cs
  refine Sharing.closure_induction ?_ (forall_mem_append.mpr ⟨?_,?_⟩)
  · rintro m hm ⟨-,u,hu,hin,htop,hr⟩ n hn hsh
    have hsk:=sharesKey_of_share hm hn hsh
    obtain ⟨_,hl,-⟩ := mem_nodes.mp hn
    exact ⟨by simp [UpdateSpec.names,hl],u,hu,hin,htop,hr.tail hsk⟩
  · intro v hv
    obtain ⟨c,hc,hnm,rfl,hn⟩ := hch.plain v hv
    refine ⟨hnm,c,hc,Sharing.mem_closure_of_mem (mem_append_left _ hv),?_,.refl⟩
    simp [hn]
  · intro v hv
    obtain ⟨c,hc,hnm,rfl,p,hp,hh⟩ := hch.highest v hv
    refine ⟨hnm,c,hc,Sharing.mem_closure_of_mem (mem_append_right _ hv),?_,.refl⟩
    intro p' hp' d hd hdn q hq
    obtain ⟨top,ht,hle⟩ := hch.bound d hd hdn q hq
    cases hp.symm.trans hp'
    cases hh.symm.trans ht
    exact hle

theorem containersToUpdate_ne_nil (hc : c∈cs) (hnm : spec.names c.name) : containersToUpdate spec cs≠[] := by
  have hbase:=(chooseContainers_of spec cs).nonempty c hc hnm
  have hm : ∃ v,v∈(chooseContainers spec cs).containersToUpdate ++
      (chooseContainers spec cs).containersWithHighestPriority := by
    rcases hbase with hne | hne
    · obtain ⟨v,hv⟩ := exists_mem_of_ne_nil _ hne
      exact ⟨v,mem_append_left _ hv⟩
    · obtain ⟨v,hv⟩ := exists_mem_of_ne_nil _ hne
      exact ⟨v,mem_append_right _ hv⟩
  obtain ⟨v,hv⟩ := hm
  exact ne_nil_of_mem (Sharing.mem_closure_of_mem hv)

theorem mem_containersToUpdate_of_plain (hc : c∈cs) (hnm : spec.names c.name) (hpl : c.priority=none) :
    c.name∈containersToUpdate spec cs :=
  Sharing.mem_closure_of_mem (mem_append_left _ ((chooseContainers_of spec cs).all c hc hnm hpl))

theorem containersToUpdate_closed {u : String} (hu : u∈containersToUpdate spec cs)
    (hshs : SharesKey spec.containerRefMetadata u v) : v∈containersToUpdate spec cs := by
  obtain ⟨m,n,hm,hn,k,hkm,hkn⟩ := hshs
  exact Sharing.closure_closed _ _ (u,m.keys) (mem_nodes.mpr ⟨m,hm,rfl⟩) hu (v,n.keys)
    (mem_nodes.mpr ⟨n,hn,rfl⟩) ⟨k,hkm,hkn⟩

end

end Kruise.InPlaceUpdate
