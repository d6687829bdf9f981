import Kruise.InPlaceUpdate.Patch

/-!
# An in-place update in batches

After the first patch, `updateNextBatch` (`inplace_update.go` 234-268) patches the containers that
wait until none is left, and the pod ends as if the whole spec had been applied at once. A Go map
is iterated in any order, each time anew; where two containers set one label to different values
either way depends on it, with the same results.
-/

namespace Kruise.InPlaceUpdate

open Lib Lib.Keyed List

def State.start (revision : String) (now : Int) (updateEnvFromMetadata : Bool) : State :=
  ⟨revision,now,∅,updateEnvFromMetadata,∅,∅,none,[]⟩

def State.nextSpec (state : State) : UpdateSpec where
  revision := ""
  containerImages := state.nextContainerImages
  containerRefMetadata := state.nextContainerRefMetadata
  metaDataPatch := none
  updateEnvFromMetadata := state.updateEnvFromMetadata
  graceSeconds := 0

/- The same spec, its metadata iterated in the order of `ref`. -/
def UpdateSpec.iterating (spec : UpdateSpec) (ref : RefMetadata) : UpdateSpec :=
  {spec with containerRefMetadata := ref}

def OrderOf (ref whole : RefMetadata) : Prop := ref.entries.Perm whole.entries

def UpdateSpec.NamesIn (spec : UpdateSpec) (pod : Pod) : Prop :=
  ∀ v,spec.names v → v∈pod.containers.map Container.name

def FirstBatch (pod : Pod) (spec : UpdateSpec) (p : Pod) : Prop :=
  ∃ now ref,OrderOf ref spec.containerRefMetadata ∧
    p=defaultPatchUpdateSpecToPod now pod (spec.iterating ref)
      (State.start spec.revision now spec.updateEnvFromMetadata)

def NextBatch (p p' : Pod) : Prop :=
  ∃ now state ref,p.state=some state ∧ state.hasNext ∧
    OrderOf ref state.nextContainerRefMetadata ∧
    p'=defaultPatchUpdateSpecToPod now p (state.nextSpec.iterating ref) state

inductive Batches (p : Pod) : Nat → Pod → Prop
  | none : Batches p 0 p
  | snoc {n : Nat} {q r : Pod} : Batches p n q → NextBatch q r → Batches p (n+1) r

def Ended (p : Pod) : Prop := ∀ state,p.state=some state → state.hasNext=false

def State.batches (state : State) : List (List String) :=
  state.containerBatchesRecord.map ContainerBatch.containers

def State.done (state : State) : List String := state.batches.flatten

theorem State.done_of_batches {state state' : State} {batch : List String}
    (h : state'.batches=state.batches++[batch]) : state'.done=state.done++batch := by
  unfold State.done
  rw [h,flatten_append,flatten_singleton]

def valuesOf (k : String) (maps : List TextMap) : List String :=
  maps.filterMap fun m => m.lookup k

theorem overrideAll_apply (maps : List TextMap) (m : Values) (k : String) :
    overrideAll maps m k=(valuesOf k maps).getLast?.or (m k) := by
  induction maps generalizing m with
  | nil => rfl
  | cons changes maps ih =>
    have hcons : overrideAll (changes::maps) m=overrideAll maps (override changes m) := rfl
    rw [hcons,ih]
    cases hk : changes.lookup k with
    | none =>
      have hvals : valuesOf k (changes::maps)=valuesOf k maps := by
        simp [valuesOf,hk]
      rw [hvals,override,hk,Option.none_or]
    | some v =>
      have hvals : valuesOf k (changes::maps)=v::valuesOf k maps := by
        simp [valuesOf,hk]
      rw [hvals,override,hk,getLast?_cons]
      cases (valuesOf k maps).getLast? <;> rfl

theorem overrideAll_append (before after : List TextMap) (m : Values) :
    overrideAll (before++after) m=overrideAll after (overrideAll before m) := by
  unfold overrideAll
  rw [foldl_append]

/- One of two tests is met only by elements without a value; splitting it off keeps the values in
order. -/
theorem filterMap_filter_or {α β : Type} (f : α → Option β) (p q : α → Bool) (xs : List α)
    (h : (∀ x∈xs,p x → f x=none) ∨ ∀ x∈xs,q x → f x=none) :
    (xs.filter fun x => p x||q x).filterMap f =
      (xs.filter p).filterMap f++(xs.filter fun x => !p x&&q x).filterMap f := by
  rcases h with h | h
  · have hnil : (xs.filter p).filterMap f=[] := by
      refine filterMap_eq_nil_iff.mpr fun x hx => ?_
      obtain ⟨hx,hp⟩ := mem_filter.mp hx
      exact h x hx hp
    rw [hnil,nil_append,filterMap_filter,filterMap_filter]
    refine filterMap_congr fun x hx => ?_
    cases hp : p x with
    | true => simp [h x hx hp]
    | false => rfl
  · have hnil : (xs.filter fun x => !p x&&q x).filterMap f=[] := by
      refine filterMap_eq_nil_iff.mpr fun x hx => ?_
      obtain ⟨hx,hpq⟩ := mem_filter.mp hx
      exact h x hx (Bool.and_eq_true_iff.mp hpq).2
    rw [hnil,append_nil,filterMap_filter,filterMap_filter]
    refine filterMap_congr fun x hx => ?_
    cases hq : q x with
    | true => simp [h x hx hq]
    | false => simp

/- Every container of a batch is reached, over shared keys, from one of the batch that has no priority
or that comes after all those of the spec with a higher one. -/
def InOrder (pod : Pod) (spec : UpdateSpec) (before : List (List String)) (batch : List String) : Prop :=
  ∀ c∈pod.containers,c.name∈batch → ∃ u∈pod.containers,u.name∈batch ∧
    (∀ p,u.priority=some p → ∀ d∈pod.containers,spec.names d.name → ∀ q,d.priority=some q → p<q →
      d.name∈before.flatten) ∧
    Relation.ReflTransGen (SharesKey spec.containerRefMetadata) u.name c.name

def AllInOrder (pod : Pod) (spec : UpdateSpec) (batches : List (List String)) : Prop :=
  ∀ before batch after,batches=before++batch::after → InOrder pod spec before batch

theorem AllInOrder.snoc {pod : Pod} {spec : UpdateSpec} {batches : List (List String)}
    {batch : List String} (h : AllInOrder pod spec batches)
    (hl : InOrder pod spec batches batch) : AllInOrder pod spec (batches++[batch]) := by
  intro before middle after heq
  rcases eq_nil_or_concat after with rfl | ⟨after',last,rfl⟩
  · obtain ⟨rfl,hbat⟩ := append_inj' heq rfl
    obtain rfl := singleton_inj.mp hbat
    exact hl
  · rw [concat_eq_append,← cons_append,← append_assoc] at heq
    obtain ⟨hbef,-⟩ := append_inj' heq rfl
    exact h before middle after' hbef

/- The containers `done` have been updated through the entries `refs`, and `rest` is left. -/
structure Progress (pod : Pod) (spec : UpdateSpec) (batches : List (List String))
    (refs : List RefEntry) (p : Pod) (rest : UpdateSpec) : Prop where
  containers : p.containers=pod.containers.map (updateImage spec batches.flatten)
  values : ∀ f,p.get f=overrideAll (refs.map fun e => e.2.get f) (pod.get f)
  refs : refs.Perm
    (spec.containerRefMetadata.entries.filter fun e => e.1∈batches.flatten)
  images : ∀ v,rest.containerImages.lookup v =
    if v∈batches.flatten then none else spec.containerImages.lookup v
  metadata : rest.containerRefMetadata.entries.Perm
    (spec.containerRefMetadata.entries.filter fun e => e.1∉batches.flatten)
  named : ∀ v∈batches.flatten,spec.names v
  nodup : batches.flatten.Nodup
  closed : ∀ u v,u∈batches.flatten → SharesKey spec.containerRefMetadata u v →
    v∈batches.flatten
  ordered : AllInOrder pod spec batches

variable {pod p : Pod} {spec rest : UpdateSpec} {batches : List (List String)}
  {refs : List RefEntry} {state : State} {v : String}

section

variable (h : Progress pod spec batches refs p rest)
include h

theorem Progress.lookup_metadata (v : String) : rest.containerRefMetadata.lookup v =
      if v∈batches.flatten then none else spec.containerRefMetadata.lookup v := by
  refine Option.ext ?_
  intro m
  rw [← Option.mem_def,AList.mem_lookup_iff,h.metadata.mem_iff,mem_filter,← AList.mem_lookup_iff]
  by_cases hv : v∈batches.flatten <;> simp [hv]

theorem Progress.names_iff (v : String) : rest.names v ↔ spec.names v ∧ v∉batches.flatten := by
  unfold UpdateSpec.names
  rw [h.images,h.lookup_metadata]
  by_cases hv : v∈batches.flatten <;> simp [hv]

theorem Progress.shares_iff (u v : String) : SharesKey rest.containerRefMetadata u v ↔
      SharesKey spec.containerRefMetadata u v ∧ u∉batches.flatten ∧ v∉batches.flatten := by
  unfold SharesKey
  rw [h.lookup_metadata,h.lookup_metadata]
  by_cases hu : u∈batches.flatten
  · simp [hu]
  · by_cases hv : v∈batches.flatten
    · simp [hv]
    · simp [hu,hv]

theorem Progress.fresh (hv : v∈containersToUpdate rest p.containers) : spec.names v ∧ v∉batches.flatten :=
  (h.names_iff v).mp (reached_of_mem_containersToUpdate v hv).1

end

theorem updateImage_updateImage {spec rest : UpdateSpec} {done batch : List String}
    (hi : ∀ v,rest.containerImages.lookup v =
      if v∈done then none else spec.containerImages.lookup v) (c : Container) :
    updateImage rest batch (updateImage spec done c)=updateImage spec (done++batch) c := by
  have hn:=(updateImage_kept spec done c).1
  unfold updateImage at hn ⊢
  rw [hn,hi]
  by_cases hd : c.name∈done
  · cases hc : spec.containerImages.lookup c.name <;> simp [hd]
  · cases hc : spec.containerImages.lookup c.name <;> simp [hd]

theorem updateImage_congr (spec : UpdateSpec) {names names' : List String} {c : Container}
    (h : ∀ v,v∈names ↔ v∈names') : updateImage spec names c=updateImage spec names' c := by
  unfold updateImage
  cases spec.containerImages.lookup c.name with
  | none => rfl
  | some newImage => simp only [h]

theorem lookup_waitingImages (pod : Pod) (spec : UpdateSpec) (names : List String)
    (hnms : ∀ v,(spec.containerImages.lookup v).isSome → v∈pod.containers.map Container.name) (v : String) :
    (waitingImages spec names pod.containers).lookup v =
      if v∈names then none else spec.containerImages.lookup v := by
  unfold waitingImages
  by_cases hv : v∈pod.containers.map Container.name
  · obtain ⟨c,hc,rfl⟩ := mem_map.mp hv
    rw [lookup_fill Container.name _ pod.distinct hc]
  · rw [lookup_fill_of_notMem Container.name _ pod.distinct hv]
    have hn : spec.containerImages.lookup v=none := by
      rw [← Option.not_isSome_iff_eq_none]
      exact fun hsome => hv (hnms v hsome)
    rw [hn,ite_self]

theorem waitingMetadata_perm (ref : RefMetadata) (names : List String) :
    (waitingMetadata ref names).entries.Perm (ref.entries.filter fun e => e.1∉names) := by
  unfold waitingMetadata
  rw [entries_fill_empty Sigma.fst _ ref.nodupKeys]
  refine (reverse_perm _).trans (Perm.of_eq ?_)
  rw [← filterMap_eq_filter]
  refine filterMap_congr ?_
  intro e _
  by_cases he : e.1∈names <;> simp [entryOf,he,Option.guard]

theorem filter_mem_append_perm (done batch : List String) (entries : List RefEntry) :
    (entries.filter fun e => e.1∈done++batch).Perm ((entries.filter fun e => e.1∈done) ++
        (entries.filter fun e => e.1∉done).filter fun e => e.1∈batch) := by
  have hspl:=filter_append_perm (fun e : RefEntry => decide (e.1∈done)) (entries.filter fun e => e.1∈done++batch)
  refine hspl.symm.trans (Perm.of_eq ?_)
  rw [filter_filter,filter_filter,filter_filter]
  congr 1
  · refine filter_congr ?_
    intro e _
    by_cases hd : e.1∈done <;> simp [hd]
  · refine filter_congr ?_
    intro e _
    by_cases hd : e.1∈done <;> simp [hd]

section

variable (h : Progress pod spec batches refs p rest)
include h

variable (toUpdate : List String)

theorem Progress.containers_batch :
    p.containers.map (updateImage rest toUpdate) =
      pod.containers.map (updateImage spec (batches.flatten++sortedList toUpdate)) := by
  rw [h.containers,map_map]
  refine map_congr_left ?_
  intro c _
  rw [Function.comp_apply,updateImage_updateImage h.images]
  exact updateImage_congr spec fun v => by simp

theorem Progress.refs_batch :
    (refs++rest.containerRefMetadata.entries.filter fun e => e.1∈toUpdate).Perm
      (spec.containerRefMetadata.entries.filter fun e =>
        e.1∈batches.flatten++sortedList toUpdate) := by
  refine ((h.refs.append (h.metadata.filter _)).trans (filter_mem_append_perm _ _ _).symm).trans (Perm.of_eq ?_)
  refine filter_congr ?_
  simp

theorem Progress.images_batch (hn : spec.NamesIn pod) (toUpdate : List String) (v : String) :
    (waitingImages rest toUpdate p.containers).lookup v =
      if v∈batches.flatten++sortedList toUpdate then none
      else spec.containerImages.lookup v := by
  have hin : ∀ v,(rest.containerImages.lookup v).isSome → v∈p.containers.map Container.name := by
    intro v hv
    rw [h.containers,map_name_updateImage]
    refine hn v ((h.names_iff v).mp ?_).1
    simp [UpdateSpec.names,hv]
  rw [lookup_waitingImages p rest toUpdate hin,h.images]
  by_cases hv : v∈toUpdate <;> simp [hv]

theorem Progress.metadata_batch :
    (waitingMetadata rest.containerRefMetadata toUpdate).entries.Perm
      (spec.containerRefMetadata.entries.filter fun e =>
        e.1∉batches.flatten++sortedList toUpdate) := by
  refine ((waitingMetadata_perm _ toUpdate).trans (h.metadata.filter _)).trans (Perm.of_eq ?_)
  rw [filter_filter]
  refine filter_congr ?_
  intro e _
  by_cases hd : e.1∈batches.flatten <;> simp [hd]

theorem Progress.closed_batch {u v : String}
    (hu : u∈batches.flatten++sortedList (containersToUpdate rest p.containers))
    (hshs : SharesKey spec.containerRefMetadata u v) :
    v∈batches.flatten++sortedList (containersToUpdate rest p.containers) := by
  rw [mem_append,mem_sortedList] at hu ⊢
  rcases hu with ho | hn
  · exact .inl (h.closed u v ho hshs)
  · by_cases hv : v∈batches.flatten
    · exact .inl hv
    · right
      exact containersToUpdate_closed hn ((h.shares_iff u v).mpr ⟨hshs,(h.fresh hn).2,hv⟩)

theorem Progress.inOrder_batch : InOrder pod spec batches (sortedList (containersToUpdate rest p.containers)) := by
  intro c hc hin
  obtain ⟨-,u',hu',hbat,htop,hr⟩ := reached_of_mem_containersToUpdate _ (mem_sortedList.mp hin)
  -- the containers of the pod, as they are before the batch
  rw [h.containers] at hu' htop
  obtain ⟨u,hu,rfl⟩ := mem_map.mp hu'
  rw [(updateImage_kept ..).1] at hbat hr
  have hchain:=Relation.ReflTransGen.mono (fun _ _ hsh => ((h.shares_iff _ _).mp hsh).1) _ _ hr
  refine ⟨u,hu,mem_sortedList.mpr hbat,?_,hchain⟩
  intro q hq d hd hdn r hr hl
  by_contra ho
  have hle:=htop q (by rw [(updateImage_kept ..).2,hq]) _ (mem_map_of_mem hd)
    (by rw [(updateImage_kept ..).1]; exact (h.names_iff d.name).mpr ⟨hdn,ho⟩) r (by rw [(updateImage_kept ..).2,hr])
  omega

end

theorem Progress.batch {pod p : Pod} {spec rest : UpdateSpec} (state : State) {refs : List RefEntry}
    (hn : spec.NamesIn pod) (h : Progress pod spec state.batches refs p rest) (now : Int) :
    let toUpdate:=containersToUpdate rest p.containers
    let state' := nextState now p rest state
    Progress pod spec state'.batches (refs++rest.containerRefMetadata.entries.filter fun e => e.1∈toUpdate)
      (patchContainers now p rest state) state'.nextSpec ∧
      state'.batches=state.batches++[sortedList toUpdate] := by
  intro toUpdate state'
  have hbat : state'.batches=state.batches++[sortedList toUpdate] := by
    simp [state',nextState,State.batches,toUpdate]
  have hf : state'.batches.flatten=state.batches.flatten++sortedList toUpdate :=
    State.done_of_batches hbat
  refine ⟨?_,hbat⟩
  constructor
  · rw [hf]
    exact h.containers_batch toUpdate
  · intro f
    rw [map_append,overrideAll_append,← h.values f]
    cases f <;> rfl
  · rw [hf]
    exact h.refs_batch toUpdate
  · rw [hf]
    exact h.images_batch hn toUpdate
  · rw [hf]
    exact h.metadata_batch toUpdate
  · intro v hv
    rw [hf,mem_append,mem_sortedList] at hv
    rcases hv with ho | hnew
    · exact h.named v ho
    · exact (h.fresh hnew).1
  · rw [hf,nodup_append]
    refine ⟨h.nodup,nodup_sortedList _,?_⟩
    intro u hu v hv heq
    exact (h.fresh (mem_sortedList.mp hv)).2 (heq ▸ hu)
  · rw [hf]
    exact fun u v hu hshs => h.closed_batch hu hshs
  · rw [hbat]
    exact h.ordered.snoc h.inOrder_batch

section

variable {ref : RefMetadata}

theorem Progress.reorder {rest : UpdateSpec} (h : Progress pod spec batches refs p rest)
    (hr : OrderOf ref rest.containerRefMetadata) : Progress pod spec batches refs p (rest.iterating ref) :=
  {h with metadata := hr.trans h.metadata}

theorem Progress.start (hr : OrderOf ref spec.containerRefMetadata) :
    Progress pod spec [] [] pod (spec.iterating ref) := by
  constructor
  · have hid : ∀ c∈pod.containers,updateImage spec [].flatten c=c := by
      intro c _
      unfold updateImage
      cases spec.containerImages.lookup c.name <;> simp
    rw [map_congr_left hid,map_id']
  · exact fun f => rfl
  · simp
  · simp [UpdateSpec.iterating]
  · simpa [UpdateSpec.iterating,OrderOf] using hr
  · simp
  · exact nodup_nil
  · simp
  · intro before batch after heq
    simp at heq

theorem hasNext_iff (state : State) : state.hasNext ↔ ∃ v,state.nextSpec.names v := by
  have hents : ∀ {β : Type} (m : AList fun _ : String => β),
      (!m.entries.isEmpty) ↔ ∃ v,(m.lookup v).isSome := by
    intro β m
    rw [Bool.not_eq_true',isEmpty_eq_false_iff_exists_mem]
    constructor
    · intro h
      obtain ⟨e,he⟩ := h
      exact ⟨e.1,by rw [AList.mem_lookup_iff.mpr he]; rfl⟩
    · intro h
      obtain ⟨v,hv⟩ := h
      obtain ⟨x,hx⟩ := Option.isSome_iff_exists.mp hv
      exact ⟨⟨v,x⟩,AList.mem_lookup_iff.mp hx⟩
  unfold State.hasNext UpdateSpec.names
  simp only [Bool.or_eq_true,hents,exists_or]
  rfl

theorem Progress.toUpdate_ne_nil {rest : UpdateSpec} (hn : spec.NamesIn pod)
    (h : Progress pod spec batches refs p rest) (hv : rest.names v) :
    containersToUpdate rest p.containers≠[] := by
  have hname : v∈p.containers.map Container.name := by
    rw [h.containers,map_name_updateImage]
    exact hn v ((h.names_iff v).mp hv).1
  obtain ⟨c,hc,rfl⟩ := mem_map.mp hname
  exact containersToUpdate_ne_nil hc hv

structure Midway (pod : Pod) (spec : UpdateSpec) (refs : List RefEntry) (p : Pod) (state : State) : Prop where
  recorded : p.state=some state
  progress : Progress pod spec state.batches refs p state.nextSpec

theorem Midway.next (hn : spec.NamesIn pod)
    (h : Midway pod spec refs p state) (hr : OrderOf ref state.nextContainerRefMetadata)
    (now : Int) : let rest:=state.nextSpec.iterating ref
    let toUpdate:=containersToUpdate rest p.containers
    Midway pod spec (refs++ref.entries.filter fun e => e.1∈toUpdate)
        (defaultPatchUpdateSpecToPod now p rest state) (nextState now p rest state) ∧
      (nextState now p rest state).batches=state.batches++[sortedList toUpdate] := by
  obtain ⟨hprog,hbat⟩ := (h.progress.reorder hr).batch state hn now
  exact ⟨⟨rfl,hprog⟩,hbat⟩

theorem Midway.done_lt (hn : spec.NamesIn pod) (h : Midway pod spec refs p state) (hm : state.hasNext)
    (hr : OrderOf ref state.nextContainerRefMetadata) (now : Int) :
    state.done.length<(nextState now p (state.nextSpec.iterating ref) state).done.length := by
  -- a batch that is due is not empty
  have hre:=h.progress.reorder hr
  obtain ⟨v,hv⟩ := (hasNext_iff state).mp hm
  have hne:=hre.toUpdate_ne_nil hn ((hre.names_iff v).mpr ((h.progress.names_iff v).mp hv))
  obtain ⟨u,hu⟩ := exists_mem_of_ne_nil _ hne
  have hpos:=length_pos_of_mem (mem_sortedList.mpr hu)
  rw [State.done_of_batches (h.next hn hr now).2,length_append]
  omega

theorem containers_patchMetaData (pod : Pod) (patch : Option MetaDataPatch) :
    (pod.patchMetaData patch).containers=pod.containers := by
  cases patch <;> rfl

theorem UpdateSpec.NamesIn.patch (hn : spec.NamesIn pod) (patch : Option MetaDataPatch) :
    spec.NamesIn (pod.patchMetaData patch) := by
  unfold UpdateSpec.NamesIn
  rw [containers_patchMetaData]
  exact hn

theorem midway_of_firstBatch {first : Pod} (hn : spec.NamesIn pod) (now : Int)
    (hr : OrderOf ref spec.containerRefMetadata)
    (hf : first=defaultPatchUpdateSpecToPod now pod (spec.iterating ref)
      (State.start spec.revision now spec.updateEnvFromMetadata)) :
    let base:=pod.patchMetaData spec.metaDataPatch
    let toUpdate:=containersToUpdate (spec.iterating ref) base.containers
    ∃ state,Midway base spec (ref.entries.filter fun e => e.1∈toUpdate) first state ∧
      state.batches=[sortedList toUpdate] := by
  intro base toUpdate
  obtain ⟨hprog,hbat⟩ := Progress.batch
    (State.start spec.revision now spec.updateEnvFromMetadata) (hn.patch _) (Progress.start hr) now
  rw [hf]
  exact ⟨_,⟨rfl,hprog⟩,hbat⟩

theorem midway_of_batches {first : Pod} {n : Nat} (hnms : spec.NamesIn pod)
    (hf : FirstBatch pod spec first) (h : Batches first n p) :
    ∃ state refs,Midway (pod.patchMetaData spec.metaDataPatch) spec refs p state ∧ n ≤ state.done.length := by
  have hbase:=hnms.patch spec.metaDataPatch
  induction h with
  | none =>
    obtain ⟨now,ref,hr,hpod⟩ := hf
    obtain ⟨state,hm,-⟩ := midway_of_firstBatch hnms now hr hpod
    exact ⟨state,_,hm,Nat.zero_le _⟩
  | snoc _ hn ih =>
    obtain ⟨state,refs,hm,hl⟩ := ih
    obtain ⟨now,state',ref,hst,hmore,hr,rfl⟩ := hn
    obtain rfl : state=state' := Option.some.inj (hm.recorded.symm.trans hst)
    obtain ⟨hn',-⟩ := hm.next hbase hr now
    have hlt:=hm.done_lt hbase hmore hr now
    exact ⟨_,_,hn',by omega⟩

theorem Midway.ended (h : Midway pod spec refs p state) (hl : state.hasNext=false) : Ended p := by
  intro state' hst'
  obtain rfl : state=state' := Option.some.inj (h.recorded.symm.trans hst')
  exact hl

theorem Midway.done_of_ended (h : Midway pod spec refs p state) (he : Ended p)
    (hv : spec.names v) : v∈state.done := by
  by_contra ho
  have hm:=(hasNext_iff state).mpr ⟨v,(h.progress.names_iff v).mpr ⟨hv,ho⟩⟩
  rw [he state h.recorded] at hm
  cases hm

theorem Midway.refs_of_ended (h : Midway pod spec refs p state) (hend : Ended p) :
    refs.Perm spec.containerRefMetadata.entries := by
  refine h.progress.refs.trans (Perm.of_eq ?_)
  refine filter_eq_self.mpr ?_
  intro e he
  exact decide_eq_true (h.done_of_ended hend (names_of_mem_entries he))

theorem count_of_flatten_nodup (h : batches.flatten.Nodup) (hv : v∈batches.flatten) :
    batches.countP (fun b => decide (v∈b))=1 := by
  induction batches with
  | nil => cases hv
  | cons batch batches ih =>
    rw [flatten_cons,nodup_append] at h
    rw [flatten_cons,mem_append] at hv
    by_cases hin : v∈batch
    · have ho : batches.countP (fun b => decide (v∈b))=0 := by
        refine countP_eq_zero.mpr ?_
        intro b hb hvb
        exact h.2.2 v hin v (mem_flatten.mpr ⟨b,hb,of_decide_eq_true hvb⟩) rfl
      rw [countP_cons_of_pos (by simp [hin]),ho]
    · rw [countP_cons_of_neg (by simp [hin])]
      exact ih h.2.1 (hv.resolve_left hin)

end

def Pod.withoutPriorities (pod : Pod) : Pod :=
  {pod with
    containers := pod.containers.map fun c => {c with barrierKey := none}
    distinct := by
      rw [map_map]
      exact pod.distinct}

def oneShot (now : Int) (pod : Pod) (spec : UpdateSpec) : Pod :=
  defaultPatchUpdateSpecToPod now pod.withoutPriorities spec
    (State.start spec.revision now spec.updateEnvFromMetadata)

def Pod.images (pod : Pod) : List (String × String) :=
  pod.containers.map fun c => (c.name,c.image)

structure SameOutcome (p q : Pod) : Prop where
  images : p.images=q.images
  labels : p.labels=q.labels
  annotations : p.annotations=q.annotations

theorem patchMetaData_withoutPriorities (pod : Pod) (patch : Option MetaDataPatch) :
    pod.withoutPriorities.patchMetaData patch=(pod.patchMetaData patch).withoutPriorities := by
  cases patch <;> rfl

theorem withoutPriorities_toUpdate (hn : spec.NamesIn pod)
    (hv : spec.names v) : v∈containersToUpdate spec pod.withoutPriorities.containers := by
  obtain ⟨c,hc,rfl⟩ := mem_map.mp (hn v hv)
  exact mem_containersToUpdate_of_plain (c := {c with barrierKey := none}) (mem_map_of_mem hc) hv rfl

theorem images_updateImage (spec : UpdateSpec) {names names' : List String}
    (hn : ∀ v,(spec.containerImages.lookup v).isSome → v∈names)
    (hn' : ∀ v,(spec.containerImages.lookup v).isSome → v∈names') (c : Container) :
    (fun c : Container => (c.name,c.image)) (updateImage spec names c) = (fun c : Container => (c.name,c.image))
        (updateImage spec names' {c with barrierKey := none}) := by
  unfold updateImage
  cases hc : spec.containerImages.lookup c.name with
  | none => rfl
  | some newImage =>
    have hin:=hn c.name (by rw [hc]; rfl)
    have hin':=hn' c.name (by rw [hc]; rfl)
    simp [hin,hin']

theorem Midway.sameOutcome {base : Pod} (hbase : base=pod.patchMetaData spec.metaDataPatch)
    (hn : spec.NamesIn base) (h : Midway base spec refs p state) (hend : Ended p) (now : Int) {ref : RefMetadata}
    (hr : OrderOf ref spec.containerRefMetadata)
    (hvalues : ∀ f k,valuesOf k (refs.map fun e => e.2.get f)=valuesOf k (ref.entries.map fun e => e.2.get f)) :
    SameOutcome p (oneShot now pod (spec.iterating ref)) := by
  have hsame : ∀ v,(spec.iterating ref).names v=spec.names v := by
    intro v
    have hlk : ref.lookup v=spec.containerRefMetadata.lookup v :=
      AList.perm_lookup hr
    simp only [UpdateSpec.names,UpdateSpec.iterating,hlk]
  have ha : ∀ v,spec.names v →
      v∈containersToUpdate (spec.iterating ref) base.withoutPriorities.containers := by
    intro v hv
    refine withoutPriorities_toUpdate ?_ ((hsame v).trans hv)
    intro u hu
    exact hn u ((hsame u).symm.trans hu)
  have hents : (ref.entries.filter fun e =>
      e.1∈containersToUpdate (spec.iterating ref) base.withoutPriorities.containers) = ref.entries := by
    refine filter_eq_self.mpr ?_
    intro e he
    refine decide_eq_true (ha e.1 ?_)
    rw [← hsame]
    exact names_of_mem_entries he
  have hi : ∀ v,(spec.containerImages.lookup v).isSome → spec.names v := by
    intro v hv
    simp [UpdateSpec.names,hv]
  have hshot : oneShot now pod (spec.iterating ref)=patchContainers now base.withoutPriorities
      (spec.iterating ref) (State.start spec.revision now spec.updateEnvFromMetadata) := by
    rw [hbase,← patchMetaData_withoutPriorities]
    rfl
  have hget : ∀ f,p.get f=(oneShot now pod (spec.iterating ref)).get f := by
    intro f
    have hall : (oneShot now pod (spec.iterating ref)).get f =
        overrideAll (ref.entries.map fun e => e.2.get f) (base.get f) := by
      rw [hshot,← hents]
      cases f <;> rfl
    funext k
    rw [hall,h.progress.values,overrideAll_apply,overrideAll_apply,hvalues]
  refine ⟨?_,hget .labels,hget .annotations⟩
  · rw [hshot]
    unfold Pod.images
    change _=((base.withoutPriorities.containers.map _).map _)
    rw [h.progress.containers,map_map,map_map]
    unfold Pod.withoutPriorities
    rw [map_map]
    refine map_congr_left ?_
    intro c _
    exact images_updateImage spec (fun v hv => h.done_of_ended hend (hi v hv)) (fun v hv => ha v (hi v hv)) c

/- The entries applied so far give every key the same values in the same order as the finished
batches. -/
def Aligned (entries : List RefEntry) (done : List String) (refs : List RefEntry) : Prop :=
  ∀ f k,valuesOf k (refs.map fun e => e.2.get f) =
    valuesOf k ((entries.filter fun e => e.1∈done).map fun e => e.2.get f)

theorem valuesOf_batch (mapOf : RefEntry → TextMap) {entries : List RefEntry}
    {done batch : List String} {k : String} (hap : ∀ e∈entries,e.1∈done → ∀ e'∈entries,e'.1∈batch →
      (mapOf e).lookup k=none ∨ (mapOf e').lookup k=none) {refs : List RefEntry}
    (hr : valuesOf k (refs.map mapOf) = valuesOf k ((entries.filter fun e => e.1∈done).map mapOf)) :
    valuesOf k ((refs ++ (entries.filter fun e => e.1∉done).filter fun e => e.1∈batch).map mapOf) =
      valuesOf k ((entries.filter fun e => e.1∈done++sortedList batch).map mapOf) := by
  have hor:=filterMap_filter_or (fun e => (mapOf e).lookup k)
    (fun e : RefEntry => decide (e.1∈done)) (fun e : RefEntry => decide (e.1∈batch)) entries ?_
  · have hl : (entries.filter fun e => e.1∈done++sortedList batch) =
        entries.filter fun e => decide (e.1∈done)||decide (e.1∈batch) := by
      refine filter_congr ?_
      simp
    have hright : ((entries.filter fun e => e.1∉done).filter fun e => e.1∈batch) =
        entries.filter fun e => !decide (e.1∈done)&&decide (e.1∈batch) := by
      rw [filter_filter]
      refine filter_congr ?_
      simp [Bool.and_comm]
    unfold valuesOf at hr ⊢
    rw [hl,hright,map_append,filterMap_append,hr]
    simp only [filterMap_map]
    exact hor.symm
  · by_cases hbat : ∀ e∈entries,decide (e.1∈batch) → (mapOf e).lookup k=none
    · exact .inr hbat
    · left
      simp only [not_forall] at hbat
      obtain ⟨e',he',hin',hsome⟩ := hbat
      intro e he hin
      exact (hap e he (of_decide_eq_true hin) e' he' (of_decide_eq_true hin')).resolve_right hsome

theorem mem_keys_of_names (hv : spec.names v) : v∈spec.containerImages.keys++spec.containerRefMetadata.keys := by
  unfold UpdateSpec.names at hv
  rw [Bool.or_eq_true] at hv
  rw [mem_append]
  exact hv.imp (fun h => AList.mem_keys.mp (AList.lookup_isSome.mp h))
    (fun h => AList.mem_keys.mp (AList.lookup_isSome.mp h))

theorem ObjectMeta.mem_keys_of_lookup {m : ObjectMeta} {f : Field} {k : String} (h : (m.get f).lookup k≠none) :
    (f,k)∈m.keys := by
  have hk : k∈(m.get f).keys := AList.mem_keys.mp (AList.lookup_isSome.mp (Option.isSome_iff_ne_none.mpr h))
  cases f with
  | labels => exact mem_append_left _ (mem_map_of_mem hk)
  | annotations => exact mem_append_right _ (mem_map_of_mem hk)

theorem Aligned.batch {entries : List RefEntry} {done batch : List String}
    (hents : entries.Perm spec.containerRefMetadata.entries)
    (hcld : ∀ u v,u∈done → SharesKey spec.containerRefMetadata u v → v∈done)
    (hf : ∀ v∈batch,v∉done) (h : Aligned entries done refs) :
    Aligned entries (done++sortedList batch)
      (refs++(entries.filter fun e => e.1∉done).filter fun e => e.1∈batch) := by
  have hlk : ∀ e∈entries,spec.containerRefMetadata.lookup e.1=some e.2 :=
    fun e he => AList.mem_lookup_iff.mpr (hents.mem_iff.mp he)
  have hap : ∀ e∈entries,e.1∈done → ∀ e'∈entries,e'.1∈batch → ∀ k∈e.2.keys,k∉e'.2.keys := by
    intro e he hin e' he' hin' k hk hk'
    exact hf e'.1 hin' (hcld e.1 e'.1 hin ⟨e.2,e'.2,hlk e he,hlk e' he',k,hk,hk'⟩)
  intro f k
  refine valuesOf_batch (fun e => e.2.get f) ?_ (h f k)
  intro e he hin e' he' hin'
  by_contra hboth
  rw [not_or] at hboth
  exact hap e he hin e' he' hin' (f,k) (ObjectMeta.mem_keys_of_lookup hboth.1)
    (ObjectMeta.mem_keys_of_lookup hboth.2)

def filterRef (ref : RefMetadata) (p : String → Bool) : RefMetadata :=
  ⟨ref.entries.filter fun e => p e.1,ref.nodupKeys.sublist filter_sublist⟩

theorem exists_end {first : Pod} {ref : RefMetadata} (hnms : spec.NamesIn pod)
    (href : OrderOf ref spec.containerRefMetadata) (bound : List String)
    (hbd : ∀ v,spec.names v → v∈bound) (room n : Nat)
    (hroom : bound.length ≤ state.done.length+room) (hrun : Batches first n p)
    (h : Midway pod spec refs p state) (ha : Aligned ref.entries state.done refs) :
    ∃ m q state' refs',Batches first m q ∧ Ended q ∧ Midway pod spec refs' q state' ∧
      Aligned ref.entries state'.done refs' := by
  induction room generalizing p state refs n with
  | zero =>
    refine ⟨n,p,state,refs,hrun,h.ended ?_,h,ha⟩
    refine Bool.eq_false_iff.mpr ?_
    intro hm
    obtain ⟨v,hv⟩ := (hasNext_iff state).mp hm
    obtain ⟨hnm,ho⟩ := (h.progress.names_iff v).mp hv
    have hsub : (v::state.done).Subperm bound := by
      refine subperm_of_subset (nodup_cons.mpr ⟨ho,h.progress.nodup⟩) ?_
      intro u hu
      rcases mem_cons.mp hu with rfl | hu
      · exact hbd u hnm
      · exact hbd u (h.progress.named u hu)
    have hl:=hsub.length_le
    rw [length_cons] at hl
    omega
  | succ room ih =>
    by_cases hm : state.hasNext
    · have horder : OrderOf (filterRef ref fun v => v∉state.done)
          state.nextContainerRefMetadata := (href.filter _).trans h.progress.metadata.symm
      have hr:=h.progress.reorder horder
      obtain ⟨hn,hbat⟩ := h.next hnms horder 0
      have hlt:=h.done_lt hnms hm horder 0
      refine ih (n+1) ?_ (hrun.snoc ⟨0,state,_,h.recorded,hm,horder,rfl⟩) hn ?_
      · omega
      · rw [State.done_of_batches hbat]
        exact ha.batch href h.progress.closed fun w hw => (hr.fresh hw).2
    · exact ⟨n,p,state,refs,hrun,h.ended (Bool.eq_false_iff.mpr hm),h,ha⟩

theorem length_done_le (h : Midway pod spec refs p state) :
    state.done.length≤(spec.containerImages.keys++spec.containerRefMetadata.keys).length := by
  refine (subperm_of_subset h.progress.nodup ?_).length_le
  intro v hv
  exact mem_keys_of_names (h.progress.named v hv)

theorem exists_run {ref : RefMetadata} (hn : spec.NamesIn pod) (hr : OrderOf ref spec.containerRefMetadata) :
    ∃ first n p,FirstBatch pod spec first ∧ Batches first n p ∧ Ended p ∧
      ∀ now,SameOutcome p (oneShot now pod (spec.iterating ref)) := by
  have hbase:=hn.patch spec.metaDataPatch
  obtain ⟨state,hm,hbat⟩ := midway_of_firstBatch hn 0 hr rfl
  have ha : Aligned ref.entries state.done (ref.entries.filter fun e =>
      e.1∈containersToUpdate (spec.iterating ref) (pod.patchMetaData spec.metaDataPatch).containers) := by
    have hf : (ref.entries.filter fun e => e.1∈containersToUpdate (spec.iterating ref)
        (pod.patchMetaData spec.metaDataPatch).containers) = ref.entries.filter fun e => e.1∈state.done := by
      refine filter_congr ?_
      unfold State.done
      simp [hbat]
    rw [hf]
    exact fun _ _ => rfl
  obtain ⟨n,p,state',refs',hrun,hend,hl,ha'⟩ := exists_end hbase hr
    (spec.containerImages.keys++spec.containerRefMetadata.keys)
    (fun v hv => mem_keys_of_names hv) _ 0 (Nat.le_add_left _ _) Batches.none hm ha
  have hall : (ref.entries.filter fun e => e.1∈state'.done)=ref.entries := by
    refine filter_eq_self.mpr ?_
    intro e he
    exact decide_eq_true (hl.done_of_ended hend (names_of_mem_entries (hr.mem_iff.mp he)))
  refine ⟨_,n,p,⟨0,ref,hr,rfl⟩,hrun,hend,?_⟩
  intro now
  refine hl.sameOutcome rfl hbase hend now hr fun f k => ?_
  rw [ha' f k,hall]

structure Updated (pod : Pod) (spec : UpdateSpec) (p : Pod) (state : State) : Prop where
  recorded : p.state=some state
  once : ∀ v,spec.names v → state.batches.countP (fun b => decide (v∈b))=1
  ordered : AllInOrder pod spec state.batches
  outcome : ∃ ref,OrderOf ref spec.containerRefMetadata ∧
    ∀ now,SameOutcome p (oneShot now pod (spec.iterating ref))

theorem updated_of_ended {pod first p : Pod} {spec : UpdateSpec} {n : Nat} (hn : spec.NamesIn pod)
    (hf : FirstBatch pod spec first) (hr : Batches first n p) (he : Ended p) :
    ∃ state,Updated pod spec p state := by
  obtain ⟨state,refs,hm,-⟩ := midway_of_batches hn hf hr
  have hperm:=hm.refs_of_ended he
  have hk : refs.NodupKeys :=
    (perm_nodupKeys hperm).mpr spec.containerRefMetadata.nodupKeys
  refine ⟨state,hm.recorded,?_,?_,⟨refs,hk⟩,hperm,?_⟩
  · intro v hv
    exact count_of_flatten_nodup hm.progress.nodup (hm.done_of_ended he hv)
  · have ho:=hm.progress.ordered
    unfold AllInOrder InOrder at ho
    rw [containers_patchMetaData] at ho
    exact ho
  · intro now
    exact hm.sameOutcome rfl (hn.patch _) he now hperm fun _ _ => rfl

/-- The batches of an in-place update come to an end, and they do what the whole spec does at
once. -/
theorem batches_as_oneShot (pod : Pod) (spec : UpdateSpec)
    (hnames : ∀ v,spec.names v → v∈pod.containers.map Container.name) :
    (∀ first n p,FirstBatch pod spec first → Batches first n p →
      n≤(spec.containerImages.keys++spec.containerRefMetadata.keys).length ∧
      (Ended p ∨ ∃ p',NextBatch p p') ∧
      (Ended p → ∃ state,Updated pod spec p state)) ∧
    ∀ ref,OrderOf ref spec.containerRefMetadata → ∃ first n p,
      FirstBatch pod spec first ∧ Batches first n p ∧ Ended p ∧
        ∀ now,SameOutcome p (oneShot now pod (spec.iterating ref)) := by
  constructor
  · intro first n p hf hr
    obtain ⟨state,refs,hmid,hl⟩ := midway_of_batches hnames hf hr
    refine ⟨hl.trans (length_done_le hmid),?_,updated_of_ended hnames hf hr⟩
    by_cases hm : state.hasNext
    · exact .inr ⟨_,0,state,state.nextContainerRefMetadata,hmid.recorded,hm,Perm.refl _,rfl⟩
    · exact .inl (hmid.ended (Bool.eq_false_iff.mpr hm))
  · intro ref href
    exact exists_run hnames href

def agentPod : Pod where
  containers := [⟨"web", "web:1",some "p_1"⟩,⟨"log", "log:1",some "p_5"⟩,⟨"agent", "agent:1",some "p_0"⟩]
  statuses := [⟨"web", "sha-web-1"⟩,⟨"log", "sha-log-1"⟩,⟨"agent", "sha-agent-1"⟩]
  labels := fun _ => none
  annotations := fun _ => none
  state := none
  grace := none
  distinct := by decide

/- The log writer and its agent read one annotation. -/
def agentSpec : UpdateSpec where
  revision := "web-2"
  containerImages := ⟨[⟨"web", "web:2"⟩,⟨"log", "log:2"⟩,⟨"agent", "agent:2"⟩],by simp [NodupKeys,List.keys]⟩
  containerRefMetadata :=
    ⟨[⟨"agent",∅,AList.singleton "format" "json"⟩,⟨"log",∅,AList.singleton "format" "json"⟩],
      by simp [NodupKeys,List.keys]⟩
  metaDataPatch := none
  updateEnvFromMetadata := true
  graceSeconds := 0

theorem agentSpec_names (hv : agentSpec.names v) : v∈agentPod.containers.map Container.name := by
  have hk:=mem_keys_of_names hv
  simp only [agentSpec,agentPod,AList.keys,List.keys,map_cons,map_nil,cons_append,nil_append,mem_cons,
    not_mem_nil] at hk ⊢
  tauto

/- The agent goes with the log writer before the web server, which has a higher priority and waits for
the second batch. -/
theorem agentPod_in_two_batches :
    (∃ first,FirstBatch agentPod agentSpec first ∧
      first.images=[("web", "web:1"),("log", "log:2"),("agent", "agent:2")] ∧ ¬Ended first) ∧
    ∃ first n p state,FirstBatch agentPod agentSpec first ∧ Batches first n p ∧ n≤5 ∧ Ended p ∧
      Updated agentPod agentSpec p state ∧ ∀ now,SameOutcome p (oneShot now agentPod agentSpec) := by
  have hbat:=batches_as_oneShot agentPod agentSpec fun _ => agentSpec_names
  refine ⟨⟨_,⟨0,agentSpec.containerRefMetadata,Perm.refl _,rfl⟩,by decide +kernel,?_⟩,?_⟩
  · intro he
    exact absurd (he _ rfl) (by decide +kernel)
  · obtain ⟨first,n,p,hf,hr,he,hsame⟩ := hbat.2 agentSpec.containerRefMetadata (Perm.refl _)
    obtain ⟨hn,-,hup⟩ := hbat.1 first n p hf hr
    obtain ⟨state,hstate⟩ := hup he
    exact ⟨first,n,p,state,hf,hr,hn,he,hstate,hsame⟩

end Kruise.InPlaceUpdate
