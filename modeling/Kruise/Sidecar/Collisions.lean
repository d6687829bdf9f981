import Kruise.Sidecar.Protocol
import Kruise.Sidecar.Validate

/-!
# Container names of injected SidecarSets

The validating webhook compares the init containers of two SidecarSets with each other and their
containers with each other, by the names in the spec, and only when it takes the two for
overlapping. It does not see an init container and a container of one name, a name of the pair of
a hot-upgrade sidecar, or SidecarSets taken for disjoint although a pod matches both: a key has to
exist that the other selector does not mention, a `NotIn` lists `ALL`, or the newer one selects
namespaces by label and the older one by name.
-/

namespace Kruise.Sidecar

open Lib.Keyed Util.Selector List

def Pod.allNames (pod : Pod) : List String :=
  pod.initContainers.map Container.name++pod.containerNames

def sidecarNames (sets : List SidecarSet) : List String :=
  sets.flatMap SidecarSet.initNames ++
    (sets.flatMap SidecarSet.containers).flatMap SidecarContainer.podNames

theorem mergeSidecarContainers_of_new {origins : List Container} {injected : List SidecarContainer}
    (hnew : ∀ s∈injected,s.name∉origins.map Container.name) :
    ((mergeSidecarContainers origins injected).map Container.name).Perm
      (origins.map Container.name++injected.map SidecarContainer.name) := by
  have hn : injected.filter (fun s => decide (s.name∈origins.map Container.name))=[] :=
    filter_eq_nil_iff.mpr fun s hs => by simpa using hnew s hs
  have hall : injected.filter (fun s => !decide (s.name∈origins.map Container.name))=injected :=
    filter_eq_self.mpr fun s hs => by simpa using hnew s hs
  unfold mergeSidecarContainers
  simp only [hn,hall,foldl_nil,map_append,map_map]
  have ha : injected.filter (fun s => decide (s.podInjectPolicy=.afterAppContainer)) =
      injected.filter fun s => !decide (s.podInjectPolicy≠.afterAppContainer) := by
    simp
  have hspl:=(filter_append_perm
    (fun s : SidecarContainer => decide (s.podInjectPolicy≠.afterAppContainer)) injected).map
      SidecarContainer.name
  rw [map_append] at hspl
  rw [ha]
  refine Perm.trans ?_ (hspl.append_left (origins.map Container.name))
  rw [← append_assoc]
  exact Perm.append_right _ perm_append_comm

variable {namespaces : Namespaces} {pod : Pod}

theorem allNames_injectSidecars (env : Externals) {matched : List SidecarSet}
    (hnew : ∀ n∈sidecarNames matched,n∉pod.allNames) :
    (injectSidecars env matched pod).allNames.Perm (pod.allNames++sidecarNames matched) := by
  have hn : ((matched.flatMap SidecarSet.containers).flatMap SidecarContainer.injected).map SidecarContainer.name =
        (matched.flatMap SidecarSet.containers).flatMap SidecarContainer.podNames := by
    rw [map_flatMap]
    simp only [map_name_injected]
  have hr : ((mergeSidecarContainers pod.containers (buildSidecars matched).1).map
      Container.name).Perm (pod.containerNames ++
        (matched.flatMap SidecarSet.containers).flatMap SidecarContainer.podNames) := by
    rw [← hn]
    refine mergeSidecarContainers_of_new fun s hs hin => ?_
    refine hnew s.name (mem_append_right _ ?_) (mem_append_right _ hin)
    rw [← hn]
    exact mem_map_of_mem hs
  have hi : ((pod.initContainers++((buildSidecars matched).2.insertionSort
      fun a b => a.name≤b.name).map SidecarContainer.container).map Container.name).Perm
        (pod.initContainers.map Container.name++matched.flatMap SidecarSet.initNames) := by
    have hsrt:=(perm_insertionSort (fun a b : SidecarContainer => a.name≤b.name)
      (buildSidecars matched).2).map SidecarContainer.name
    have hf : (buildSidecars matched).2.map SidecarContainer.name =
        matched.flatMap SidecarSet.initNames := map_flatMap
    rw [hf] at hsrt
    rw [map_append,map_map]
    exact hsrt.append_left _
  refine (hi.append hr).trans ?_
  unfold Pod.allNames sidecarNames
  simp only [append_assoc]
  refine Perm.append_left _ ?_
  rw [← append_assoc,← append_assoc]
  exact Perm.append_right _ perm_append_comm

structure Matched (namespaces : Namespaces) (pod : Pod) (set : SidecarSet) : Prop where
  name : set.namespaceName ≠ "" → set.namespaceName=pod.podNamespace
  selected : ∀ selector,set.namespaceSelector=some selector →
    ∃ labels,namespaces pod.podNamespace=some labels ∧ selector.matches labels
  selector : set.selector.matches pod.labels

theorem matched_of_podMatchedSidecarSet {set : SidecarSet}
    (h : podMatchedSidecarSet namespaces pod set) : Matched namespaces pod set := by
  unfold podMatchedSidecarSet at h
  split_ifs at h with hn hsele
  refine ⟨?_,?_,(Bool.and_eq_true_iff.mp h).2⟩
  · intro hne
    by_contra ho
    exact hn ⟨hne,ho⟩
  · intro selector hsel
    rw [hsel] at hsele
    cases hl : namespaces pod.podNamespace with
    | none => simp [isSelectorNamespace,hl] at hsele
    | some labels =>
      simpa [isSelectorNamespace,hl] using hsele

/- The webhook takes the newer SidecarSet and the older one for disjoint although a pod matches
both. -/
def misjudged (newer older : SidecarSet) : Bool :=
  blindSpot newer.selector older.selector||blindSpot older.selector newer.selector ||
    match newer.namespaceSelector,older.namespaceSelector with
    | some s,some t => blindSpot s t||blindSpot t s
    | some _,none => older.namespaceName ≠ ""
    | none,_ => false

theorem isSelectorNamespace_of_matched {set : SidecarSet} (h : Matched namespaces pod set)
    {selector : LabelSelector} (hsel : set.namespaceSelector=some selector) {ns : String}
    (hns : ns=pod.podNamespace) : isSelectorNamespace namespaces ns (some selector) := by
  obtain ⟨labels,hl,hm⟩ := h.selected selector hsel
  unfold isSelectorNamespace
  rw [hns,hl]
  exact hm

variable {newer older : SidecarSet}

theorem isSidecarSetNamespaceOverlapping_of_matched (hn : Matched namespaces pod newer)
    (ho : Matched namespaces pod older) :
    isSidecarSetNamespaceOverlapping namespaces newer older =
      match newer.namespaceSelector,older.namespaceSelector with
      | some s,some t => !(blindSpot s t||blindSpot t s)
      | some _,none => older.namespaceName = ""
      | none,_ => true := by
  have hnms : ¬(newer.namespaceName ≠ "" ∧ older.namespaceName ≠ "" ∧ newer.namespaceName≠older.namespaceName) := by
    rintro ⟨h1,h2,hne⟩
    exact hne ((hn.name h1).trans (ho.name h2).symm)
  unfold isSidecarSetNamespaceOverlapping
  rw [if_neg hnms]
  cases hs : newer.namespaceSelector with
  | none =>
    cases ht : older.namespaceSelector with
    | none => simp
    | some t =>
      by_cases hname : newer.namespaceName = ""
      · simp [hname]
      · simp [isSelectorNamespace_of_matched ho ht (hn.name hname)]
  | some s =>
    cases ht : older.namespaceSelector with
    | none =>
      -- the lookup with the missing selector finds nothing
      simp [isSelectorNamespace]
    | some t =>
      obtain ⟨labels,hl,hm⟩ := hn.selected s hs
      obtain ⟨labels',hl',hm'⟩ := ho.selected t ht
      obtain rfl := Option.some.inj (hl.symm.trans hl')
      have hov:=isSelectorOverlapping_of_matches hm hm'
      have hf : newer.namespaceName ≠ "" → isSelectorNamespace namespaces newer.namespaceName (some t) :=
        fun h => isSelectorNamespace_of_matched ho ht (hn.name h)
      have hsnd : older.namespaceName ≠ "" → isSelectorNamespace namespaces older.namespaceName (some t) :=
        fun h => isSelectorNamespace_of_matched ho ht (ho.name h)
      by_cases h1 : newer.namespaceName = ""
      · by_cases h2 : older.namespaceName = ""
        · simp [h1,h2,hov]
        · simp [h1,hsnd h2,hov]
      · by_cases h2 : older.namespaceName = ""
        · simp [hf h1,h2,hov]
        · simp [hf h1,hsnd h2,hov]

theorem judgedOverlapping_of_matched (hn : Matched namespaces pod newer) (ho : Matched namespaces pod older) :
    judgedOverlapping namespaces newer older = !misjudged newer older := by
  unfold judgedOverlapping misjudged
  rw [isSidecarSetNamespaceOverlapping_of_matched hn ho, isSelectorOverlapping_of_matches hn.selector ho.selector]
  cases newer.namespaceSelector with
  | none => simp
  | some s =>
    cases older.namespaceSelector with
    | none =>
      by_cases hname : older.namespaceName = "" <;> simp [hname]
    | some t => simp [Bool.and_comm]

variable {s t : SidecarContainer}

theorem apart_same_kind_iff (hk : s.hotUpgrade=t.hotUpgrade) : s.Apart t ↔ s.name≠t.name := by
  constructor
  · intro h hname
    have hnms : s.podNames=t.podNames := by
      unfold SidecarContainer.podNames
      rw [hk,hname]
    obtain ⟨n,hn⟩ : ∃ n,n∈s.podNames := by
      unfold SidecarContainer.podNames
      split_ifs <;> exact ⟨_,mem_cons_self⟩
    exact h n hn (hnms ▸ hn)
  · intro hne n hs ht
    cases hh : s.hotUpgrade with
    | true => exact hne (name_eq_of_mem_podNames hh (hk ▸ hh) hs ht)
    | false =>
      rw [podNames_cold hh,mem_singleton] at hs
      rw [podNames_cold (hk ▸ hh),mem_singleton] at ht
      exact hne (hs.symm.trans ht)

theorem apart_cold_iff (ht : t.hotUpgrade=false) : s.Apart t ↔ t.name∉s.podNames := by
  unfold SidecarContainer.Apart
  rw [podNames_cold ht]
  constructor
  · intro h hin
    exact h t.name hin mem_cons_self
  · intro h n hn hin
    exact h (mem_singleton.mp hin ▸ hn)

def InitNamesClear (sets : List SidecarSet) : Prop :=
  ∀ a∈sets,∀ i∈a.initContainers,∀ b∈sets,∀ s∈b.containers,
    (a.name≠b.name ∨ s.hotUpgrade) → i.name∉s.podNames
  deriving Decidable

def HotNamesClear (sets : List SidecarSet) : Prop :=
  ∀ a∈sets,∀ s∈a.containers,∀ b∈sets,∀ t∈b.containers,
    (s.hotUpgrade ∧ t.hotUpgrade=false) → t.name∉s.podNames
  deriving Decidable

/- The SidecarSets have an init container of one name, or a container of one name and one kind. -/
def SharesNames (a b : SidecarSet) : Prop :=
  (∃ i∈a.initContainers,∃ j∈b.initContainers,i.name=j.name) ∨
    ∃ s∈a.containers,∃ t∈b.containers,s.name=t.name ∧ s.hotUpgrade=t.hotUpgrade
  deriving Decidable

def MisjudgedClear (sets : List SidecarSet) : Prop :=
  sets.Pairwise fun newer older => misjudged newer older=true → ¬SharesNames newer older
  deriving Decidable

variable {sets : List SidecarSet}

theorem nodup_sidecarNames_iff (hinit : ∀ a∈sets,a.initNames.Nodup) : (sidecarNames sets).Nodup ↔
      sets.Pairwise (fun a b => ∀ n∈a.initNames,n∉b.initNames) ∧
      (sets.flatMap SidecarSet.containers).Pairwise SidecarContainer.Apart ∧
      ∀ a∈sets,∀ i∈a.initContainers,∀ b∈sets,∀ s∈b.containers,i.name∉s.podNames := by
  unfold sidecarNames
  rw [nodup_append,nodup_flatMap,nodup_flatMap]
  constructor
  · rintro ⟨⟨-,hpair⟩,⟨-,hap⟩,hne⟩
    refine ⟨hpair,hap,?_⟩
    intro a ha i hi b hb s hs hin
    refine hne i.name (mem_flatMap.mpr ⟨a,ha,mem_map_of_mem hi⟩) i.name ?_ rfl
    exact mem_flatMap.mpr ⟨s,mem_flatMap.mpr ⟨b,hb,hs⟩,hin⟩
  · rintro ⟨hpair,hap,hclr⟩
    refine ⟨⟨hinit,hpair⟩,⟨fun s _ => podNames_nodup s,hap⟩,?_⟩
    rintro n hn m hm rfl
    obtain ⟨a,ha,hin⟩ := mem_flatMap.mp hn
    obtain ⟨i,hi,rfl⟩ := mem_map.mp hin
    obtain ⟨s,hsides,hs⟩ := mem_flatMap.mp hm
    obtain ⟨b,hb,hbs⟩ := mem_flatMap.mp hsides
    exact hclr a ha i hi b hb s hbs hs

theorem HotNamesClear.apart (h : HotNamesClear sets) {a b : SidecarSet} (ha : a∈sets)
    (hb : b∈sets) (hs : s∈a.containers) (ht : t∈b.containers)
    (hn : s.hotUpgrade=t.hotUpgrade → s.name≠t.name) : s.Apart t := by
  by_cases hk : s.hotUpgrade=t.hotUpgrade
  · exact (apart_same_kind_iff hk).mpr (hn hk)
  · cases hh : t.hotUpgrade with
    | false =>
      have ho : s.hotUpgrade := by simpa [hh] using hk
      exact (apart_cold_iff hh).mpr (h a ha s hs b hb t ht ⟨ho,hh⟩)
    | true =>
      have ho : s.hotUpgrade=false := by simpa [hh] using hk
      exact ((apart_cold_iff ho).mpr (h b hb t ht a ha s hs ⟨hh,ho⟩)).symm

theorem not_sharesNames (hn : Matched namespaces pod newer) (ho : Matched namespaces pod older)
    (hcmp : Compared namespaces newer older) (hclr : misjudged newer older → ¬SharesNames newer older) :
    ¬SharesNames newer older := by
  cases hm : misjudged newer older with
  | true => exact hclr hm
  | false =>
    have hjudged : judgedOverlapping namespaces newer older := by
      rw [judgedOverlapping_of_matched hn ho,hm]
      rfl
    obtain ⟨hinit,hspec⟩ := hcmp hjudged
    rintro (⟨i,hi,j,hj,hname⟩ | ⟨s,hs,t,ht,hname,-⟩)
    · exact hinit i.name (mem_map_of_mem hi) (hname ▸ mem_map_of_mem hj)
    · exact hspec s.name (mem_map_of_mem hs) (hname ▸ mem_map_of_mem ht)

theorem nodup_sidecarNames_of_matched (h : AcceptedNames namespaces sets) (hm : ∀ a∈sets,Matched namespaces pod a) :
    (sidecarNames sets).Nodup ↔ InitNamesClear sets ∧ HotNamesClear sets ∧ MisjudgedClear sets := by
  rw [nodup_sidecarNames_iff fun a ha => (h.own a ha).init]
  constructor
  · rintro ⟨hinit,hap,hclr⟩
    have hsymm : Std.Symm SidecarContainer.Apart := ⟨fun _ _ hst => hst.symm⟩
    refine ⟨fun a ha i hi b hb s hs _ => hclr a ha i hi b hb s hs,?_,?_⟩
    · rintro a ha s hs b hb t ht ⟨hh,hcold⟩
      refine (apart_cold_iff hcold).mp (hap.forall (mem_flatMap.mpr ⟨a,ha,hs⟩) (mem_flatMap.mpr ⟨b,hb,ht⟩) ?_)
      rintro rfl
      rw [hh] at hcold
      cases hcold
    · refine (hinit.and (pairwise_flatMap.mp hap).2).imp ?_
      rintro a b ⟨hab,hcons⟩ _ (⟨i,hi,j,hj,hname⟩ | ⟨s,hs,t,ht,hname,hk⟩)
      · exact hab i.name (mem_map_of_mem hi) (hname ▸ mem_map_of_mem hj)
      · exact (apart_same_kind_iff hk).mp (hcons s hs t ht) hname
  · rintro ⟨hinit,hh,hmis⟩
    have hsh : sets.Pairwise fun a b => ¬SharesNames a b := by
      refine (h.compared.and hmis).imp_of_mem ?_
      rintro a b ha hb ⟨hcmp,hclr⟩
      exact not_sharesNames (hm a ha) (hm b hb) hcmp hclr
    refine ⟨?_,pairwise_flatMap.mpr ⟨?_,?_⟩,?_⟩
    · refine hsh.imp fun {a b} hab n hn hn' => hab (.inl ?_)
      obtain ⟨i,hi,rfl⟩ := mem_map.mp hn
      obtain ⟨j,hj,hname⟩ := mem_map.mp hn'
      exact ⟨i,hi,j,hj,hname.symm⟩
    · intro a ha
      have hnms : a.containers.Pairwise fun s t => s.name≠t.name :=
        pairwise_map.mp (h.own a ha).spec
      exact hnms.imp_of_mem fun hs ht hne => hh.apart ha ha hs ht fun _ => hne
    · refine hsh.imp_of_mem fun {a b} ha hb hab s hs t ht => ?_
      exact hh.apart ha hb hs ht fun hk hname => hab (.inr ⟨s,hs,t,ht,hname,hk⟩)
    · intro a ha i hi b hb s hs hin
      by_cases ho : a.name≠b.name ∨ s.hotUpgrade
      · exact hinit a ha i hi b hb s hs ho hin
      · -- a container of the same SidecarSet, under the name of the spec
        obtain ⟨hname,hcold⟩ := not_or.mp ho
        obtain rfl := inj_on_of_nodup_map h.nodup ha hb (not_not.mp hname)
        rw [podNames_cold (Bool.eq_false_iff.mpr hcold),mem_singleton] at hin
        refine (h.own a ha).apart i.name (mem_map_of_mem hi) ?_
        rw [hin]
        exact mem_map_of_mem hs

theorem sidecarNames_subset {part : List SidecarSet} (h : ∀ a∈part,a∈sets) {n : String}
    (hn : n∈sidecarNames part) : n∈sidecarNames sets := by
  rcases mem_append.mp hn with hi | hr
  · obtain ⟨a,ha,hin⟩ := mem_flatMap.mp hi
    exact mem_append_left _ (mem_flatMap.mpr ⟨a,h a ha,hin⟩)
  · obtain ⟨s,hs,hin⟩ := mem_flatMap.mp hr
    obtain ⟨a,ha,has⟩ := mem_flatMap.mp hs
    exact mem_append_right _ (mem_flatMap.mpr ⟨s,mem_flatMap.mpr ⟨a,h a ha,has⟩,hin⟩)

theorem sidecarNames_perm {present : List SidecarSet} (h : present.Perm sets) :
    (sidecarNames present).Perm (sidecarNames sets) := by
  exact (h.flatMap_right _).append ((h.flatMap_right _).flatMap_right _)

/-- Injection of accepted SidecarSets gives distinct container names exactly when, among those that
match, no init container is named like a container of another one or of a pair, no container is
named like one of a pair, and those the webhook takes for disjoint share no names. -/
theorem injected_names_distinct_iff (env : Externals) (namespaces : Namespaces)
    {sets present : List SidecarSet} (haccepted : Accepted namespaces sets)
    (hpresent : present.Perm sets) (pod : Pod) (hown : pod.allNames.Nodup)
    (hnew : ∀ n∈sidecarNames sets,n∉pod.allNames) :
    (sidecarsetMutatingPod env namespaces present pod).allNames.Nodup ↔
      InitNamesClear (matchedSidecarSets namespaces sets pod) ∧
      HotNamesClear (matchedSidecarSets namespaces sets pod) ∧
      MisjudgedClear (matchedSidecarSets namespaces sets pod) := by
  have hperm : (matchedSidecarSets namespaces present pod).Perm
      (matchedSidecarSets namespaces sets pod) := hpresent.filter _
  have hnms:=sidecarNames_perm hperm
  have hsub : ∀ n∈sidecarNames (matchedSidecarSets namespaces sets pod),n∉pod.allNames :=
    fun n hn => hnew n (sidecarNames_subset (fun a ha => (mem_filter.mp ha).1) hn)
  have hnew' : ∀ n∈sidecarNames (matchedSidecarSets namespaces present pod),
      n∉pod.allNames := fun n hn => hsub n (hnms.mem_iff.mp hn)
  have hadd:=(allNames_injectSidecars env hnew').trans (hnms.append_left _)
  have hmat : ∀ a∈matchedSidecarSets namespaces sets pod,Matched namespaces pod a := by
    intro a ha
    have hk:=(mem_filter.mp ha).2
    exact matched_of_podMatchedSidecarSet (Bool.and_eq_true_iff.mp hk).2
  have hnamesOk : AcceptedNames namespaces (matchedSidecarSets namespaces sets pod) :=
    haccepted.names.filter _
  unfold sidecarsetMutatingPod
  rw [hadd.nodup_iff,← nodup_sidecarNames_of_matched hnamesOk hmat,nodup_append]
  constructor
  · exact fun h => h.2.1
  · intro h
    refine ⟨hown,h,?_⟩
    rintro n hn m hm rfl
    exact hsub n hm hn

def sidecarFor (setName container : String) (selector : LabelSelector) : SidecarSet where
  name := setName
  selector := selector
  namespaceName := ""
  namespaceSelector := none
  injectionPaused := false
  updatePaused := false
  initContainers := []
  containers := [⟨container, "v1",false, "",.beforeAppContainer⟩]
  volumes := []
  patchPodMetadata := []
  resourceVersion := "1"

def webApp : LabelSelector := ⟨AList.singleton "app" "web",[]⟩

def anyTier : LabelSelector := ⟨∅,[⟨"tier",.opExists,[]⟩]⟩

def frontPod : Pod :=
  {webPod with
    labels := fun key =>
      if key = "app" then some "web" else if key = "tier" then some "front" else none}

/-- The selector that wants any tier is taken for disjoint with one that does not mention tiers. -/
theorem two_meshes_collide :
    ∃ (namespaces : Namespaces) (sets : List SidecarSet) (pod : Pod),
      Accepted namespaces sets ∧ pod.allNames.Nodup ∧
      (∀ n∈sidecarNames sets,n∉pod.allNames) ∧
      ¬(sidecarsetMutatingPod tagImages namespaces sets pod).allNames.Nodup := by
  refine ⟨fun _ => none,[sidecarFor "by-tier" "mesh" anyTier,sidecarFor "by-app" "mesh" webApp],
    frontPod,?_,by decide,by decide,by decide⟩
  exact .create (.create .empty (by decide) (by decide)) (by decide) (by decide)

theorem mesh_and_logs_distinct :
    (sidecarsetMutatingPod tagImages (fun _ => none)
      [sidecarFor "by-tier" "logs" anyTier,sidecarFor "by-app" "mesh" webApp] frontPod).allNames.Nodup := by
  refine (injected_names_distinct_iff tagImages (fun _ => none) ?_ (Perm.refl _) frontPod
    (by decide) (by decide)).mpr (by decide)
  exact .create (.create .empty (by decide) (by decide)) (by decide) (by decide)

end Kruise.Sidecar
