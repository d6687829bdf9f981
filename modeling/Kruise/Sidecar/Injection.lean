import Kruise.Sidecar.Pairs
import Mathlib.Data.List.Sort

/-!
# Injection of sidecars into a created pod

The SidecarSets that match a pod (`pkg/control/sidecarcontrol/util.go` 87-124) and the containers,
init containers and annotations that their injection adds
(`pkg/webhook/pod/mutating/sidecarset.go` 42-160, 257-464 and `sidecarset_hotupgrade.go` 29-66),
at the current revision.
-/

namespace Kruise.Sidecar

open Lib.Keyed Util.Selector List Function

/- The labels of the namespaces that exist. -/
abbrev Namespaces := String → Option Labels

variable (namespaces : Namespaces)

/- A missing selector matches nothing. -/
def isSelectorNamespace (ns : String) (nsSelector : Option LabelSelector) : Bool :=
  match nsSelector,namespaces ns with
  | some selector,some labels => selector.matches labels
  | _,_ => false

def Pod.podNamespace (pod : Pod) : String :=
  if pod.namespaceName = "" then "default" else pod.namespaceName

def podMatchedSidecarSet (pod : Pod) (set : SidecarSet) : Bool :=
  if set.namespaceName ≠ "" ∧ set.namespaceName≠pod.podNamespace then false
  else if set.namespaceSelector.isSome &&
      !isSelectorNamespace namespaces pod.podNamespace set.namespaceSelector then false
  else !set.selector.isEmpty&&set.selector.matches pod.labels

variable (s : SidecarContainer)

def generateHotUpgradeContainers : SidecarContainer × SidecarContainer :=
  let names:=getHotUpgradeContainerName s.name
  ({s with name := names.1},{s with name := names.2,image := s.hotUpgradeEmptyImage})

def SidecarContainer.injected : List SidecarContainer :=
  if s.hotUpgrade then [(generateHotUpgradeContainers s).1,(generateHotUpgradeContainers s).2]
  else [s]

def SidecarContainer.container : Container := ⟨s.name,s.image⟩

/- A sidecar whose name the pod has already takes the place of that container. -/
def mergeSidecarContainers (origins : List Container) (injected : List SidecarContainer) : List Container :=
  let inPod:=fun s : SidecarContainer => decide (s.name∈origins.map Container.name)
  let added:=injected.filter fun s => !inPod s
  let replaced:=(injected.filter inPod).foldl
    (fun cs s => replaceKey Container.name s.container cs) origins
  ((added.filter fun s => s.podInjectPolicy≠.afterAppContainer).map SidecarContainer.container ++
    replaced) ++
      (added.filter fun s => s.podInjectPolicy=.afterAppContainer).map SidecarContainer.container

def buildSidecars (matched : List SidecarSet) : List SidecarContainer × List SidecarContainer :=
  ((matched.flatMap SidecarSet.containers).flatMap SidecarContainer.injected,
    matched.flatMap SidecarSet.initContainers)

def injectHotUpgradeContainers (pod : Pod) (s : SidecarContainer) : Pod :=
  let names:=getHotUpgradeContainerName s.name
  if s.hotUpgrade then
    {pod with
      working := update pod.working s.name names.1
      version := update (update pod.version names.1 "1") names.2 "0"
      versionAlt := update (update pod.versionAlt names.1 "0") names.2 "1" }
  else pod

/- A SidecarSet without containers is not recorded. -/
def recordHash (env : Externals) (hash : String → String) (set : SidecarSet) : String → String :=
  if set.initContainers.length+set.containers.length > 0 then
    update hash set.name (env.getSidecarSetRevision set)
  else hash

def injectSidecars (env : Externals) (matched : List SidecarSet) (pod : Pod) : Pod :=
  let sidecars:=buildSidecars matched
  {(matched.flatMap SidecarSet.containers).foldl injectHotUpgradeContainers pod with
    initContainers := pod.initContainers ++
      (sidecars.2.insertionSort fun a b => a.name≤b.name).map SidecarContainer.container
    containers := mergeSidecarContainers pod.containers sidecars.1
    hash := matched.foldl (recordHash env) pod.hash}

def matchedSidecarSets (sets : List SidecarSet) (pod : Pod) : List SidecarSet :=
  sets.filter fun set => !set.injectionPaused&&podMatchedSidecarSet namespaces pod set

/- The webhook on the creation of a pod, given the SidecarSets of the cluster. -/
def sidecarsetMutatingPod (env : Externals) (namespaces : Namespaces) (sets : List SidecarSet)
    (pod : Pod) : Pod :=
  injectSidecars env (matchedSidecarSets namespaces sets pod) pod

theorem map_name_injected : s.injected.map SidecarContainer.name=s.podNames := by
  unfold SidecarContainer.injected SidecarContainer.podNames
  cases s.hotUpgrade with
  | true => rfl
  | false => rfl

theorem injected_mem_mergeSidecarContainers {origins : List Container}
    {injected : List SidecarContainer} {x : SidecarContainer} (hx : x∈injected)
    (hnd : (injected.map SidecarContainer.name).Nodup) : x.container∈mergeSidecarContainers origins injected := by
  by_cases hin : x.name∈origins.map Container.name
  · -- no other sidecar has this name, so the replacement stays
    have hm : x∈injected.filter fun s => decide (s.name∈origins.map Container.name) :=
      mem_filter.mpr ⟨hx,decide_eq_true hin⟩
    have hsub : (injected.filter fun s => decide (s.name∈origins.map Container.name)).Pairwise
        fun a b => a.name≠b.name := (pairwise_map.mp hnd).sublist filter_sublist
    obtain ⟨cs,hcs,-,hsame⟩ := foldl_one_turn
      (fun cs (s : SidecarContainer) => replaceKey Container.name s.container cs)
      (fun cs => cs.map Container.name=origins.map Container.name)
      (fun a b => findKey Container.name x.name b=findKey Container.name x.name a)
      (fun a => rfl) (fun a b c hab hbc => hbc.trans hab) (fun _ _ => Ne.symm) hsub hm
      (fun y _ cs hcs => (map_key_replaceKey Container.name y.container cs).trans hcs)
      (fun y _ hxy cs _ => findKey_replaceKey_of_ne (x := y.container) hxy cs) (s := origins) rfl
    have hk : x.container.name∈cs.map Container.name := hcs.symm ▸ hin
    have hself : findKey Container.name x.name (replaceKey Container.name x.container cs) =
        some x.container := findKey_replaceKey_self hk
    rw [hself] at hsame
    exact mem_append_left _ (mem_append_right _ (findKey_some hsame).1)
  · have hm : x∈injected.filter fun s => !decide (s.name∈origins.map Container.name) :=
      mem_filter.mpr ⟨hx,by simp only [hin,decide_false,Bool.not_false]⟩
    by_cases hpol : x.podInjectPolicy=.afterAppContainer
    · refine mem_append_right _ (mem_map_of_mem (mem_filter.mpr ⟨hm,?_⟩))
      exact decide_eq_true hpol
    · refine mem_append_left _ (mem_append_left _ ?_)
      exact mem_map_of_mem (mem_filter.mpr ⟨hm,decide_eq_true hpol⟩)

theorem sameView_injectHotUpgradeContainers {s t : SidecarContainer} (hs : s.hotUpgrade)
    (hst : s.Apart t) (pod : Pod) : SameView s pod (injectHotUpgradeContainers pod t) := by
  unfold injectHotUpgradeContainers
  cases ht : t.hotUpgrade with
  | false => exact SameView.refl s pod
  | true =>
    have hne1 : ∀ n∈s.podNames,n≠(getHotUpgradeContainerName t.name).1 :=
      fun n hn h => hst n hn ((mem_podNames_hot ht).mpr (.inl h))
    have hne2 : ∀ n∈s.podNames,n≠(getHotUpgradeContainerName t.name).2 :=
      fun n hn h => hst n hn ((mem_podNames_hot ht).mpr (.inr h))
    refine ⟨?_,fun n hn => rfl,?_,?_⟩
    · exact update_of_ne (hst.name_ne hs ht) _ _
    · intro n hn
      exact (update_of_ne (hne2 n hn) _ _).trans (update_of_ne (hne1 n hn) _ _)
    · intro n hn
      exact (update_of_ne (hne2 n hn) _ _).trans (update_of_ne (hne1 n hn) _ _)

/- The annotations of a pair right after injection. -/
structure FirstAnnotations (s : SidecarContainer) (pod : Pod) : Prop where
  working : pod.working s.name=(getHotUpgradeContainerName s.name).1
  version1 : pod.version (getHotUpgradeContainerName s.name).1 = "1"
  version2 : pod.version (getHotUpgradeContainerName s.name).2 = "0"
  versionAlt1 : pod.versionAlt (getHotUpgradeContainerName s.name).1 = "0"
  versionAlt2 : pod.versionAlt (getHotUpgradeContainerName s.name).2 = "1"

theorem firstAnnotations_injectHotUpgradeContainers {s : SidecarContainer} (hs : s.hotUpgrade) (pod : Pod) :
    FirstAnnotations s (injectHotUpgradeContainers pod s) := by
  have hne:=fst_ne_snd s.name s.name
  simp only [injectHotUpgradeContainers,hs,if_true]
  refine ⟨update_self _ _ _,?_,update_self _ _ _,?_,update_self _ _ _⟩
  · exact (update_of_ne hne _ _).trans (update_self _ _ _)
  · exact (update_of_ne hne _ _).trans (update_self _ _ _)

theorem firstAnnotations_foldl {sidecars : List SidecarContainer} {s : SidecarContainer}
    (hap : sidecars.Pairwise SidecarContainer.Apart) (hm : s∈sidecars) (hs : s.hotUpgrade) (pod : Pod) :
    FirstAnnotations s (sidecars.foldl injectHotUpgradeContainers pod) := by
  obtain ⟨q,-,-,hview⟩ := foldl_one_turn injectHotUpgradeContainers (fun _ => True) (SameView s)
    (SameView.refl s) (fun _ _ _ => SameView.trans) (fun _ _ => SidecarContainer.Apart.symm) hap
    hm (fun _ _ _ _ => trivial)
    (fun t _ hst p _ => sameView_injectHotUpgradeContainers hs hst p) (s := pod) trivial
  have hf:=firstAnnotations_injectHotUpgradeContainers hs q
  have h1:=(mem_podNames_hot hs).mpr (.inl (Eq.refl (getHotUpgradeContainerName s.name).1))
  have h2:=(mem_podNames_hot hs).mpr (.inr (Eq.refl (getHotUpgradeContainerName s.name).2))
  exact ⟨hview.working.trans hf.working,(hview.version _ h1).trans hf.version1,
    (hview.version _ h2).trans hf.version2,(hview.versionAlt _ h1).trans hf.versionAlt1,
    (hview.versionAlt _ h2).trans hf.versionAlt2⟩

theorem hash_foldl_recordHash {env : Externals} {matched : List SidecarSet} {set : SidecarSet}
    (hnd : (matched.map SidecarSet.name).Nodup) (hm : set∈matched)
    (hset : 0<set.initContainers.length+set.containers.length) (hash : String → String) :
    matched.foldl (recordHash env) hash set.name=env.getSidecarSetRevision set := by
  have ho : ∀ t∈matched,set.name≠t.name → ∀ hash : String → String,True →
      recordHash env hash t set.name=hash set.name := by
    intro t _ hne hash _
    unfold recordHash
    split_ifs
    · exact update_of_ne hne _ _
    · rfl
  obtain ⟨h,-,-,hsame⟩ := foldl_one_turn (recordHash env) (fun _ => True)
    (fun a b => b set.name=a set.name) (fun _ => rfl) (fun _ _ _ hab hbc => hbc.trans hab)
    (fun _ _ => Ne.symm) (pairwise_map.mp hnd) hm (fun _ _ _ _ => trivial) ho
    (s := hash) trivial
  refine hsame.trans ?_
  unfold recordHash
  rw [if_pos hset]
  exact update_self _ _ _

end Kruise.Sidecar
