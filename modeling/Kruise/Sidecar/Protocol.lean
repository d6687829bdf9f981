import Kruise.Lib.Coding
import Kruise.Lib.Transition
import Kruise.Sidecar.Injection
import Kruise.Sidecar.Turns

/-!
# Runs of a hot upgrade

One SidecarSet and one of its pods from injection on: changes of the images in the spec, upgrades,
flips, and reports of the kubelet. A write that meets a conflict is repeated on the pod as it is
then, without a second look (`sidecarset_hotupgrade.go` 45-66, `sidecarset_processor.go`
`updatePodSidecarAndHash`); a `checked` step was decided on the pod it writes.
-/

namespace Kruise.Sidecar

open Lib.Transition Lib.Keyed Lib.Coding List

structure World where
  set : SidecarSet
  pod : Pod

inductive Label where
  | changeImages (image : String → String) (resourceVersion : String)
  | upgrade (checked : Bool)
  | flip (checked : Bool)
  | report (statuses : List ContainerStatus) (runningAndReady : Bool)

def SidecarSet.withImages (set : SidecarSet) (image : String → String) (resourceVersion : String) : SidecarSet :=
  {set with
    containers := set.containers.map fun s => {s with image := image s.name}
    resourceVersion := resourceVersion}

def World.next (env : Externals) (w : World) : Label → Option World
  | .changeImages image resourceVersion =>
    some {w with set := w.set.withImages image resourceVersion}
  | .upgrade checked =>
    if checked&&!canUpgrade env w.set w.pod then none
    else some {w with pod := updatePodSidecarContainer env w.set w.pod}
  | .flip checked =>
    if checked&&!canFlip env w.set w.pod then none
    else some {w with pod := flipPodSidecarContainerDo w.set w.pod}
  | .report statuses runningAndReady =>
    some {w with pod := {w.pod with statuses := statuses,runningAndReady := runningAndReady}}

def World.step (env : Externals) (w : World) (l : Label) (w' : World) : Prop :=
  w.next env l=some w'

/- A pod as the API server takes it after injection of the SidecarSets that match it, the one under
study among them. -/
structure Injected (env : Externals) (w : World) : Prop where
  fresh : w.pod.statuses=[] ∧ w.pod.runningAndReady=false
  nodup : w.pod.containerNames.Nodup
  hot : ∃ s∈w.set.containers,s.hotUpgrade
  injection : ∃ (matched : List SidecarSet) (pod : Pod),w.set∈matched ∧
    (matched.map SidecarSet.name).Nodup ∧
    (matched.flatMap SidecarSet.containers).Pairwise SidecarContainer.Apart ∧
    w.pod=injectSidecars env matched pod

theorem World.next_cases {env : Externals} {w w' : World} {l : Label} (h : w.step env l w') :
    (∃ image rv,l=.changeImages image rv ∧ w'=⟨w.set.withImages image rv,w.pod⟩) ∨
    (∃ checked,l=.upgrade checked ∧ w'=⟨w.set,updatePodSidecarContainer env w.set w.pod⟩) ∨
    (∃ checked,l=.flip checked ∧ (checked → canFlip env w.set w.pod) ∧
      w'=⟨w.set,flipPodSidecarContainerDo w.set w.pod⟩) ∨
    (∃ statuses ready,l=.report statuses ready ∧
      w'=⟨w.set,{w.pod with statuses := statuses,runningAndReady := ready}⟩) := by
  cases l with
  | changeImages image rv => exact .inl ⟨image,rv,rfl,(Option.some.inj h).symm⟩
  | upgrade checked =>
    simp only [World.step,World.next] at h
    split_ifs at h
    exact .inr (.inl ⟨checked,rfl,(Option.some.inj h).symm⟩)
  | flip checked =>
    simp only [World.step,World.next] at h
    split_ifs at h with hcan
    refine .inr (.inr (.inl ⟨checked,rfl,?_,(Option.some.inj h).symm⟩))
    simpa using hcan
  | report statuses ready =>
    exact .inr (.inr (.inr ⟨statuses,ready,rfl,(Option.some.inj h).symm⟩))

section

variable {env : Externals} {set : SidecarSet} {p : Pod}

theorem Layout.withImages (h : Layout set p) (image : String → String) (rv : String) :
    Layout (set.withImages image rv) p := by
  refine ⟨?_,h.nodup,?_,?_⟩
  · exact pairwise_map.mpr h.apart
  · intro s hs
    obtain ⟨t,ht,rfl⟩ := mem_map.mp hs
    exact h.present t ht
  · intro s hs hh
    obtain ⟨t,ht,rfl⟩ := mem_map.mp hs
    exact h.working t ht hh

theorem containerNames_upgrade : (updatePodSidecarContainer env set p).containerNames=p.containerNames := by
  refine foldlRecOn (motive := fun acc : Pod × List String =>
    acc.1.containerNames=p.containerNames) set.containers _ rfl ?_
  intro acc ha s _
  exact (containerNames_upgradeOne acc).trans ha

theorem Layout.upgrade (h : Layout set p) (env : Externals) : Layout set (updatePodSidecarContainer env set p) := by
  refine ⟨h.apart,?_,?_,?_⟩
  · rw [containerNames_upgrade]
    exact h.nodup
  · rw [containerNames_upgrade]
    exact h.present
  · intro s hm hs
    obtain ⟨new,rest,hch,⟨-,hview⟩ | hr⟩ := h.upgrade_pair env hm hs
    · rw [hview.working]
      exact h.working s hm hs
    · rw [hr.working]
      rcases hch with ⟨-,rfl,-⟩ | ⟨-,rfl,-⟩
      · exact p.work_mem hs
      · exact p.other_mem hs

theorem Layout.flip (h : Layout set p) : Layout set (flipPodSidecarContainerDo set p) := by
  obtain ⟨hn,hw,-⟩ := h.flip_work
  refine ⟨h.apart,hn.symm ▸ h.nodup,hn.symm ▸ h.present,hw.symm ▸ h.working⟩

theorem Layout.report (h : Layout set p) (statuses : List ContainerStatus) (ready : Bool) :
    Layout set {p with statuses := statuses,runningAndReady := ready} :=
  ⟨h.apart,h.nodup,h.present,h.working⟩

theorem Layout.step {w w' : World} {l : Label} (h : Layout w.set w.pod) (hstep : w.step env l w') :
    Layout w'.set w'.pod := by
  rcases World.next_cases hstep with ⟨image,rv,-,rfl⟩ | ⟨checked,-,rfl⟩ | ⟨checked,-,-,rfl⟩ | ⟨statuses,ready,-,rfl⟩
  · exact h.withImages image rv
  · exact h.upgrade env
  · exact h.flip
  · exact h.report statuses ready

end

section

variable {env : Externals} {w : World}

theorem nodup_flatMap_podNames {sidecars : List SidecarContainer} (h : sidecars.Pairwise SidecarContainer.Apart) :
    ((sidecars.flatMap SidecarContainer.injected).map SidecarContainer.name).Nodup := by
  rw [map_flatMap]
  simp only [map_name_injected]
  exact nodup_flatMap.mpr ⟨fun s _ => podNames_nodup s,h⟩

variable (h : Injected env w)
include h

theorem Injected.container {s x : SidecarContainer} (hm : s∈w.set.containers) (hx : x∈s.injected) :
    x.name∈w.pod.containerNames ∧ w.pod.image x.name=x.image := by
  obtain ⟨matched,pod,hset,-,hap,hpod⟩ := h.injection
  have hsidecar : s∈matched.flatMap SidecarSet.containers :=
    mem_flatMap.mpr ⟨w.set,hset,hm⟩
  have hin : x.container∈w.pod.containers := by
    rw [hpod]
    exact injected_mem_mergeSidecarContainers (mem_flatMap.mpr ⟨s,hsidecar,hx⟩) (nodup_flatMap_podNames hap)
  have hf : findKey Container.name x.name w.pod.containers=some x.container :=
    findKey_of_mem h.nodup hin
  exact ⟨mem_map_of_mem (f := Container.name) hin,Pod.image_of_findKey hf⟩

theorem Injected.firstAnnotations {s : SidecarContainer}
    (hm : s∈w.set.containers) (hs : s.hotUpgrade) : FirstAnnotations s w.pod := by
  obtain ⟨matched,pod,hset,-,hap,hpod⟩ := h.injection
  have hf:=firstAnnotations_foldl hap (mem_flatMap.mpr ⟨w.set,hset,hm⟩) hs pod
  rw [hpod]
  exact ⟨hf.working,hf.version1,hf.version2,hf.versionAlt1,hf.versionAlt2⟩

theorem Injected.layout : Layout w.set w.pod := by
  obtain ⟨matched,pod,hset,-,hap,hpod⟩ := h.injection
  refine ⟨(pairwise_flatMap.mp hap).1 w.set hset,h.nodup,?_,?_⟩
  · intro s hm n hn
    rw [← map_name_injected] at hn
    obtain ⟨x,hx,rfl⟩ := mem_map.mp hn
    exact (h.container hm hx).1
  · intro s hm hs
    rw [(h.firstAnnotations hm hs).working]
    exact (mem_podNames_hot hs).mpr (.inl rfl)

theorem Injected.hash : w.pod.hash w.set.name=env.getSidecarSetRevision w.set := by
  obtain ⟨matched,pod,hset,hnd,-,hpod⟩ := h.injection
  obtain ⟨s,hm,-⟩ := h.hot
  have hl:=length_pos_of_mem hm
  rw [hpod]
  exact hash_foldl_recordHash hnd hset (by omega) pod.hash

theorem Injected.image_working {s : SidecarContainer} (hm : s∈w.set.containers) (hs : s.hotUpgrade) :
    w.pod.image (w.pod.working s.name)=s.image := by
  have hx : (generateHotUpgradeContainers s).1∈s.injected := by
    simp [SidecarContainer.injected,hs]
  rw [(h.firstAnnotations hm hs).working]
  exact (h.container hm hx).2

end

def SidecarContainer.fields (s : SidecarContainer) : List String :=
  [s.name,s.image,if s.hotUpgrade then "hot" else "cold",s.hotUpgradeEmptyImage,
    if s.podInjectPolicy=.afterAppContainer then "after" else "before"]

theorem SidecarContainer.fields_injective : Function.Injective SidecarContainer.fields := by
  rintro ⟨n,i,u,e,q⟩ ⟨n',i',u',e',q'⟩ h
  cases u <;> cases u' <;> cases q <;> cases q' <;> simp_all [SidecarContainer.fields]

/- Images are tags, and the hash is a code of all containers. -/
def tagImages : Externals where
  isImageDigest := fun _ => false
  isContainerImageEqual := fun _ _ => true
  sidecarSetHash := codeRecords SidecarContainer.fields

theorem tagImages_injective : Function.Injective tagImages.sidecarSetHash :=
  codeRecords_injective (n := 4) (fun _ => rfl) SidecarContainer.fields_injective

def meshSet : SidecarSet where
  name := "mesh-set"
  selector := ⟨∅,[⟨"app",.opExists,[]⟩]⟩
  namespaceName := ""
  namespaceSelector := none
  injectionPaused := false
  updatePaused := false
  initContainers := []
  containers := [⟨"mesh", "v1",true, "empty",.beforeAppContainer⟩]
  volumes := []
  patchPodMetadata := []
  resourceVersion := "1"

def webPod : Pod where
  namespaceName := "default"
  labels := fun key => if key = "app" then some "web" else none
  initContainers := []
  containers := [⟨"web", "web"⟩]
  statuses := []
  runningAndReady := false
  working := fun _ => ""
  version := fun _ => ""
  versionAlt := fun _ => ""
  lastImageIDs := fun _ _ => none
  hash := fun _ => ""

def meshStart : World := ⟨meshSet,injectSidecars tagImages [meshSet] webPod⟩

theorem meshStart_injected : Injected tagImages meshStart where
  fresh := ⟨rfl,rfl⟩
  nodup := by decide
  hot := ⟨_,mem_singleton.mpr rfl,rfl⟩
  injection := ⟨[meshSet],webPod,mem_singleton.mpr rfl,nodup_singleton _, pairwise_singleton _ _,rfl⟩

/- A report in which only the second container of the pair varies. -/
def meshReport (ready : Bool) (image imageID : String) : Label :=
  .report [⟨"web",true, "web", "id-web"⟩,⟨"mesh-1",true, "v1", "id-1"⟩,
    ⟨"mesh-2",ready,image,imageID⟩] ready

end Kruise.Sidecar
