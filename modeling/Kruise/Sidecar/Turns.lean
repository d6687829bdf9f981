import Kruise.Sidecar.Pairs

/-!
# One turn of the upgrade and of the flip loop

What a turn does to the pair of its own sidecar, and that it leaves the other pairs alone.
-/

namespace Kruise.Sidecar

open Lib.Keyed Function

variable {env : Externals} {set : SidecarSet} {s t : SidecarContainer} {p : Pod}

/- The pod has the containers of all sidecars of the set, under names of their own, and
the annotation names a container of each pair. -/
structure Layout (set : SidecarSet) (pod : Pod) : Prop where
  apart : set.containers.Pairwise SidecarContainer.Apart
  nodup : pod.containerNames.Nodup
  present : ∀ s∈set.containers,∀ n∈s.podNames,n∈pod.containerNames
  working : ∀ s∈set.containers,s.hotUpgrade → pod.working s.name∈s.podNames

/- When the code upgrades the working container and not the other one. -/
def upgradesWorking (env : Externals) (set : SidecarSet) (s : SidecarContainer) (pod : Pod) : Bool :=
  if pod.image (pod.work s)=s.hotUpgradeEmptyImage then
    pod.work s=(getHotUpgradeContainerName s.name).1 ||
      pod.image (pod.other s)≠s.hotUpgradeEmptyImage
  else
    pod.image (pod.other s)≠s.hotUpgradeEmptyImage &&
      isReadyAndConsistent env set pod (pod.other s) &&
      !isReadyAndConsistent env set pod (pod.work s)

theorem findContainerToHotUpgrade_eq (hs : s.hotUpgrade) (hpres : ∀ n∈s.podNames,n∈p.containerNames) :
    findContainerToHotUpgrade env set s p =
      if upgradesWorking env set s p then (p.work s,p.other s) else (p.other s,p.work s) := by
  have h1:=Pod.container_name (hpres _ ((mem_podNames_hot hs).mpr (.inl rfl)))
  have h2:=Pod.container_name (hpres _ ((mem_podNames_hot hs).mpr (.inr rfl)))
  have holder : getPodHotUpgradeContainers s.name p=(p.work s,p.other s) := rfl
  unfold findContainerToHotUpgrade upgradesWorking
  simp only [h1,h2,holder,Pod.image]
  rcases p.work_other_cases s with ⟨hw,ho⟩ | ⟨hw,ho⟩ <;> grind

theorem upgradeSidecarContainer_hot (hs : s.hotUpgrade) (hpres : ∀ n∈s.podNames,n∈p.containerNames) :
    upgradeSidecarContainer env set s p =
      if upgradesWorking env set s p then
        if s.image=p.image (p.other s) then none else some ⟨p.work s,s.image⟩
      else if s.image=p.image (p.work s) then none else some ⟨p.other s,s.image⟩ := by
  have hw:=Pod.container_name (hpres _ (p.work_mem hs))
  have ho:=Pod.container_name (hpres _ (p.other_mem hs))
  unfold upgradeSidecarContainer
  rw [if_pos hs,findContainerToHotUpgrade_eq hs hpres]
  cases upgradesWorking env set s p with
  | true => simp [hw]
  | false => simp [ho]

theorem upgradeSidecarContainer_cold (hs : s.hotUpgrade=false) (hpres : ∀ n∈s.podNames,n∈p.containerNames) :
    upgradeSidecarContainer env set s p =
      if s.image=p.image s.name then none else some ⟨s.name,s.image⟩ := by
  have hn : (p.container s.name).name=s.name :=
    Pod.container_name (hpres s.name (by simp [podNames_cold hs]))
  simp [upgradeSidecarContainer,hs,hn]

theorem upgradeSidecarContainer_mem {c : Container} (hpres : ∀ n∈s.podNames,n∈p.containerNames)
    (h : upgradeSidecarContainer env set s p=some c) : c.name∈s.podNames := by
  cases hs : s.hotUpgrade with
  | true =>
    rw [upgradeSidecarContainer_hot hs hpres] at h
    split_ifs at h
    · cases h
      exact p.work_mem hs
    · cases h
      exact p.other_mem hs
  | false =>
    rw [upgradeSidecarContainer_cold hs hpres] at h
    split_ifs at h
    cases h
    simp [podNames_cold hs]

theorem olderSidecar_mem (hs : s.hotUpgrade) (n : String) : olderSidecar s n∈s.podNames := by
  rw [mem_podNames_hot hs]
  by_cases h : (getHotUpgradeContainerName s.name).1=n
  · exact .inr (if_pos h)
  · exact .inl (if_neg h)

theorem olderSidecar_work : olderSidecar s (p.work s)=p.other s := by
  unfold olderSidecar
  rcases p.work_other_cases s with ⟨hw,ho⟩ | ⟨hw,ho⟩
  · rw [hw,ho,if_pos rfl]
  · rw [hw,ho,if_neg (fst_ne_snd _ _)]

theorem olderSidecar_other : olderSidecar s (p.other s)=p.work s := by
  unfold olderSidecar
  rcases p.work_other_cases s with ⟨hw,ho⟩ | ⟨hw,ho⟩
  · rw [hw,ho,if_neg (fst_ne_snd _ _)]
  · rw [hw,ho,if_pos rfl]

variable (acc : Pod × List String)

@[simp] theorem containerNames_upgradeOne : (upgradeOne env set acc s).1.containerNames=acc.1.containerNames := by
  unfold upgradeOne
  cases upgradeSidecarContainer env set s acc.1 with
  | none => rfl
  | some c =>
    cases hs : s.hotUpgrade with
    | true => exact containerNames_updateContainerInPod c acc.1
    | false => exact containerNames_updateContainerInPod c acc.1

theorem samePair_upgradeOne (hs : s.hotUpgrade) (hst : s.Apart t) (acc : Pod × List String)
    (hpres : ∀ n∈t.podNames,n∈acc.1.containerNames) : SamePair s acc.1 (upgradeOne env set acc t).1 := by
  unfold upgradeOne
  cases hc : upgradeSidecarContainer env set t acc.1 with
  | none => exact SamePair.refl s acc.1
  | some c =>
    have hm:=upgradeSidecarContainer_mem hpres hc
    have hne : ∀ n∈s.podNames,n≠c.name := fun n hn h => hst n hn (h ▸ hm)
    have hi : ∀ n∈s.podNames,(updateContainerInPod c acc.1).image n=acc.1.image n :=
      fun n hn => image_updateContainerInPod_of_ne (hne n hn) acc.1
    have hnms:=containerNames_updateContainerInPod c acc.1
    cases ht : t.hotUpgrade with
    | false => exact ⟨⟨rfl,hi,fun _ _ => rfl,fun _ _ => rfl⟩,hnms,rfl,rfl⟩
    | true =>
      have holder : ∀ n∈s.podNames,n≠olderSidecar t c.name :=
        fun n hn h => hst n hn (h ▸ olderSidecar_mem ht c.name)
      refine ⟨⟨?_,hi,?_,?_⟩,hnms,rfl,rfl⟩
      · exact update_of_ne (hst.name_ne hs ht) _ _
      · intro n hn
        exact update_of_ne (hne n hn) _ _
      · intro n hn
        exact (update_of_ne (holder n hn) _ _).trans (update_of_ne (hne n hn) _ _)

/- The sidecar got its new image in the container `new`, which works from now on. -/
structure Renewed (set : SidecarSet) (s : SidecarContainer) (new rest : String) (p q : Pod) : Prop where
  working : q.working s.name=new
  image : q.image new=s.image
  imageRest : q.image rest=p.image rest
  version : q.version new=set.resourceVersion
  versionRest : q.version rest=p.version rest
  versionAlt : q.versionAlt new=p.version rest
  versionAltRest : q.versionAlt rest=set.resourceVersion

theorem renewed_hotUpgradeAnnotations {new rest : String} (hne : rest≠new)
    (holder : olderSidecar s new=rest) (hn : new∈p.containerNames) :
    Renewed set s new rest p (hotUpgradeAnnotations set s new (updateContainerInPod ⟨new,s.image⟩ p)) := by
  unfold hotUpgradeAnnotations
  rw [holder]
  refine ⟨?_,?_,?_,?_,?_,?_,?_⟩
  · exact update_self _ _ _
  · exact image_updateContainerInPod_self (c := ⟨new,s.image⟩) hn
  · exact image_updateContainerInPod_of_ne (c := ⟨new,s.image⟩) hne p
  · exact update_self _ _ _
  · exact update_of_ne hne _ _
  · refine (update_of_ne hne.symm _ _).trans ?_
    refine (update_self _ _ _).trans ?_
    exact update_of_ne hne _ _
  · exact update_self _ _ _

theorem upgradeOne_choice {new rest : String} (hs : s.hotUpgrade) (acc : Pod × List String)
    (hc : upgradeSidecarContainer env set s acc.1 =
      if s.image=acc.1.image rest then none else some ⟨new,s.image⟩)
    (hne : rest≠new) (holder : olderSidecar s new=rest) (hn : new∈acc.1.containerNames) :
    (s.image=acc.1.image rest ∧ (upgradeOne env set acc s).1=acc.1) ∨
      Renewed set s new rest acc.1 (upgradeOne env set acc s).1 := by
  unfold upgradeOne
  rw [hc]
  split_ifs with hi
  · exact .inl ⟨hi,rfl⟩
  · exact .inr (renewed_hotUpgradeAnnotations hne holder hn)

/-- A turn changes nothing when the container that is not chosen has the image of the spec, and
renews the chosen one otherwise. -/
theorem upgradeOne_hot (env : Externals) (set : SidecarSet) (hs : s.hotUpgrade) (acc : Pod × List String)
    (hpres : ∀ n∈s.podNames,n∈acc.1.containerNames) :
    ∃ new rest, ((upgradesWorking env set s acc.1 ∧ new=acc.1.work s ∧ rest=acc.1.other s) ∨
        (upgradesWorking env set s acc.1=false ∧ new=acc.1.other s ∧ rest=acc.1.work s)) ∧
      ((s.image=acc.1.image rest ∧ (upgradeOne env set acc s).1=acc.1) ∨
        Renewed set s new rest acc.1 (upgradeOne env set acc s).1) := by
  have hc : upgradeSidecarContainer env set s acc.1=_ := upgradeSidecarContainer_hot hs hpres
  cases hup : upgradesWorking env set s acc.1 with
  | true =>
    rw [hup,if_pos rfl] at hc
    exact ⟨acc.1.work s,acc.1.other s,.inl ⟨rfl,rfl,rfl⟩,
      upgradeOne_choice hs acc hc (acc.1.other_ne_work s) olderSidecar_work (hpres _ (acc.1.work_mem hs))⟩
  | false =>
    rw [hup,if_neg Bool.false_ne_true] at hc
    exact ⟨acc.1.other s,acc.1.work s,.inr ⟨rfl,rfl,rfl⟩,
      upgradeOne_choice hs acc hc (acc.1.other_ne_work s).symm olderSidecar_other (hpres _ (acc.1.other_mem hs))⟩

def emptied (s : SidecarContainer) (pod : Pod) : Pod :=
  {updateContainerInPod ⟨pod.other s,s.hotUpgradeEmptyImage⟩ pod with
    version := update pod.version (pod.other s) "0"
    versionAlt := update pod.versionAlt (pod.work s) "0" }

theorem flipOne_cases (hpres : ∀ n∈s.podNames,n∈acc.1.containerNames) :
    (flipOne acc s).1=acc.1 ∨ (s.hotUpgrade ∧ (flipOne acc s).1=emptied s acc.1) := by
  unfold flipOne
  cases hs : s.hotUpgrade with
  | false => exact .inl rfl
  | true =>
    by_cases hi : acc.1.image (acc.1.other s)=s.hotUpgradeEmptyImage
    · exact .inl (congrArg Prod.fst (if_pos hi))
    · have hn : (acc.1.container (acc.1.other s)).name=acc.1.other s :=
        Pod.container_name (hpres _ (acc.1.other_mem hs))
      refine .inr ⟨rfl,(congrArg Prod.fst (if_neg hi)).trans ?_⟩
      unfold emptied
      rw [← hn]
      rfl

theorem containerNames_emptied : (emptied s p).containerNames=p.containerNames :=
  containerNames_updateContainerInPod ⟨p.other s,s.hotUpgradeEmptyImage⟩ p

theorem image_emptied_of_ne {n : String} (hn : n≠p.other s) : (emptied s p).image n=p.image n :=
  image_updateContainerInPod_of_ne (c := ⟨p.other s,s.hotUpgradeEmptyImage⟩) hn p

theorem containerNames_flipOne (hpres : ∀ n∈s.podNames,n∈acc.1.containerNames) :
    (flipOne acc s).1.containerNames=acc.1.containerNames := by
  rcases flipOne_cases acc hpres with h | ⟨-,h⟩
  · rw [h]
  · rw [h,containerNames_emptied]

theorem working_flipOne (hpres : ∀ n∈s.podNames,n∈acc.1.containerNames) :
    (flipOne acc s).1.working=acc.1.working := by
  rcases flipOne_cases acc hpres with h | ⟨-,h⟩
  · rw [h]
  · rw [h]
    rfl

theorem Pod.work_ne_other (pod : Pod) (hs : s.hotUpgrade) (ht : t.hotUpgrade) : pod.work s≠pod.other t := by
  intro h
  have hn:=name_eq_of_mem_podNames hs ht (pod.work_mem hs) (h ▸ pod.other_mem ht)
  have ho : pod.other t=pod.other s := by
    unfold Pod.other
    rw [hn]
  exact pod.other_ne_work s (ho.symm.trans h.symm)

theorem image_work_flipOne (hs : s.hotUpgrade) (acc : Pod × List String)
    (hpres : ∀ n∈t.podNames,n∈acc.1.containerNames) :
    (flipOne acc t).1.image (acc.1.work s)=acc.1.image (acc.1.work s) := by
  rcases flipOne_cases acc hpres with h | ⟨ht,h⟩
  · rw [h]
  · rw [h,image_emptied_of_ne (acc.1.work_ne_other hs ht)]

theorem samePair_flipOne (hst : s.Apart t) (acc : Pod × List String)
    (hpres : ∀ n∈t.podNames,n∈acc.1.containerNames) : SamePair s acc.1 (flipOne acc t).1 := by
  rcases flipOne_cases acc hpres with h | ⟨ht,h⟩
  · rw [h]
    exact SamePair.refl s acc.1
  · have hw : ∀ n∈s.podNames,n≠acc.1.work t :=
      fun n hn h => hst n hn (h ▸ acc.1.work_mem ht)
    have ho : ∀ n∈s.podNames,n≠acc.1.other t :=
      fun n hn h => hst n hn (h ▸ acc.1.other_mem ht)
    rw [h]
    refine ⟨⟨rfl,?_,?_,?_⟩,containerNames_emptied,rfl,rfl⟩
    · intro n hn
      exact image_emptied_of_ne (ho n hn)
    · intro n hn
      exact update_of_ne (ho n hn) _ _
    · intro n hn
      exact update_of_ne (hw n hn) _ _

theorem upgrade_keeps (env : Externals) (set : SidecarSet) (p : Pod) :
    (updatePodSidecarContainer env set p).statuses=p.statuses ∧
      (updatePodSidecarContainer env set p).runningAndReady=p.runningAndReady := by
  refine List.foldlRecOn (motive := fun acc : Pod × List String =>
    acc.1.statuses=p.statuses ∧ acc.1.runningAndReady=p.runningAndReady)
    set.containers _ ⟨rfl,rfl⟩ ?_
  intro acc ha s _
  unfold upgradeOne
  cases upgradeSidecarContainer env set s acc.1 with
  | none => exact ha
  | some c =>
    cases s.hotUpgrade with
    | true => exact ha
    | false => exact ha

theorem flip_keeps (set : SidecarSet) (p : Pod) :
    (flipPodSidecarContainerDo set p).statuses=p.statuses ∧
      (flipPodSidecarContainerDo set p).runningAndReady=p.runningAndReady ∧
      (flipPodSidecarContainerDo set p).hash=p.hash := by
  refine List.foldlRecOn (motive := fun acc : Pod × List String => acc.1.statuses=p.statuses ∧
    acc.1.runningAndReady=p.runningAndReady ∧ acc.1.hash=p.hash)
    set.containers _ ⟨rfl,rfl,rfl⟩ ?_
  intro acc ha s _
  unfold flipOne
  dsimp only
  split_ifs <;> exact ha

theorem Layout.present_of_names (h : Layout set p) (hs : s∈set.containers) {q : Pod}
    (hnms : q.containerNames=p.containerNames) : ∀ n∈s.podNames,n∈q.containerNames :=
  fun n hn => hnms ▸ h.present s hs n hn

theorem Layout.loop (h : Layout set p) (hm : s∈set.containers)
    {f : Pod × List String → SidecarContainer → Pod × List String}
    (hn : ∀ t∈set.containers,∀ acc : Pod × List String,
      acc.1.containerNames=p.containerNames → (f acc t).1.containerNames=p.containerNames)
    (hf : ∀ t∈set.containers,s.Apart t → ∀ acc : Pod × List String,
      acc.1.containerNames=p.containerNames → SamePair s acc.1 (f acc t).1) :
    ∃ acc : Pod × List String,acc.1.containerNames=p.containerNames ∧ SamePair s p acc.1 ∧
      SamePair s (f acc s).1 (set.containers.foldl f (p,[])).1 := by
  exact foldl_one_turn f (fun acc => acc.1.containerNames=p.containerNames)
    (fun a b => SamePair s a.1 b.1) (fun a => SamePair.refl s a.1)
    (fun a b c => SamePair.trans a.1 b.1 c.1) (fun _ _ => SidecarContainer.Apart.symm) h.apart hm
    hn hf (s := (p,[])) rfl

theorem SamePair.upgradesWorking {q : Pod} (h : SamePair s p q) (hs : s.hotUpgrade)
    (hnd : p.containerNames.Nodup) (hpres : ∀ n∈s.podNames,n∈p.containerNames) :
    upgradesWorking env set s q=upgradesWorking env set s p := by
  have hr : ∀ n∈s.podNames, Sidecar.isReadyAndConsistent env set q n=Sidecar.isReadyAndConsistent env set p n :=
    fun n hn => h.isReadyAndConsistent hnd hn (hpres n hn)
  unfold Sidecar.upgradesWorking
  rw [h.work,h.other,h.image _ (p.work_mem hs),h.image _ (p.other_mem hs),
    hr _ (p.work_mem hs),hr _ (p.other_mem hs)]

theorem Layout.upgrade_pair (h : Layout set p) (env : Externals) (hm : s∈set.containers) (hs : s.hotUpgrade) :
    ∃ new rest,((upgradesWorking env set s p ∧ new=p.work s ∧ rest=p.other s) ∨
        (upgradesWorking env set s p=false ∧ new=p.other s ∧ rest=p.work s)) ∧
      ((s.image=p.image rest ∧ SameView s p (updatePodSidecarContainer env set p)) ∨
        Renewed set s new rest p (updatePodSidecarContainer env set p)) := by
  have hpres:=h.present s hm
  obtain ⟨acc,hacc,hbef,ha⟩ := h.loop (f := upgradeOne env set) hm
    (fun t _ acc hacc => (containerNames_upgradeOne acc).trans hacc)
    (fun t ht hst acc hacc => samePair_upgradeOne hs hst acc (h.present_of_names ht hacc))
  obtain ⟨new,rest,hch,hturn⟩ :=
    upgradeOne_hot env set hs acc (h.present_of_names hm hacc)
  rw [hbef.upgradesWorking hs h.nodup hpres,hbef.work,hbef.other] at hch
  have hr : rest∈s.podNames := by
    rcases hch with ⟨-,-,rfl⟩ | ⟨-,-,rfl⟩
    · exact p.other_mem hs
    · exact p.work_mem hs
  have hn : new∈s.podNames := by
    rcases hch with ⟨-,rfl,-⟩ | ⟨-,rfl,-⟩
    · exact p.work_mem hs
    · exact p.other_mem hs
  refine ⟨new,rest,hch,?_⟩
  rcases hturn with ⟨hi,hsame⟩ | hren
  · rw [hsame] at ha
    rw [hbef.image rest hr] at hi
    have hview:=hbef.toSameView.trans ha.toSameView
    exact .inl ⟨hi,hview.working,hview.image,hview.version,hview.versionAlt⟩
  · refine .inr ⟨?_,?_,?_,?_,?_,?_,?_⟩
    · exact ha.working.trans hren.working
    · exact (ha.image new hn).trans hren.image
    · exact (ha.image rest hr).trans (hren.imageRest.trans (hbef.image rest hr))
    · exact (ha.version new hn).trans hren.version
    · exact (ha.version rest hr).trans (hren.versionRest.trans (hbef.version rest hr))
    · exact (ha.versionAlt new hn).trans (hren.versionAlt.trans (hbef.version rest hr))
    · exact (ha.versionAlt rest hr).trans hren.versionAltRest

theorem image_emptied_other (ho : p.other s∈p.containerNames) :
    (emptied s p).image (p.other s)=s.hotUpgradeEmptyImage :=
  image_updateContainerInPod_self (c := ⟨p.other s,s.hotUpgradeEmptyImage⟩) ho

theorem SamePair.emptied {q : Pod} (h : SamePair s p q) (hs : s.hotUpgrade)
    (hpres : ∀ n∈s.podNames,n∈p.containerNames) : SameView s (emptied s p) (emptied s q) := by
  have ho:=hpres _ (p.other_mem hs)
  have ho' : q.other s∈q.containerNames := by
    rw [h.other,h.names]
    exact ho
  refine ⟨h.working,?_,?_,?_⟩
  · intro n hn
    by_cases hne : n=p.other s
    · rw [hne,image_emptied_other ho,← h.other,image_emptied_other ho']
    · rw [image_emptied_of_ne hne,image_emptied_of_ne (h.other ▸ hne),h.image n hn]
  · intro n hn
    simp only [Sidecar.emptied,h.other,update_apply,h.version n hn]
  · intro n hn
    simp only [Sidecar.emptied,h.work,update_apply,h.versionAlt n hn]

theorem Layout.flip_pair (h : Layout set p) (hm : s∈set.containers) (hs : s.hotUpgrade) :
    SameView s p (flipPodSidecarContainerDo set p) ∨
      SameView s (emptied s p) (flipPodSidecarContainerDo set p) := by
  obtain ⟨acc,ha,hbef,haft⟩ := h.loop (f := flipOne) hm
    (fun t ht acc ha => (containerNames_flipOne acc (h.present_of_names ht ha)).trans ha)
    (fun t ht hst acc ha => samePair_flipOne hst acc (h.present_of_names ht ha))
  rcases flipOne_cases acc (h.present_of_names hm ha) with hturn | ⟨-,hturn⟩
  · rw [hturn] at haft
    have hview:=hbef.toSameView.trans haft.toSameView
    exact .inl ⟨hview.working,hview.image,hview.version,hview.versionAlt⟩
  · rw [hturn] at haft
    have hview:=(hbef.emptied hs (h.present s hm)).trans haft.toSameView
    exact .inr ⟨hview.working,hview.image,hview.version,hview.versionAlt⟩

theorem Layout.flip_work (h : Layout set p) :
    (flipPodSidecarContainerDo set p).containerNames=p.containerNames ∧
      (flipPodSidecarContainerDo set p).working=p.working ∧
      ∀ s : SidecarContainer,s.hotUpgrade →
        (flipPodSidecarContainerDo set p).image (p.work s)=p.image (p.work s) := by
  have hw : ∀ {a b : Pod} (s : SidecarContainer),b.working=a.working → b.work s=a.work s := by
    intro a b s hab
    unfold Pod.work getPodHotUpgradeContainers
    rw [hab]
  refine foldl_same flipOne (fun acc => acc.1.containerNames=p.containerNames)
    (fun a b => b.1.working=a.1.working ∧ ∀ s : SidecarContainer,s.hotUpgrade=true →
      b.1.image (a.1.work s)=a.1.image (a.1.work s)) ?_ ?_ ?_ (s := (p,[])) rfl
  · exact fun a => ⟨rfl,fun _ _ => rfl⟩
  · intro a b c hab hbc
    refine ⟨hbc.1.trans hab.1,?_⟩
    intro s hs
    have hc:=hbc.2 s hs
    rw [hw s hab.1] at hc
    exact hc.trans (hab.2 s hs)
  · intro t ht acc ha
    have hpres:=h.present_of_names ht ha
    exact ⟨(containerNames_flipOne acc hpres).trans ha,working_flipOne acc hpres,
      fun s hs => image_work_flipOne hs acc hpres⟩

end Kruise.Sidecar
