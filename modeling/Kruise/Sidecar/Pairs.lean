import Kruise.Sidecar.HotUpgrade

/-!
# The pair of containers of one hot-upgrade sidecar

Its names, the working container and the other one, and when two pods agree on a pair.
-/

namespace Kruise.Sidecar

open Lib.Keyed

theorem fst_ne_snd (a b : String) : (getHotUpgradeContainerName a).1≠(getHotUpgradeContainerName b).2 := by
  intro h
  have hl:=congrArg (fun x : String => x.toList.getLast?) h
  simp [getHotUpgradeContainerName,String.toList_append] at hl

theorem fst_injective {a b : String}
    (h : (getHotUpgradeContainerName a).1=(getHotUpgradeContainerName b).1) : a=b :=
  (String.append_left_inj "-1").mp h

theorem snd_injective {a b : String}
    (h : (getHotUpgradeContainerName a).2=(getHotUpgradeContainerName b).2) : a=b :=
  (String.append_left_inj "-2").mp h

variable (pod : Pod) {s : SidecarContainer} {n : String}

theorem mem_podNames_hot (hs : s.hotUpgrade) : n∈s.podNames ↔
      n=(getHotUpgradeContainerName s.name).1 ∨ n=(getHotUpgradeContainerName s.name).2 := by
  simp [SidecarContainer.podNames,hs]

theorem podNames_cold (hs : s.hotUpgrade=false) : s.podNames=[s.name] := by
  simp [SidecarContainer.podNames,hs]

theorem podNames_nodup (s : SidecarContainer) : s.podNames.Nodup := by
  unfold SidecarContainer.podNames
  split_ifs with hs
  · simpa using fst_ne_snd s.name s.name
  · exact List.nodup_singleton _

variable {t : SidecarContainer}

theorem name_eq_of_mem_podNames (hs : s.hotUpgrade) (ht : t.hotUpgrade)
    (hns : n∈s.podNames) (hnt : n∈t.podNames) : s.name=t.name := by
  rcases (mem_podNames_hot hs).mp hns with rfl | rfl
  · rcases (mem_podNames_hot ht).mp hnt with h | h
    · exact fst_injective h
    · exact absurd h (fst_ne_snd s.name t.name)
  · rcases (mem_podNames_hot ht).mp hnt with h | h
    · exact absurd h.symm (fst_ne_snd t.name s.name)
    · exact snd_injective h

def SidecarContainer.Apart (s t : SidecarContainer) : Prop := ∀ n∈s.podNames,n∉t.podNames

theorem SidecarContainer.Apart.symm (h : s.Apart t) : t.Apart s :=
  fun n hn hs => h n hs hn

theorem SidecarContainer.Apart.name_ne (h : s.Apart t) (hs : s.hotUpgrade)
    (ht : t.hotUpgrade) : s.name≠t.name := by
  intro hn
  refine h _ ((mem_podNames_hot hs).mpr (.inl rfl)) ((mem_podNames_hot ht).mpr (.inl ?_))
  rw [hn]

def Pod.work (pod : Pod) (s : SidecarContainer) : String :=
  (getPodHotUpgradeContainers s.name pod).1

def Pod.other (pod : Pod) (s : SidecarContainer) : String :=
  (getPodHotUpgradeContainers s.name pod).2

theorem Pod.work_other_cases (s : SidecarContainer) :
    (pod.work s=(getHotUpgradeContainerName s.name).1 ∧ pod.other s=(getHotUpgradeContainerName s.name).2) ∨
      (pod.work s=(getHotUpgradeContainerName s.name).2 ∧ pod.other s=(getHotUpgradeContainerName s.name).1) := by
  unfold Pod.work Pod.other getPodHotUpgradeContainers
  by_cases h : pod.working s.name=(getHotUpgradeContainerName s.name).1
  · rw [if_pos h]
    exact .inl ⟨rfl,rfl⟩
  · rw [if_neg h]
    exact .inr ⟨rfl,rfl⟩

theorem Pod.other_ne_work (s : SidecarContainer) : pod.other s≠pod.work s := by
  rcases pod.work_other_cases s with ⟨hw,ho⟩ | ⟨hw,ho⟩
  · rw [hw,ho]
    exact (fst_ne_snd _ _).symm
  · rw [hw,ho]
    exact fst_ne_snd _ _

theorem Pod.mem_podNames_iff (hs : s.hotUpgrade) : n∈s.podNames ↔ n=pod.work s ∨ n=pod.other s := by
  rw [mem_podNames_hot hs]
  rcases pod.work_other_cases s with ⟨hw,ho⟩ | ⟨hw,ho⟩
  · rw [hw,ho]
  · rw [hw,ho,or_comm]

theorem Pod.work_mem (hs : s.hotUpgrade) :
    pod.work s∈s.podNames := (pod.mem_podNames_iff hs).mpr (.inl rfl)

theorem Pod.other_mem (hs : s.hotUpgrade) :
    pod.other s∈s.podNames := (pod.mem_podNames_iff hs).mpr (.inr rfl)

variable {pod}

theorem Pod.work_eq_working (hs : s.hotUpgrade) (h : pod.working s.name∈s.podNames) :
    pod.work s=pod.working s.name := by
  unfold Pod.work getPodHotUpgradeContainers
  rcases (mem_podNames_hot hs).mp h with h1 | h2
  · rw [if_pos h1,h1]
  · rw [if_neg ?_,h2]
    rw [h2]
    exact (fst_ne_snd _ _).symm

theorem Pod.container_name (h : n∈pod.containerNames) : (pod.container n).name=n := by
  obtain ⟨c,hc⟩ := findKey_isSome h
  unfold Pod.container
  rw [hc]
  exact (findKey_some hc).2

@[simp] theorem containerNames_updateContainerInPod (c : Container) (pod : Pod) :
    (updateContainerInPod c pod).containerNames=pod.containerNames :=
  map_key_replaceKey Container.name c pod.containers

variable {c : Container}

theorem image_updateContainerInPod_self (h : c.name∈pod.containerNames) :
    (updateContainerInPod c pod).image c.name=c.image := by
  unfold Pod.image Pod.container updateContainerInPod
  rw [findKey_replaceKey_self h]
  rfl

theorem image_updateContainerInPod_of_ne (hn : n≠c.name) (pod : Pod) :
    (updateContainerInPod c pod).image n=pod.image n := by
  unfold Pod.image Pod.container updateContainerInPod
  rw [findKey_replaceKey_of_ne hn]

structure SameView (s : SidecarContainer) (p q : Pod) : Prop where
  working : q.working s.name=p.working s.name
  image : ∀ n∈s.podNames,q.image n=p.image n
  version : ∀ n∈s.podNames,q.version n=p.version n
  versionAlt : ∀ n∈s.podNames,q.versionAlt n=p.versionAlt n

structure SamePair (s : SidecarContainer) (p q : Pod) : Prop extends SameView s p q where
  names : q.containerNames=p.containerNames
  statuses : q.statuses=p.statuses
  lastImageIDs : q.lastImageIDs=p.lastImageIDs

theorem SameView.refl (s : SidecarContainer) (p : Pod) : SameView s p p :=
  ⟨rfl,fun _ _ => rfl,fun _ _ => rfl,fun _ _ => rfl⟩

theorem SameView.trans {p q r : Pod} (h : SameView s p q) (h' : SameView s q r) : SameView s p r where
  working := h'.working.trans h.working
  image n hn := (h'.image n hn).trans (h.image n hn)
  version n hn := (h'.version n hn).trans (h.version n hn)
  versionAlt n hn := (h'.versionAlt n hn).trans (h.versionAlt n hn)

theorem SamePair.refl (s : SidecarContainer) (p : Pod) : SamePair s p p :=
  ⟨SameView.refl s p,rfl,rfl,rfl⟩

theorem SamePair.trans (p q r : Pod) (h : SamePair s p q) (h' : SamePair s q r) : SamePair s p r where
  toSameView := h.toSameView.trans h'.toSameView
  names := h'.names.trans h.names
  statuses := h'.statuses.trans h.statuses
  lastImageIDs := h'.lastImageIDs.trans h.lastImageIDs

variable {p q : Pod}

theorem SameView.containers (h : SameView s p q) :
    getPodHotUpgradeContainers s.name q=getPodHotUpgradeContainers s.name p := by
  unfold getPodHotUpgradeContainers
  rw [h.working]

theorem SameView.work (h : SameView s p q) : q.work s=p.work s := congrArg Prod.fst h.containers

theorem SameView.other (h : SameView s p q) : q.other s=p.other s := congrArg Prod.snd h.containers

/- What `isPodStateConsistent` asks of a single container. -/
def imageConsistent (env : Externals) (set : SidecarSet) (pod : Pod) (n : String) : Bool :=
  if !env.isImageDigest (pod.image n) then isSidecarContainerUpdateCompleted set pod [n]
  else match findKey ContainerStatus.name n pod.statuses with
    | none => false
    | some st => env.isContainerImageEqual (pod.image n) st.imageID

theorem isStateConsistentLoop_of_notMem (env : Externals) (set : SidecarSet) (pod : Pod)
    {cs : List Container} (h : n∉cs.map Container.name) : isStateConsistentLoop env set pod [n] cs := by
  induction cs with
  | nil => rfl
  | cons c cs ih =>
    rw [List.map_cons,List.mem_cons,not_or] at h
    have hc : c.name∉[n] := fun hc => h.1 (List.mem_singleton.mp hc).symm
    rw [isStateConsistentLoop,if_pos hc]
    exact ih h.2

theorem isStateConsistentLoop_singleton (env : Externals) (set : SidecarSet) {cs : List Container}
    (hnd : (cs.map Container.name).Nodup) (hc : findKey Container.name n cs=some c) (hi : pod.image n=c.image) :
    isStateConsistentLoop env set pod [n] cs=imageConsistent env set pod n := by
  induction cs with
  | nil => cases hc
  | cons d cs ih =>
    rw [List.map_cons,List.nodup_cons] at hnd
    rw [findKey_cons] at hc
    split_ifs at hc with hd
    · obtain rfl := Option.some.inj hc
      -- the names are distinct, so the rest of the loop has nothing left to compare
      have hr:=isStateConsistentLoop_of_notMem env set pod (hd ▸ hnd.1)
      rw [isStateConsistentLoop,if_neg (by simp [hd]),hr,imageConsistent,hi,hd]
      cases findKey ContainerStatus.name n pod.statuses with
      | none => rfl
      | some st => cases heq : env.isContainerImageEqual d.image st.imageID <;> simp
    · rw [isStateConsistentLoop,if_pos (by simpa using hd)]
      exact ih hnd.2 hc

theorem Pod.image_of_findKey (hc : findKey Container.name n pod.containers=some c) : pod.image n=c.image := by
  unfold Pod.image Pod.container
  rw [hc]
  rfl

variable {set : SidecarSet} {env : Externals}

theorem isPodStateConsistent_singleton (hnd : pod.containerNames.Nodup) (hn : n∈pod.containerNames) :
    isPodStateConsistent env set pod [n] =
      (decide (pod.containers.length=pod.statuses.length)&&imageConsistent env set pod n) := by
  obtain ⟨c,hc⟩ := findKey_isSome hn
  unfold isPodStateConsistent
  by_cases hl : pod.containers.length=pod.statuses.length
  · have hloop:=isStateConsistentLoop_singleton env set hnd hc (Pod.image_of_findKey hc)
    simp [hl,hloop]
  · simp [hl]

theorem imageConsistent_congr (hst : q.statuses=p.statuses)
    (hl : q.lastImageIDs=p.lastImageIDs) (hi : q.image n=p.image n) :
    imageConsistent env set q n=imageConsistent env set p n := by
  have hd : isSidecarContainerUpdateCompleted set q [n] = isSidecarContainerUpdateCompleted set p [n] := by
    unfold isSidecarContainerUpdateCompleted
    rw [hst,hl]
    refine congrArg (fun g => p.statuses.all g) (funext fun cs => ?_)
    by_cases hcs : cs.name∈[n]
    · rw [if_pos hcs,if_pos hcs,List.mem_singleton.mp hcs,hi]
    · rw [if_neg hcs,if_neg hcs]
  unfold imageConsistent
  rw [hd,hst,hi]

theorem SamePair.isReadyAndConsistent (h : SamePair s p q) (hnd : p.containerNames.Nodup)
    (hn : n∈s.podNames) (hm : n∈p.containerNames) :
    isReadyAndConsistent env set q n=isReadyAndConsistent env set p n := by
  have hl : q.containers.length=p.containers.length := by
    have hnms:=congrArg List.length h.names
    simpa [Pod.containerNames] using hnms
  have hsts : q.status n=p.status n := by
    unfold Pod.status
    rw [h.statuses]
  unfold Sidecar.isReadyAndConsistent
  rw [isPodStateConsistent_singleton hnd hm,
    isPodStateConsistent_singleton (h.names ▸ hnd) (h.names ▸ hm),hsts,hl,h.statuses,
    imageConsistent_congr h.statuses h.lastImageIDs (h.image n hn)]

end Kruise.Sidecar
