import Kruise.Sidecar.Protocol

/-!
# A hot upgrade never interrupts the sidecar

Over a whole run the working container has an image of the spec, never the empty one, and the
version annotations of a pair mirror each other.
-/

namespace Kruise.Sidecar

open Lib.Transition Lib.Keyed List

def PlainImage (env : Externals) (s : SidecarContainer) (image : String) : Prop :=
  env.isImageDigest image=false ∧ image≠s.hotUpgradeEmptyImage

/- Images of the spec are tags other than the empty image, a flip was decided on the pod as it is,
and the kubelet reports every container and calls the pod ready only when all of them are. -/
def Regular (env : Externals) (w : World) : Label → Prop
  | .changeImages image _ =>
    ∀ s∈w.set.containers,s.hotUpgrade → PlainImage env s (image s.name)
  | .upgrade _ => True
  | .flip checked => checked
  | .report statuses ready =>
    (statuses.map ContainerStatus.name).Perm w.pod.containerNames ∧
      (ready → ∀ st∈statuses,st.ready)

instance (env : Externals) (w : World) (l : Label) : Decidable (Regular env w l) :=
  match l with
  | .changeImages image _ =>
    inferInstanceAs (Decidable (∀ s∈w.set.containers,s.hotUpgrade →
      (env.isImageDigest (image s.name)=false ∧ image s.name≠s.hotUpgradeEmptyImage)))
  | .upgrade _ => isTrue trivial
  | .flip checked => inferInstanceAs (Decidable (checked))
  | .report statuses ready =>
    inferInstanceAs (Decidable ((statuses.map ContainerStatus.name).Perm w.pod.containerNames ∧
      (ready → ∀ st∈statuses,st.ready)))

def PlainStart (env : Externals) (w : World) : Prop :=
  Injected env w ∧ ∀ s∈w.set.containers,s.hotUpgrade → PlainImage env s s.image

def Crossed (s : SidecarContainer) (pod : Pod) : Prop :=
  ∀ c∈s.podNames,∀ d∈s.podNames,c≠d → pod.versionAlt c=pod.version d

structure PairOk (env : Externals) (s : SidecarContainer) (pod : Pod) : Prop where
  live : PlainImage env s (pod.image (pod.working s.name))
  crossed : Crossed s pod

variable {env : Externals} {set : SidecarSet} {s : SidecarContainer} {p q : Pod}

theorem crossed_of_pair {c d : String} (hpair : ∀ n,n∈s.podNames ↔ n=c ∨ n=d)
    (hcd : p.versionAlt c=p.version d) (hdc : p.versionAlt d=p.version c) : Crossed s p := by
  intro a ha b hb hne
  rcases (hpair a).mp ha with rfl | rfl
  · rcases (hpair b).mp hb with rfl | rfl
    · exact absurd rfl hne
    · exact hcd
  · rcases (hpair b).mp hb with rfl | rfl
    · exact hdc
    · exact absurd rfl hne

theorem PairOk.sameView (h : PairOk env s p) (hview : SameView s p q)
    (hw : p.working s.name∈s.podNames) : PairOk env s q := by
  refine ⟨?_,?_⟩
  · rw [hview.working,hview.image _ hw]
    exact h.live
  · intro c hc d hd hne
    rw [hview.versionAlt c hc,hview.version d hd]
    exact h.crossed c hc d hd hne

theorem PairOk.upgrade (h : PairOk env s p) (hl : Layout set p) (hm : s∈set.containers)
    (hs : s.hotUpgrade) (hpl : PlainImage env s s.image) :
    PairOk env s (updatePodSidecarContainer env set p) := by
  obtain ⟨new,rest,hch,⟨-,hview⟩ | hr⟩ := hl.upgrade_pair env hm hs
  · exact h.sameView hview (hl.working s hm hs)
  · refine ⟨?_,crossed_of_pair (c := new) (d := rest) ?_ ?_ ?_⟩
    · rw [hr.working,hr.image]
      exact hpl
    · intro n
      rcases hch with ⟨-,rfl,rfl⟩ | ⟨-,rfl,rfl⟩
      · exact p.mem_podNames_iff hs
      · rw [p.mem_podNames_iff hs,or_comm]
    · rw [hr.versionAlt,hr.versionRest]
    · rw [hr.versionAltRest,hr.version]

theorem PairOk.emptied (h : PairOk env s p) (hs : s.hotUpgrade)
    (hw : p.working s.name∈s.podNames) : PairOk env s (emptied s p) := by
  have hne:=p.other_ne_work s
  refine ⟨?_,crossed_of_pair (fun _ => p.mem_podNames_iff hs) ?_ ?_⟩
  · change PlainImage env s ((Sidecar.emptied s p).image (p.working s.name))
    rw [image_emptied_of_ne (Pod.work_eq_working hs hw ▸ hne.symm)]
    exact h.live
  · have hver : (Sidecar.emptied s p).version (p.other s) = "0" := Function.update_self _ _ _
    rw [hver]
    exact Function.update_self _ _ _
  · refine (Function.update_of_ne hne _ _).trans ?_
    refine (h.crossed _ (p.other_mem hs) _ (p.work_mem hs) hne).trans ?_
    exact (Function.update_of_ne hne.symm _ _).symm

theorem PairOk.flip (h : PairOk env s p) (hl : Layout set p) (hm : s∈set.containers)
    (hs : s.hotUpgrade) : PairOk env s (flipPodSidecarContainerDo set p) := by
  have hw:=hl.working s hm hs
  rcases hl.flip_pair hm hs with hview | hview
  · exact h.sameView hview hw
  · exact (h.emptied hs hw).sameView hview hw

theorem PairOk.start {w : World} (h : PlainStart env w) (hm : s∈w.set.containers)
    (hs : s.hotUpgrade) : PairOk env s w.pod := by
  have hf:=h.1.firstAnnotations hm hs
  refine ⟨?_,crossed_of_pair (fun _ => mem_podNames_hot hs) ?_ ?_⟩
  · rw [h.1.image_working hm hs]
    exact h.2 s hm hs
  · rw [hf.versionAlt1,hf.version2]
  · rw [hf.versionAlt2,hf.version1]

/-- A working container that is ready and consistent is not the one an upgrade chooses. -/
theorem not_upgradesWorking (hl : p.image (p.work s)≠s.hotUpgradeEmptyImage)
    (hr : isReadyAndConsistent env set p (p.work s)) : upgradesWorking env set s p=false := by
  unfold upgradesWorking
  rw [if_neg hl,hr]
  simp

theorem image_working_upgrade (hlay : Layout set p) (hpair : PairOk env s p)
    (hm : s∈set.containers) (hs : s.hotUpgrade) (hr : isReadyAndConsistent env set p (p.working s.name)) :
    (updatePodSidecarContainer env set p).image (p.working s.name) = p.image (p.working s.name) := by
  have hw:=hlay.working s hm hs
  have hl:=hpair.live.2
  rw [← Pod.work_eq_working hs hw] at hr hl ⊢
  have ho:=not_upgradesWorking hl hr
  obtain ⟨new,rest,hch,⟨-,hview⟩ | hren⟩ := hlay.upgrade_pair env hm hs
  · exact hview.image _ (p.work_mem hs)
  · rcases hch with ⟨hup,-,-⟩ | ⟨-,-,rfl⟩
    · rw [ho] at hup
      cases hup
    · exact hren.imageRest

/- A container with a tag among those asked for makes the recorded image IDs decide. -/
theorem updateCompleted_of_loop {names : List String} {cs : List Container} {c : Container}
    (hc : c∈cs) (hn : c.name∈names) (ht : env.isImageDigest c.image=false)
    (h : isStateConsistentLoop env set p names cs) : isSidecarContainerUpdateCompleted set p names := by
  induction cs with
  | nil => cases hc
  | cons d cs ih =>
    rw [isStateConsistentLoop] at h
    by_cases hd : d.name∈names
    · rw [if_neg (not_not.mpr hd)] at h
      cases hdig : env.isImageDigest d.image with
      | false =>
        rw [hdig] at h
        exact h
      | true =>
        have hcd : c≠d := by
          rintro rfl
          rw [ht] at hdig
          cases hdig
        have hr:=(mem_cons.mp hc).resolve_left hcd
        simp only [hdig,Bool.not_true,Bool.false_eq_true,if_false] at h
        cases hst : findKey ContainerStatus.name d.name p.statuses with
        | none =>
          rw [hst] at h
          cases h
        | some st =>
          simp only [hst] at h
          split_ifs at h
          exact ih hr h
    · rw [if_pos hd] at h
      refine ih ((mem_cons.mp hc).resolve_left ?_) h
      rintro rfl
      exact hd hn

theorem updateCompleted_mono {names : List String} {n : String} (hn : n∈names)
    (h : isSidecarContainerUpdateCompleted set p names) : isSidecarContainerUpdateCompleted set p [n] := by
  unfold isSidecarContainerUpdateCompleted at h ⊢
  rw [all_eq_true] at h ⊢
  intro cs hcs
  by_cases hname : cs.name∈[n]
  · have hm : cs.name∈names := mem_singleton.mp hname ▸ hn
    have hchk:=h cs hcs
    rw [if_pos hm] at hchk
    rw [if_pos hname]
    exact hchk
  · rw [if_neg hname]

structure Reports (pod : Pod) : Prop where
  names : pod.statuses=[] ∨ (pod.statuses.map ContainerStatus.name).Perm pod.containerNames
  ready : pod.runningAndReady → ∀ st∈pod.statuses,st.ready

theorem mem_emptyContainers {n : String} :
    n∈emptyContainers set p ↔ ∃ t∈set.containers,t.hotUpgrade ∧ p.other t=n := by
  constructor
  · intro h
    obtain ⟨t,ht,rfl⟩ := mem_map.mp h
    exact ⟨t,(mem_filter.mp ht).1,(mem_filter.mp ht).2,rfl⟩
  · rintro ⟨t,ht,hh,rfl⟩
    exact mem_map.mpr ⟨t,mem_filter.mpr ⟨ht,hh⟩,rfl⟩

theorem work_notMem_emptyContainers (hs : s.hotUpgrade) : p.work s∉emptyContainers set p := by
  intro h
  obtain ⟨t,-,ht,heq⟩ := mem_emptyContainers.mp h
  exact p.work_ne_other hs ht heq.symm

theorem ready_of_isHotUpgradingReady (hlay : Layout set p) (hr : Reports p)
    (hm : s∈set.containers) (hs : s.hotUpgrade) (hl : p.containers.length=p.statuses.length)
    (h : isHotUpgradingReady set p) : (p.status (p.work s)).ready := by
  have hpres:=hlay.present s hm _ (p.work_mem hs)
  -- the pod has containers, so the kubelet has reported
  have hperm : (p.statuses.map ContainerStatus.name).Perm p.containerNames := by
    refine hr.names.resolve_left ?_
    intro hnil
    rw [hnil,length_nil] at hl
    unfold Pod.containerNames at hpres
    rw [eq_nil_of_length_eq_zero hl] at hpres
    cases hpres
  obtain ⟨st,hst⟩ := findKey_isSome (hperm.mem_iff.mpr hpres)
  obtain ⟨hin,hname⟩ := findKey_some hst
  have hsts : p.status (p.work s)=st := by
    unfold Pod.status
    rw [hst]
    rfl
  rw [hsts]
  rcases Bool.or_eq_true_iff.mp h with hrun | ha
  · exact hr.ready hrun st hin
  · have hchk:=all_eq_true.mp ha st hin
    rcases Bool.or_eq_true_iff.mp hchk with he | hrdy
    · have hn : p.work s∉emptyContainers set p := work_notMem_emptyContainers hs
      rw [← hname] at hn
      exact absurd (of_decide_eq_true he) hn
    · exact hrdy

/-- The pod may be flipped only when every working container is ready and consistent. -/
theorem isReadyAndConsistent_of_canFlip (hl : Layout set p) (hrep : Reports p)
    (hpair : PairOk env s p) (hm : s∈set.containers) (hs : s.hotUpgrade)
    (h : canFlip env set p) : isReadyAndConsistent env set p (p.working s.name) := by
  have hw:=Pod.work_eq_working hs (hl.working s hm hs)
  have hpres:=hl.present s hm _ (p.work_mem hs)
  have ht:=hpair.live.1
  rw [← hw] at ht ⊢
  simp only [canFlip,Bool.and_eq_true] at h
  obtain ⟨⟨-,hcon⟩,hr⟩ := h
  have ha : p.work s ∈ (getSidecarContainersInPod set).filter fun n => n∉emptyContainers set p := by
    refine mem_filter.mpr ⟨mem_flatMap.mpr ⟨s,hm,p.work_mem hs⟩,?_⟩
    exact decide_eq_true (work_notMem_emptyContainers hs)
  unfold isPodStateConsistent at hcon
  split_ifs at hcon with hlen hn
  · exact absurd hn (length_pos_of_mem ha).ne'
  · have hlen':=not_not.mp hlen
    obtain ⟨c,hc⟩ := findKey_isSome hpres
    have hi : p.image (p.work s)=c.image := Pod.image_of_findKey hc
    obtain ⟨hcmem,hcname⟩ := findKey_some hc
    have hd:=updateCompleted_of_loop hcmem (hcname.symm ▸ ha) (hi ▸ ht) hcon
    have hsingle:=updateCompleted_mono ha hd
    have hst:=ready_of_isHotUpgradingReady hl hrep hm hs hlen' hr
    unfold isReadyAndConsistent
    rw [isPodStateConsistent_singleton hl.nodup hpres,hst]
    simp [imageConsistent,ht,hsingle,hlen']

theorem reports_of_eq (h : Reports p) (hst : q.statuses=p.statuses)
    (hr : q.runningAndReady=p.runningAndReady) (hn : q.containerNames=p.containerNames) : Reports q := by
  refine ⟨?_,?_⟩
  · rw [hst,hn]
    exact h.names
  · rw [hst,hr]
    exact h.ready

structure RunInv (env : Externals) (w : World) : Prop where
  layout : Layout w.set w.pod
  plain : ∀ s∈w.set.containers,s.hotUpgrade → PlainImage env s s.image
  pairs : ∀ s∈w.set.containers,s.hotUpgrade → PairOk env s w.pod
  reports : Reports w.pod

theorem RunInv.start {w : World} (h : PlainStart env w) : RunInv env w where
  layout := h.1.layout
  plain := h.2
  pairs _ hm hs := PairOk.start h hm hs
  reports := by
    obtain ⟨hsts,hrdy⟩ := h.1.fresh
    refine ⟨.inl hsts,?_⟩
    intro hr
    rw [hrdy] at hr
    cases hr

theorem RunInv.withImages {w : World} (h : RunInv env w) {image : String → String}
    (hpl : ∀ s∈w.set.containers,s.hotUpgrade → PlainImage env s (image s.name))
    (resourceVersion : String) : RunInv env ⟨w.set.withImages image resourceVersion,w.pod⟩ := by
  refine ⟨h.layout.withImages image resourceVersion,?_,?_,h.reports⟩
  · intro s hm hs
    obtain ⟨t,ht,rfl⟩ := mem_map.mp hm
    exact hpl t ht hs
  · intro s hm hs
    obtain ⟨t,ht,rfl⟩ := mem_map.mp hm
    obtain ⟨hl,hcro⟩ := h.pairs t ht hs
    exact ⟨hl,hcro⟩

theorem RunInv.step {w w' : World} {l : Label} (h : RunInv env w)
    (hstep : Restricted (World.step env) (Regular env) w l w') : RunInv env w' := by
  rcases World.next_cases hstep.1 with ⟨image,rv,rfl,rfl⟩ | ⟨checked,-,rfl⟩ |
    ⟨checked,-,-,rfl⟩ | ⟨statuses,ready,rfl,rfl⟩
  · exact h.withImages hstep.2 rv
  · refine ⟨h.layout.upgrade env,h.plain,?_,?_⟩
    · intro s hm hs
      exact (h.pairs s hm hs).upgrade h.layout hm hs (h.plain s hm hs)
    · obtain ⟨hsts,hr⟩ := upgrade_keeps env w.set w.pod
      exact reports_of_eq h.reports hsts hr containerNames_upgrade
  · refine ⟨h.layout.flip,h.plain,?_,?_⟩
    · intro s hm hs
      exact (h.pairs s hm hs).flip h.layout hm hs
    · obtain ⟨hsts,hr,-⟩ := flip_keeps w.set w.pod
      exact reports_of_eq h.reports hsts hr h.layout.flip_work.1
  · refine ⟨h.layout.report statuses ready,h.plain,?_,.inr hstep.2.1,hstep.2.2⟩
    intro s hm hs
    obtain ⟨hl,hcro⟩ := h.pairs s hm hs
    exact ⟨hl,hcro⟩

/-- In every state of a run the version annotations of a pair are crossed, and neither an upgrade
nor a flip touches a working container that is ready and consistent; a flip finds it so. -/
theorem hotUpgrade_never_interrupts {w : World}
    (h : Reachable (PlainStart env) (Restricted (World.step env) (Regular env)) w)
    (s : SidecarContainer) (hmem : s∈w.set.containers) (hs : s.hotUpgrade) :
    Crossed s w.pod ∧ ∀ (l : Label) (w' : World),Restricted (World.step env) (Regular env) w l w' →
        (∀ checked,l=.upgrade checked → isReadyAndConsistent env w.set w.pod (w.pod.working s.name) →
            w'.pod.image (w.pod.working s.name)=w.pod.image (w.pod.working s.name)) ∧
        (∀ checked,l=.flip checked → w'.pod.working s.name=w.pod.working s.name ∧
            w'.pod.image (w.pod.working s.name)=w.pod.image (w.pod.working s.name) ∧
            isReadyAndConsistent env w.set w.pod (w.pod.working s.name)) := by
  have hi : RunInv env w :=
    h.invariant (fun _ hw => RunInv.start hw) fun _ _ _ hw hstep => hw.step hstep
  have hpair:=hi.pairs s hmem hs
  have hworki:=hi.layout.working s hmem hs
  refine ⟨hpair.crossed,?_⟩
  intro l w' hstep
  rcases World.next_cases hstep.1 with ⟨image,rv,rfl,rfl⟩ | ⟨checked,rfl,rfl⟩ |
    ⟨checked,rfl,hcan,rfl⟩ | ⟨statuses,ready,rfl,rfl⟩
  · exact ⟨fun _ hl => (by cases hl),fun _ hl => (by cases hl)⟩
  · refine ⟨?_,fun _ hl => (by cases hl)⟩
    intro _ _ hr
    exact image_working_upgrade hi.layout hpair hmem hs hr
  · refine ⟨fun _ hl => (by cases hl),?_⟩
    intro _ _
    obtain ⟨-,hk,himg⟩ := hi.layout.flip_work
    have hwork:=himg s hs
    rw [Pod.work_eq_working hs hworki] at hwork
    exact ⟨congrFun hk s.name,hwork,
      isReadyAndConsistent_of_canFlip hi.layout hi.reports hpair hmem hs (hcan hstep.2)⟩
  · exact ⟨fun _ hl => (by cases hl),fun _ hl => (by cases hl)⟩

def upgradingRun : List Label :=
  [meshReport true "empty" "id-0",.changeImages (fun _ => "v2") "2",.upgrade true,
    meshReport true "v2" "id-2"]

theorem mesh_flip_keeps_working :
    ∃ w w' : World,Reachable (PlainStart tagImages) (Restricted (World.step tagImages) (Regular tagImages)) w ∧
      World.step tagImages w (.flip true) w' ∧ w.pod.working "mesh" = "mesh-2" ∧
      w'.pod.image "mesh-2" = w.pod.image "mesh-2" ∧
      isReadyAndConsistent tagImages w.set w.pod "mesh-2" = true := by
  have hsta : PlainStart tagImages meshStart := by
    refine ⟨meshStart_injected,?_⟩
    intro s hm _
    rw [mem_singleton.mp hm]
    exact ⟨rfl,by decide⟩
  have hrun : (runLabels (restrict (World.next tagImages) (Regular tagImages)) upgradingRun
      meshStart).map (fun w => (w.set.containers,w.pod.working "mesh", canFlip tagImages w.set w.pod)) =
      some ([⟨"mesh", "v2",true, "empty",.beforeAppContainer⟩], "mesh-2",true) := by
    decide +kernel
  obtain ⟨w,hw,hview⟩ := Option.map_eq_some_iff.mp hrun
  simp only [Prod.mk.injEq] at hview
  obtain ⟨hset,hwork,hcan⟩ := hview
  have hr : Reachable (PlainStart tagImages) (Restricted (World.step tagImages) (Regular tagImages)) w :=
    reachable_of_restrict (fun _ _ _ hs => hs) upgradingRun (.start hsta) hw
  have hstep : World.step tagImages w (.flip true) ⟨w.set,flipPodSidecarContainerDo w.set w.pod⟩ := by
    simp [World.step,World.next,hcan]
  have hf:=((hotUpgrade_never_interrupts hr
    ⟨"mesh", "v2",true, "empty",.beforeAppContainer⟩ (hset ▸ mem_singleton.mpr rfl) rfl).2
    (.flip true) _ ⟨hstep,rfl⟩).2 true rfl
  rw [hwork] at hf
  exact ⟨w,_,hr,hstep,hwork,hf.2.1,hf.2.2⟩

end Kruise.Sidecar
