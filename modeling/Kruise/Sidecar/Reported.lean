import Kruise.Sidecar.Protocol

/-!
# What a pod's recorded hash says about the sidecars that run

The upgrade records the hash whether or not it changed a container (`sidecarset_processor.go`
553-610), and compares the image of the spec with that of the container that is *not* chosen
(`sidecarset_control.go` 44-61). When the working container is chosen because it is not ready and
the other one is, a rollback to the image of the other one changes nothing and is recorded as
done.
-/

namespace Kruise.Sidecar

open Lib.Transition Lib.Keyed

/- The working container would be upgraded, the other one has the image of the spec already, and the
working one does not. -/
def missesRollback (env : Externals) (set : SidecarSet) (pod : Pod) (s : SidecarContainer) : Bool :=
  s.hotUpgrade&&upgradesWorking env set s pod&&pod.image (pod.other s)=s.image &&
    pod.image (pod.work s)≠s.image

def SeesRollbacks (env : Externals) (w : World) : Label → Prop
  | .upgrade _ => ∀ s∈w.set.containers,missesRollback env w.set w.pod s=false
  | _ => True

instance (env : Externals) (w : World) (l : Label) : Decidable (SeesRollbacks env w l) :=
  match l with
  | .upgrade _ =>
    inferInstanceAs (Decidable (∀ s∈w.set.containers,missesRollback env w.set w.pod s=false))
  | .changeImages _ _ => isTrue trivial
  | .flip _ => isTrue trivial
  | .report _ _ => isTrue trivial

def KeepsTo (specs : Set (List SidecarContainer)) (w : World) : Label → Prop
  | .changeImages image resourceVersion =>
    (w.set.withImages image resourceVersion).containers∈specs
  | _ => True

/- The recorded hash is that of containers of a spec whose images the working containers have. -/
def Truthful (env : Externals) (specs : Set (List SidecarContainer)) (setName : String) (pod : Pod) : Prop :=
  ∃ containers∈specs,pod.hash setName=env.sidecarSetHash containers ∧
    ∀ s∈containers,s.hotUpgrade →
      pod.working s.name∈s.podNames ∧ pod.image (pod.working s.name)=s.image

variable {env : Externals} {specs : Set (List SidecarContainer)} {set : SidecarSet}
  {s : SidecarContainer} {p : Pod}

theorem Layout.upgrade_image (h : Layout set p) (hmem : s∈set.containers)
    (hs : s.hotUpgrade) (hsees : missesRollback env set p s=false) :
    (updatePodSidecarContainer env set p).image ((updatePodSidecarContainer env set p).working s.name)=s.image := by
  have hw:=Pod.work_eq_working hs (h.working s hmem hs)
  obtain ⟨new,rest,hch,⟨hi,hview⟩ | hr⟩ := h.upgrade_pair env hmem hs
  · rw [hview.working,hview.image _ (h.working s hmem hs),← hw]
    rcases hch with ⟨hup,-,rfl⟩ | ⟨-,-,rfl⟩
    · by_contra hne
      have hm : missesRollback env set p s := by
        simp [missesRollback,hs,hup,← hi,hne]
      rw [hm] at hsees
      cases hsees
    · exact hi.symm
  · rw [hr.working,hr.image]

theorem Truthful.upgrade (h : Layout set p) (hspec : set.containers∈specs)
    (hsees : ∀ s∈set.containers,missesRollback env set p s=false) :
    Truthful env specs set.name (updatePodSidecarContainer env set p) := by
  refine ⟨set.containers,hspec,?_,?_⟩
  · exact Function.update_self _ _ _
  · intro s hm hs
    exact ⟨(h.upgrade env).working s hm hs,h.upgrade_image hm hs (hsees s hm)⟩

theorem Truthful.flip {setName : String} (h : Truthful env specs setName p)
    (hl : Layout set p) : Truthful env specs setName (flipPodSidecarContainerDo set p) := by
  obtain ⟨containers,hspec,hh,hr⟩ := h
  obtain ⟨-,hw,hi⟩ := hl.flip_work
  have hkp:=congrFun (flip_keeps set p).2.2 setName
  refine ⟨containers,hspec,hkp.trans hh,?_⟩
  intro s hm hs
  obtain ⟨hpair,hs_image⟩ := hr s hm hs
  have hk:=hi s hs
  rw [Pod.work_eq_working hs hpair] at hk
  rw [hw]
  exact ⟨hpair,hk.trans hs_image⟩

structure ReportInv (env : Externals) (specs : Set (List SidecarContainer)) (w : World) : Prop where
  layout : Layout w.set w.pod
  spec : w.set.containers∈specs
  truthful : Truthful env specs w.set.name w.pod

theorem ReportInv.start {w : World} (h : Injected env w ∧ w.set.containers∈specs) : ReportInv env specs w := by
  refine ⟨h.1.layout,h.2,w.set.containers,h.2,h.1.hash,?_⟩
  intro s hm hs
  exact ⟨h.1.layout.working s hm hs,h.1.image_working hm hs⟩

theorem ReportInv.step {w w' : World} {l : Label} (h : ReportInv env specs w)
    (hstep : World.step env w l w') (hsees : SeesRollbacks env w l) (hkp : KeepsTo specs w l) :
    ReportInv env specs w' := by
  have hl:=h.layout.step hstep
  rcases World.next_cases hstep with ⟨image,rv,rfl,rfl⟩ | ⟨checked,rfl,rfl⟩ |
    ⟨checked,-,-,rfl⟩ | ⟨statuses,ready,-,rfl⟩
  · exact ⟨hl,hkp,h.truthful⟩
  · exact ⟨hl,h.spec,Truthful.upgrade h.layout h.spec hsees⟩
  · exact ⟨hl,h.spec,h.truthful.flip h.layout⟩
  · exact ⟨hl,h.spec,h.truthful⟩

/-- In a run that misses no rollback, a pod that records the current hash and has an empty container
in a pair works with the image of the spec. -/
theorem recorded_hash_runs (hhash : Set.InjOn env.sidecarSetHash specs) {w : World}
    (h : Reachable (fun w => Injected env w ∧ w.set.containers∈specs)
      (Restricted (World.step env) fun w l => SeesRollbacks env w l ∧ KeepsTo specs w l) w)
    (s : SidecarContainer) (hmem : s∈w.set.containers) (hs : s.hotUpgrade) :
    w.pod.hash w.set.name=env.getSidecarSetRevision w.set → (∃ n∈s.podNames,w.pod.image n=s.hotUpgradeEmptyImage) →
        w.pod.image (w.pod.working s.name)=s.image := by
  intro hr _
  have hi : ReportInv env specs w := h.invariant (fun _ hw => ReportInv.start hw)
    fun _ _ _ hw hstep => hw.step hstep.1 hstep.2.1 hstep.2.2
  obtain ⟨containers,hspec,hcons,hrun⟩ := hi.truthful
  have heq : containers=w.set.containers :=
    hhash hspec hi.spec (hcons.symm.trans hr)
  exact (hrun s (heq ▸ hmem) hs).2

def rollbackRun : List Label :=
  [meshReport true "empty" "id-0",.changeImages (fun _ => "v2") "2",.upgrade true,
    meshReport false "v2" "id-2",.changeImages (fun _ => "v1") "3",.upgrade true,
    meshReport true "v2" "id-2",.flip true]

/- The containers of the spec, the images of the first container of the pair and of the working one,
and whether the pod records the current hash. -/
def meshView (w : World) : List SidecarContainer × String × String × Bool :=
  (w.set.containers,w.pod.image "mesh-1",w.pod.image (w.pod.working "mesh"),
    w.pod.hash w.set.name=tagImages.getSidecarSetRevision w.set)

/-- The pod records the hash of version `v1` and works with `v2`. -/
theorem rollback_is_missed :
    Function.Injective tagImages.sidecarSetHash ∧
    ∃ (w : World) (s : SidecarContainer),Reachable (Injected tagImages) (World.step tagImages) w ∧
      s∈w.set.containers ∧ s.hotUpgrade ∧
      w.pod.hash w.set.name=tagImages.getSidecarSetRevision w.set ∧
      (∃ n∈s.podNames,w.pod.image n=s.hotUpgradeEmptyImage) ∧
      w.pod.image (w.pod.working s.name)≠s.image := by
  have hr : (runLabels (World.next tagImages) rollbackRun meshStart).map meshView =
      some ([⟨"mesh", "v1",true, "empty",.beforeAppContainer⟩], "empty", "v2",true) := by
    decide +kernel
  obtain ⟨w,hw,hview⟩ := Option.map_eq_some_iff.mp hr
  simp only [meshView,Prod.mk.injEq,decide_eq_true_eq] at hview
  obtain ⟨hset,he,hwork,hh⟩ := hview
  refine ⟨tagImages_injective,w,⟨"mesh", "v1",true, "empty",.beforeAppContainer⟩,
    reachable_of_runLabels (fun _ _ _ hs => hs) rollbackRun (.start meshStart_injected) hw,
    hset ▸ List.mem_singleton.mpr rfl,rfl,hh,⟨"mesh-1",by decide,he⟩,?_⟩
  rw [hwork]
  decide

def forwardRun : List Label :=
  [meshReport true "empty" "id-0",.changeImages (fun _ => "v2") "2",.upgrade true,
    meshReport true "v2" "id-2",.flip true]

instance (w : World) (l : Label) : Decidable (KeepsTo Set.univ w l) :=
  match l with
  | .changeImages _ _ => isTrue trivial
  | .upgrade _ => isTrue trivial
  | .flip _ => isTrue trivial
  | .report _ _ => isTrue trivial

theorem forward_upgrade_runs :
    ∃ w : World,Reachable (fun w => Injected tagImages w ∧ w.set.containers∈Set.univ)
        (Restricted (World.step tagImages) fun w l =>
          SeesRollbacks tagImages w l ∧ KeepsTo Set.univ w l) w ∧
      w.pod.hash w.set.name=tagImages.getSidecarSetRevision w.set ∧
      w.pod.image "mesh-1" = "empty" ∧ w.pod.image (w.pod.working "mesh") = "v2" := by
  have hrun : (runLabels (restrict (World.next tagImages) fun w l =>
      SeesRollbacks tagImages w l ∧ KeepsTo Set.univ w l) forwardRun meshStart).map meshView =
      some ([⟨"mesh", "v2",true, "empty",.beforeAppContainer⟩], "empty", "v2",true) := by
    decide +kernel
  obtain ⟨w,hw,hview⟩ := Option.map_eq_some_iff.mp hrun
  simp only [meshView,Prod.mk.injEq,decide_eq_true_eq] at hview
  obtain ⟨hset,he,-,hh⟩ := hview
  have hr : Reachable (fun w => Injected tagImages w ∧ w.set.containers∈Set.univ)
      (Restricted (World.step tagImages) fun w l =>
        SeesRollbacks tagImages w l ∧ KeepsTo Set.univ w l) w :=
    reachable_of_restrict (fun _ _ _ hs => hs) forwardRun (.start ⟨meshStart_injected,trivial⟩) hw
  refine ⟨w,hr,hh,he,?_⟩
  exact recorded_hash_runs tagImages_injective.injOn hr
    ⟨"mesh", "v2",true, "empty",.beforeAppContainer⟩ (hset ▸ List.mem_singleton.mpr rfl) rfl hh
    ⟨"mesh-1",by decide,he⟩

end Kruise.Sidecar
