import Kruise.ContainerRecreateRequest.Reconcile

/-!
# The not-ready key of a request is never left behind

The controller takes the key and the finalizer away only after it has seen the request deleted or
complete, and from then on it sees nothing else; so no later reconcile puts the key back on the
strength of an old copy.
-/

namespace Kruise.ContainerRecreateRequest

open Lib Lib.Transition Util.PodReadiness List Option

variable {req : Request} {w : World}

def CRR.ended (crr : CRR) : Bool := crr.deleting||crr.completionTime.isSome

def Ended (v : Option CRR) : Prop := ∀ crr,v=some crr → crr.ended

def EndedAfter (v v' : Option CRR) : Prop := ∀ crr,v=some crr → crr.ended → Ended v'

def Held (v : Option CRR) : Prop := ∃ crr,v=some crr ∧ unreadyAcquiredKey∈crr.finalizers

/- The pod of the request is there and not being deleted. -/
def Live (req : Request) (v : Option Pod) : Prop :=
  ∃ pod,v=some pod ∧ pod.uid=req.podUID ∧ pod.deleting=false

def Own (req : Request) (v : Option Pod) : Prop :=
  ∃ pod,v=some pod ∧ pod.uid=req.podUID ∧ pod.deleting=false ∧
    containsReadinessGate pod

def Marked (req : Request) (v : Option Pod) : Prop :=
  ∃ pod,v=some pod ∧ pod.uid=req.podUID ∧ pod.deleting=false ∧
    hasKey pod.condition (getReadinessMessage req)

/- Whenever the pod is still there, the cache has seen it and nothing else since. -/
def Seen (req : Request) (pods : Feed (Option Pod)) : Prop :=
  Live req pods.stored → ∀ v∈pods.versions,Own req v

structure Base (req : Request) (w : World) : Prop where
  ended : w.crr.versions.Pairwise EndedAfter
  held : ∀ crr,some crr∈w.crr.versions → crr.ended=false →
    unreadyAcquiredKey∈crr.finalizers → Held w.crr.stored
  marked : Marked req w.pod.stored → Held w.crr.stored
  pods : Live req w.pod.stored → w.pod.versions.Pairwise fun v v' => Own req v → Own req v'
  seen : Marked req w.pod.stored → ∀ v∈w.pod.versions,Own req v

def Ready (req : Request) (w : World) : Option Call → Prop
  | some (.patchStatuses crr pod) =>
    (unreadyAcquiredKey∈crr.finalizers → Held w.crr.stored) ∧
      (containsReadinessGate pod → Seen req w.pod)
  | some (.addFinalizer _) => Seen req w.pod
  | some .addNotReadyKey => Held w.crr.stored ∧ Seen req w.pod
  | some (.removeNotReadyKey ..) => ∀ v∈w.crr.versions,Ended v
  | some (.removeFinalizer ..) =>
    (∀ v∈w.crr.versions,Ended v) ∧ ¬Marked req w.pod.stored
  | _ => True

structure Inv (req : Request) (w : World) : Prop where
  base : Base req w
  ready : Ready req w w.call

variable {v : Option Pod}

theorem Marked.live (h : Marked req v) : Live req v := by
  obtain ⟨pod,hv,hu,hd,-⟩ := h
  exact ⟨pod,hv,hu,hd⟩

theorem endedAfter_refl (v : Option CRR) : EndedAfter v v := by
  rintro crr rfl he crr' ⟨⟩
  exact he

variable {crr : CRR}

theorem held_persist (h : unreadyAcquiredKey∈crr.finalizers) : Held (persist crr) := by
  refine ⟨crr,?_,h⟩
  unfold persist
  rw [if_neg]
  intro hg
  rw [Bool.and_eq_true,List.isEmpty_iff] at hg
  rw [hg.2] at h
  cases h

theorem ended_persist (h : crr.ended) : Ended (persist crr) := by
  intro crr' hc'
  unfold persist at hc'
  split_ifs at hc'
  cases hc'
  exact h

variable {pod : Pod} {call : Option Call}

theorem Ready.mono {w' : World} (h : Ready req w call)
    (hh : Held w.crr.stored → Held w'.crr.stored) (hseen : Seen req w.pod → Seen req w'.pod)
    (he : (∀ v∈w.crr.versions,Ended v) → ∀ v∈w'.crr.versions,Ended v)
    (hmk : Marked req w'.pod.stored → Marked req w.pod.stored) : Ready req w' call := by
  cases call with
  | none => trivial
  | some call =>
    cases call with
    | patchStatuses crr pod => exact ⟨fun hf => hh (h.1 hf),fun hg => hseen (h.2 hg)⟩
    | addFinalizer pod => exact hseen h
    | addNotReadyKey => exact ⟨hh h.1,hseen h.2⟩
    | removeNotReadyKey crr now => exact he h
    | removeFinalizer crr now => exact ⟨he h.1,fun hm => h.2 (hmk hm)⟩
    | _ => trivial

/- A write that leaves the finalizer and does not undo the end of the request. -/
structure Keeps (w : World) (v : Option CRR) : Prop where
  ended : Ended w.crr.stored → Ended v
  held : Held w.crr.stored → Held v

theorem Base.writeCRR {v : Option CRR} (h : Base req w) (hkp : Keeps w v) : Base req (w.writeCRR v call) := by
  have hsto : (w.writeCRR v call).crr.stored=v := Feed.stored_write _ _
  refine ⟨?_,?_,?_,h.pods,h.seen⟩
  · refine Feed.pairwise_write h.ended ?_
    intro u hu crr hcrr he
    exact hkp.ended (Feed.rel_stored endedAfter_refl h.ended u hu crr hcrr he)
  · rw [hsto]
    intro crr hcrr ho hf
    change some crr∈w.crr.versions++[v] at hcrr
    rcases mem_append.mp hcrr with hold | hn
    · exact hkp.held (h.held crr hold ho hf)
    · exact ⟨crr,(mem_singleton.mp hn).symm,hf⟩
  · rw [hsto]
    intro hmk
    exact hkp.held (h.marked hmk)

theorem Ready.writeCRR {v : Option CRR} {call' : Option Call} (h : Ready req w call)
    (hkp : Keeps w v) : Ready req (w.writeCRR v call') call := by
  refine h.mono ?_ id ?_ id
  · intro hh
    exact (Feed.stored_write w.crr v).symm ▸ hkp.held hh
  · intro ha
    exact Feed.forall_versions_write ha (hkp.ended (ha _ w.crr.stored_mem))

theorem keeps_some {crr' : CRR} (hsto : w.crr.stored=some crr) (he : crr.ended → crr'.ended)
    (hh : unreadyAcquiredKey∈crr.finalizers → unreadyAcquiredKey∈crr'.finalizers) : Keeps w (some crr') := by
  refine ⟨?_,?_⟩
  · rintro h c ⟨⟩
    exact he (h crr hsto)
  · rintro ⟨c,hc,hm⟩
    obtain rfl := some.inj (hsto.symm.trans hc)
    exact ⟨crr',rfl,hh hm⟩

theorem Keeps.persist (h : Keeps w (some crr)) : Keeps w (persist crr) := by
  refine ⟨fun he => ended_persist (h.ended he crr rfl),?_⟩
  intro hh
  obtain ⟨c,hc,hm⟩ := h.held hh
  cases hc
  exact held_persist hm

/- A write that leaves the UID and the readiness gates of the pod, and does not undo a deletion. -/
structure Carries (req : Request) (w : World) (v : Option Pod) : Prop where
  live : Live req v → Live req w.pod.stored
  own : Live req v → Own req w.pod.stored → Own req v

/- And puts no mark on the pod of the request. -/
structure Spares (req : Request) (w : World) (v : Option Pod) : Prop extends Carries req w v where
  marked : Marked req v → Marked req w.pod.stored

theorem Seen.write (h : Seen req w.pod) (hcar : Carries req w v) : Seen req (w.pod.write v) := by
  intro hv
  rw [Feed.stored_write] at hv
  have ha:=h (hcar.live hv)
  exact Feed.forall_versions_write ha (hcar.own hv (ha _ w.pod.stored_mem))

theorem pods_write (h : Base req w) (hcar : Carries req w v) :
    Live req (w.pod.write v).stored → (w.pod.write v).versions.Pairwise fun v v' => Own req v → Own req v' := by
  intro hv
  rw [Feed.stored_write] at hv
  have hpods:=h.pods (hcar.live hv)
  refine Feed.pairwise_write hpods ?_
  intro u hu hu_own
  exact hcar.own hv (Feed.rel_stored (fun _ => id) hpods u hu hu_own)

theorem Base.writePod {call : Option Call} (h : Base req w) (hspr : Spares req w v) :
    Base req {w with pod := w.pod.write v,call := call} := by
  refine ⟨h.ended,h.held,?_,pods_write h hspr.toCarries,?_⟩
  · intro hmk
    rw [Feed.stored_write] at hmk
    exact h.marked (hspr.marked hmk)
  · intro hmk
    rw [Feed.stored_write] at hmk
    have ha:=h.seen (hspr.marked hmk)
    exact Feed.forall_versions_write ha (hspr.own hmk.live (ha _ w.pod.stored_mem))

theorem Ready.writePod {call' : Option Call} (h : Ready req w call) (hspr : Spares req w v) :
    Ready req {w with pod := w.pod.write v,call := call'} call := by
  refine h.mono id (fun hseen => hseen.write hspr.toCarries) id ?_
  intro hmk
  rw [Feed.stored_write] at hmk
  exact hspr.marked hmk

theorem Inv.writeCRR {v : Option CRR} (h : Inv req w) (hkp : Keeps w v) : Inv req (w.writeCRR v w.call) :=
  ⟨h.base.writeCRR hkp,h.ready.writeCRR hkp⟩

theorem Inv.writePod (h : Inv req w) (hspr : Spares req w v) : Inv req {w with pod := w.pod.write v} :=
  ⟨h.base.writePod hspr,h.ready.writePod hspr⟩

section

variable {pod' : Pod} (hsto : w.pod.stored=some pod) (huid : pod'.uid=pod.uid)
  (hdel : pod'.deleting=false → pod.deleting=false) (hgates : pod'.readinessGates=pod.readinessGates)
include hsto huid hdel hgates

theorem carries_some : Carries req w (some pod') := by
  refine ⟨?_,?_⟩
  · rintro ⟨p,hp,hu,hd⟩
    cases hp
    exact ⟨pod,hsto,huid ▸ hu,hdel hd⟩
  · rintro ⟨p,hp,hu,hd⟩ ⟨q,hq,-,-,hg⟩
    cases hp
    obtain rfl := some.inj (hsto.symm.trans hq)
    refine ⟨pod',rfl,hu,hd,?_⟩
    unfold containsReadinessGate at hg ⊢
    rw [hgates]
    exact hg

theorem spares_some (hkey : hasKey pod'.condition (getReadinessMessage req) →
      hasKey pod.condition (getReadinessMessage req)) : Spares req w (some pod') := by
  refine ⟨carries_some hsto huid hdel hgates,?_⟩
  rintro ⟨p,hp,hu,hd,hk⟩
  cases hp
  exact ⟨pod,hsto,huid ▸ hu,hdel hd,hkey hk⟩

end

/- Caches that have seen more. -/
theorem Inv.deliver {crrs : Feed (Option CRR)} {pods : Feed (Option Pod)} (h : Inv req w)
    (hc : crrs.stored=w.crr.stored) (hcv : crrs.versions <:+ w.crr.versions)
    (hp : pods.stored=w.pod.stored) (hpv : pods.versions <:+ w.pod.versions) :
    Inv req {w with crr := crrs,pod := pods} := by
  refine ⟨⟨h.base.ended.sublist hcv.sublist,?_,?_,?_,?_⟩,h.ready.mono ?_ ?_ ?_ ?_⟩ <;>
    simp only [Seen,hc,hp]
  · exact fun crr hcrr => h.base.held crr (hcv.subset hcrr)
  · exact h.base.marked
  · exact fun hl => (h.base.pods hl).sublist hpv.sublist
  · exact fun hmk v hv => h.base.seen hmk v (hpv.subset hv)
  · exact id
  · exact fun hseen hl v hv => hseen hl v (hpv.subset hv)
  · exact fun ha v hv => ha v (hcv.subset hv)
  · exact id

theorem ready_acquired (hh : Held w.crr.stored) (hseen : Seen req w.pod) :
    Ready req w (some (acquired req pod)) := by
  unfold acquired
  split_ifs
  · trivial
  · exact ⟨hh,hseen⟩

theorem ready_makeNotReady (hh : unreadyAcquiredKey∈crr.finalizers → Held w.crr.stored)
    (hseen : containsReadinessGate pod → Seen req w.pod) : Ready req w (makeNotReady req crr pod) := by
  unfold makeNotReady acquirePodNotReady
  split_ifs with hu hg hf
  · exact ready_acquired (hh hf) (hseen hg)
  · exact hseen hg
  · trivial
  · trivial

theorem ready_finish {now : Int} : Ready req w (finish req crr now) := by
  unfold finish
  by_cases hd : crr.deleting
  · rw [if_pos hd]
    trivial
  · split_ifs with ha
    · trivial
    · cases req.ttlSecondsAfterFinished with
      | none => trivial
      | some ttl =>
        cases crr.completionTime with
        | none => trivial
        | some completion =>
          dsimp only
          split_ifs <;> trivial

section

variable (h : Base req w)
include h

theorem Base.ready_release {now : Int} (hca : w.crr.cached=some crr)
    (he : crr.ended) : Ready req w (some (releasePodNotReady crr w.pod.cached now)) := by
  have ha : ∀ v∈w.crr.versions,Ended v :=
    fun v hv => Feed.rel_cached endedAfter_refl h.ended v hv crr hca he
  unfold releasePodNotReady
  split_ifs with hpod
  · exact ha
  · refine ⟨ha,fun hmk => hpod ?_⟩
    -- the pod in the cache is that of the request, so the controller does not skip it
    obtain ⟨pod,hpodv,-,hl,hg⟩ := h.seen hmk _ w.pod.cached_mem
    rw [hpodv]
    simp [hl,hg]

theorem Base.seen_of_cached (hca : w.pod.cached=some pod) (hu : pod.uid=req.podUID) (hd : pod.deleting=false)
    (hg : containsReadinessGate pod) : Seen req w.pod := by
  intro hl v hv
  refine Feed.rel_cached (fun _ => id) (h.pods hl) v hv ?_
  exact ⟨pod,hca,hu,hd,hg⟩

theorem Base.ready_reconcile {now : Int} : Ready req w (reconcile req now w.crr.cached w.pod.cached) := by
  unfold reconcile
  cases hcrr : w.crr.cached with
  | none => trivial
  | some crr =>
    dsimp only
    by_cases he : (crr.deleting||crr.completionTime.isSome)
    · split_ifs
      · exact h.ready_release hcrr he
      · exact ready_finish
    · rw [if_neg he]
      have hh : unreadyAcquiredKey∈crr.finalizers → Held w.crr.stored :=
        h.held crr (hcrr ▸ w.crr.cached_mem) (Bool.eq_false_iff.mpr he)
      cases hpod : w.pod.cached with
      | none => trivial
      | some pod =>
        dsimp only
        split_ifs with hg
        · trivial
        · trivial
        · trivial
        · trivial
        all_goals
          rw [Bool.not_eq_true,Bool.or_eq_false_iff,decide_eq_false_iff_not,not_not] at hg
        · exact ⟨hh,h.seen_of_cached hpod hg.2 hg.1⟩
        · exact ready_makeNotReady hh (h.seen_of_cached hpod hg.2 hg.1)

theorem Base.stop : Inv req {w with call := none} :=
  ⟨⟨h.ended,h.held,h.marked,h.pods,h.seen⟩,trivial⟩

theorem Base.mark {condition : Option ReadyCondition} {call : Option Call}
    (hsto : w.pod.stored=some pod) (hh : Held w.crr.stored) (hseen : Seen req w.pod) :
    Base req (w.writePod {pod with condition := condition} call) := by
  have hcar : Carries req w (some {pod with condition := condition}) := carries_some hsto rfl id rfl
  refine ⟨h.ended,h.held,fun _ => hh,pods_write h hcar,?_⟩
  intro hmk
  exact hseen.write hcar hmk.live

theorem Base.release {v : Option CRR} (ha : ∀ u∈w.crr.versions,Ended u)
    (hv : Ended v) (hu : ¬Marked req w.pod.stored) : Base req (w.writeCRR v call) := by
  have ha':=Feed.forall_versions_write ha hv
  refine ⟨?_,?_,fun hmk => absurd hmk hu,h.pods,h.seen⟩
  · refine Feed.pairwise_write h.ended ?_
    intro u _ crr _ _
    exact hv
  · intro crr hcrr ho
    rw [ha' _ hcrr crr rfl] at ho
    cases ho

theorem Base.onCRR {f : CRR → World}
    (hf : ∀ crr,w.crr.stored=some crr → Inv req (f crr)) : Inv req (w.onCRR f) := by
  unfold World.onCRR
  cases hcrr : w.crr.stored with
  | none => exact h.stop
  | some crr => exact hf crr hcrr

theorem Base.onPod {f : Pod → World}
    (hf : ∀ pod,w.pod.stored=some pod → Inv req (f pod)) : Inv req (w.onPod f) := by
  unfold World.onPod
  cases hpod : w.pod.stored with
  | none => exact h.stop
  | some pod => exact hf pod hpod

end

theorem held_decodeInto {copy : CRR} {statuses : Option (List SyncContainerStatus)} (hcrr : w.crr.stored=some crr)
    (hcopy : unreadyAcquiredKey∈copy.finalizers → Held w.crr.stored) (h : unreadyAcquiredKey ∈
      (decodeInto copy {crr with syncContainerStatuses := statuses}).finalizers) :
    Held w.crr.stored := by
  unfold decodeInto at h
  dsimp only at h
  split_ifs at h
  · exact hcopy h
  · exact ⟨crr,hcrr,h⟩

theorem Inv.perform {call : Call} (h : Inv req w) (hcall : w.call=some call) : Inv req (perform req w call) := by
  have hr:=h.ready
  rw [hcall] at hr
  cases call with
  | completeCRR copy now msg =>
    refine h.base.onCRR fun crr hcrr => ?_
    split_ifs
    · refine ⟨h.base.writeCRR (keeps_some hcrr ?_ id),trivial⟩
      intro _
      simp [CRR.ended]
    · exact h.base.stop
  | patchStatuses copy pod =>
    refine h.base.onCRR fun crr hcrr => ?_
    have hkp : Keeps w (some {crr with syncContainerStatuses := some (syncContainerStatuses req pod)}) :=
      keeps_some hcrr id id
    refine ⟨h.base.writeCRR hkp,?_⟩
    have hn : Ready req w (makeNotReady req (decodeInto copy
        {crr with syncContainerStatuses := some (syncContainerStatuses req pod)}) pod) :=
      ready_makeNotReady (held_decodeInto hcrr hr.1) hr.2
    exact hn.writeCRR hkp
  | addFinalizer pod =>
    refine h.base.onCRR fun crr hcrr => ?_
    split_ifs
    · exact h.base.stop
    · refine ⟨h.base.writeCRR (keeps_some hcrr id ?_),ready_acquired ?_ hr⟩
      · exact fun hmem => mem_append_left _ hmem
      · exact ⟨_,Feed.stored_write _ _,mem_append_right _ (mem_singleton_self _)⟩
  | addNotReadyKey =>
    refine h.base.onPod fun pod hpod => ?_
    exact ⟨h.base.mark hpod hr.1 hr.2,trivial⟩
  | patchAcquired =>
    refine h.base.onCRR fun crr hcrr => ?_
    exact ⟨h.base.writeCRR (keeps_some hcrr id id),trivial⟩
  | removeNotReadyKey copy now =>
    refine h.base.onPod fun pod hpod => ?_
    have hk:=hasKey_removeNotReadyKey pod.condition (getReadinessMessage req) (getReadinessMessage req)
    simp only [ne_eq,not_true_eq_false,decide_false,Bool.false_and] at hk
    refine ⟨h.base.writePod (spares_some hpod rfl id rfl ?_),hr,?_⟩
    · intro hmk
      rw [hk] at hmk
      cases hmk
    · rintro ⟨p,hp,-,-,hmk⟩
      change (w.pod.write _).stored=some p at hp
      rw [Feed.stored_write] at hp
      cases hp
      rw [hk] at hmk
      cases hmk
  | removeFinalizer copy now =>
    refine h.base.onCRR fun crr hcrr => ?_
    refine ⟨h.base.release hr.1 (ended_persist ?_) hr.2,ready_finish⟩
    exact hr.1 _ w.crr.stored_mem crr hcrr
  | patchActive =>
    refine h.base.onCRR fun crr hcrr => ?_
    exact ⟨h.base.writeCRR (keeps_some hcrr id id),trivial⟩
  | deleteCRR =>
    refine h.base.onCRR fun crr hcrr => ?_
    refine ⟨h.base.writeCRR (.persist (keeps_some hcrr ?_ id)),trivial⟩
    intro _
    simp [CRR.ended]

/- No reconcile runs, the request does not have the finalizer yet and its pod not the key; the cache
may lag behind. -/
structure Start (req : Request) (w : World) : Prop where
  idle : w.call=none
  unfinalized : ∀ crr,some crr∈w.crr.versions → unreadyAcquiredKey∉crr.finalizers
  ended : w.crr.versions.Pairwise EndedAfter
  unmarked : ¬Marked req w.pod.stored
  pods : Live req w.pod.stored → w.pod.versions.Pairwise fun v v' => Own req v → Own req v'

theorem Start.inv (h : Start req w) : Inv req w := by
  refine ⟨⟨h.ended,?_,fun hm => absurd hm h.unmarked,h.pods,fun hm => absurd hm h.unmarked⟩,?_⟩
  · intro crr hcrr _ hf
    exact absurd hf (h.unfinalized crr hcrr)
  · rw [h.idle]
    trivial

theorem Inv.next {l : Label} {w' : World} (h : Inv req w) (hn : next req w l=some w') : Inv req w' := by
  cases l with
  | deliverCRR =>
    cases hn
    exact h.deliver w.crr.stored_deliver w.crr.versions_deliver_suffix rfl (suffix_refl _)
  | deliverPod =>
    cases hn
    exact h.deliver rfl (suffix_refl _) w.pod.stored_deliver w.pod.versions_deliver_suffix
  | reconcile now =>
    simp only [ContainerRecreateRequest.next] at hn
    split_ifs at hn
    cases hn
    exact ⟨⟨h.base.ended,h.base.held,h.base.marked,h.base.pods,h.base.seen⟩,h.base.ready_reconcile⟩
  | call =>
    obtain ⟨call,hcall,rfl⟩ := map_eq_some_iff.mp hn
    exact h.perform hcall
  | crash =>
    cases hn
    exact h.base.stop
  | deleteCRR =>
    obtain ⟨crr,hcrr,rfl⟩ := map_eq_some_iff.mp hn
    exact h.writeCRR (.persist (keeps_some hcrr (fun _ => by simp [CRR.ended]) id))
  | editCRR crr' =>
    obtain ⟨crr,hcrr,hn⟩ := bind_eq_some_iff.mp hn
    split_ifs at hn with he
    cases hn
    refine h.writeCRR (.persist (keeps_some hcrr ?_ he.2.1.mpr))
    unfold CRR.ended
    rw [he.1,Bool.or_eq_true,Bool.or_eq_true]
    exact Or.imp_right he.2.2
  | editPod pod' =>
    obtain ⟨pod,hpod,hn⟩ := bind_eq_some_iff.mp hn
    split_ifs at hn with he
    cases hn
    exact h.writePod (spares_some hpod he.1 (fun hd => he.2.1 ▸ hd) he.2.2.1 fun hk => he.2.2.2 ▸ hk)
  | deletePod =>
    obtain ⟨pod,hpod,rfl⟩ := map_eq_some_iff.mp hn
    exact h.writePod (spares_some hpod rfl nofun rfl id)
  | podGone =>
    obtain ⟨pod,hpod,rfl⟩ := map_eq_some_iff.mp hn
    exact h.writePod ⟨⟨nofun,nofun⟩,nofun⟩
  | createPod pod =>
    simp only [ContainerRecreateRequest.next] at hn
    split_ifs at hn with hnew
    cases hn
    have ho : ¬Live req (some pod) := by
      rintro ⟨p,hp,hu,-⟩
      cases hp
      exact hnew.2.1 hu
    exact h.writePod ⟨⟨fun hl => absurd hl ho,fun hl => absurd hl ho⟩,fun hm => absurd hm.live ho⟩

section

variable {start : World} (hstart : Start req start) (h : Reachable (· = start) (step req) w)
include hstart h

theorem inv_of_reachable : Inv req w := by
  refine h.invariant ?_ fun _ _ _ hs hstep => hs.next hstep
  rintro s rfl
  exact hstart.inv

/-- In every reachable state in which the pod is there, not being deleted and carries the key, the
stored request is there and has the finalizer. -/
theorem notReadyKey_has_finalizer :
    (Marked req w.pod.stored → ∃ crr,w.crr.stored=some crr ∧ unreadyAcquiredKey∈crr.finalizers) ∧
    ((w.crr.stored=none ∨ ∃ crr,w.crr.stored=some crr ∧ unreadyAcquiredKey∉crr.finalizers) →
      ¬Marked req w.pod.stored) := by
  have hi:=inv_of_reachable hstart h
  refine ⟨hi.base.marked,?_⟩
  intro hr hmk
  obtain ⟨crr,hcrr,hf⟩ := hi.base.marked hmk
  rw [hcrr] at hr
  rcases hr with hg | ⟨crr',hcrr',hn⟩
  · cases hg
  · cases hcrr'
    exact hn hf

/-- Where the next call takes the key off the pod or the finalizer off the request, every version of
the request that is stored or still to be seen has ended, and the finalizer goes after the key. -/
theorem release_after_end {now : Int} :
    (w.call=some (.removeNotReadyKey crr now) → ∀ v∈w.crr.versions,Ended v) ∧
      (w.call=some (.removeFinalizer crr now) →
        (∀ v∈w.crr.versions,Ended v) ∧ ¬Marked req w.pod.stored) := by
  constructor <;> intro hcall
  all_goals
    have hr:=(inv_of_reachable hstart h).ready
    rw [hcall] at hr
    exact hr

end

def recreateApp : Request where
  ns := "default"
  name := "recreate"
  podUID := "uid-1"
  creationTimestamp := 0
  containers := ["app"]
  unreadyGracePeriodSeconds := some 3
  activeDeadlineSeconds := none
  ttlSecondsAfterFinished := none

def recreating : CRR := ⟨false,[],true,false,none,.recreating,none, ""⟩

def gatedPod : Pod := ⟨"uid-1",false,[kruisePodReady],none,[]⟩

/- The cache has not seen the request yet. -/
def requested : World := ⟨⟨none,[some recreating]⟩,⟨some gatedPod,[]⟩,none⟩

def markRun : List Label := [.deliverCRR,.reconcile 1,.call,.call,.call,.call]

def releaseRun : List Label :=
  markRun++[.deleteCRR,.deliverCRR,.deliverCRR,.deliverCRR,.deliverCRR,.reconcile 2,.call,
    .call]

theorem start_requested : Start recreateApp requested := by
  refine ⟨rfl,?_,?_,?_,fun _ => pairwise_singleton _ _⟩
  all_goals simp [requested,recreating,gatedPod,Feed.versions,Feed.stored,EndedAfter,Marked,hasKey]

theorem marks_and_releases :
    ∃ w w',Reachable (· = requested) (step recreateApp) w ∧ Marked recreateApp w.pod.stored ∧
      Held w.crr.stored ∧ Reachable (· = requested) (step recreateApp) w' ∧
      w'.crr.stored=none ∧ ¬Marked recreateApp w'.pod.stored := by
  have hm : (runLabels (next recreateApp) markRun requested).map (fun w => w.pod.stored.map
      fun p => (p.uid,p.deleting,hasKey p.condition (getReadinessMessage recreateApp))) =
      some (some ("uid-1",false,true)) := by decide +kernel
  have hrelease : (runLabels (next recreateApp) releaseRun requested).map (fun w => w.crr.stored) =
      some none := by decide +kernel
  obtain ⟨w,hw,hpod⟩ := map_eq_some_iff.mp hm
  obtain ⟨w',hw',hg⟩ := map_eq_some_iff.mp hrelease
  have hi : Reachable (· = requested) (step recreateApp) requested := Reachable.start rfl
  have hr:=reachable_of_runLabels (fun _ _ _ h => h) _ hi hw
  have hr':=reachable_of_runLabels (fun _ _ _ h => h) _ hi hw'
  have hmk : Marked recreateApp w.pod.stored := by
    obtain ⟨pod,hsto,hf⟩ := map_eq_some_iff.mp hpod
    simp only [Prod.mk.injEq] at hf
    exact ⟨pod,hsto,hf⟩
  exact ⟨w,w',hr,hmk,(notReadyKey_has_finalizer start_requested hr).1 hmk,hr',
    hg,(notReadyKey_has_finalizer start_requested hr').2 (.inl hg)⟩

theorem released_after_end : ∃ (w : World) (crr : CRR),w.call=some (.removeFinalizer crr 2) ∧
    (∀ v∈w.crr.versions,Ended v) ∧ ¬Marked recreateApp w.pod.stored := by
  obtain ⟨w,crr,hw,hcall⟩ : ∃ (w : World) (crr : CRR),
      runLabels (next recreateApp) (releaseRun.take 13) requested=some w ∧
        w.call=some (.removeFinalizer crr 2) := ⟨_,_,rfl,rfl⟩
  have hi : Reachable (· = requested) (step recreateApp) requested := Reachable.start rfl
  have hr:=reachable_of_runLabels (fun _ _ _ h => h) _ hi hw
  exact ⟨w,crr,hcall,(release_after_end start_requested hr).2 hcall⟩

end Kruise.ContainerRecreateRequest
