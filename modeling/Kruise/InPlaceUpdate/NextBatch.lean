import Kruise.InPlaceUpdate.Batches
import Kruise.Lib.Transition
import Kruise.Lib.Versioned

/-!
# Writers of one pod during an in-place update

`updatePodInPlace`, `updateNextBatch` and `finishGracePeriod`
(`pkg/util/inplaceupdate/inplace_update.go` 185-268, 312-355): a closure reads the pod, patches
what it has read and updates it; a refused update starts it again. The closure of
`updateNextBatch` takes the state from the pod that its caller holds. Every read may give any
version, which is more than a fresh read does.
-/

namespace Kruise.InPlaceUpdate.NextBatch

open Lib.Keyed Lib.Transition Lib.Versioned Option

def revisionLabel : String := "controller-revision-hash"

structure Iteration where
  order : RefMetadata → RefMetadata
  perm : ∀ m,OrderOf (order m) m

def Iteration.asStored : Iteration := ⟨id,fun _ => .refl _⟩

/- What `AdditionalFuncs` do to the labels and annotations. -/
structure AdditionalFuncs where
  labels : Values → Values
  annotations : Values → Values

inductive Request
  | updatePodInPlace (spec : UpdateSpec) (funcs : AdditionalFuncs)
  | updateNextBatch (pod : Pod)
  | finishGracePeriod

def patchSpecToPod (now : Int) (it : Iteration) (pod : Pod) (spec : UpdateSpec) (state : State) : Pod :=
  defaultPatchUpdateSpecToPod now pod (spec.iterating (it.order spec.containerRefMetadata)) state

def removeGrace (pod : Pod) : Pod := {pod with grace := none}

def startUpdate (now : Int) (it : Iteration) (spec : UpdateSpec) (funcs : AdditionalFuncs) (clone : Pod) : Pod :=
  let state:=State.start spec.revision now spec.updateEnvFromMetadata
  let marked : Pod := {clone with
    labels := funcs.labels fun k => if k=revisionLabel then some spec.revision else clone.labels k
    annotations := funcs.annotations clone.annotations
    state := some state}
  if spec.graceSeconds≤0 then removeGrace (patchSpecToPod now it marked spec state)
  else {marked with grace := some spec}

/- `finishGracePeriod` after the spec has been found; `none` is to wait on. -/
def finishGrace (now : Int) (it : Iteration) (spec : UpdateSpec) (state : State) (clone : Pod) : Option Pod :=
  if (clone.labels revisionLabel).getD "" ≠ spec.revision then some (removeGrace clone)
  else if now-state.updateTimestamp<spec.graceSeconds then none
  else some (removeGrace (patchSpecToPod now it clone spec state))

/- What the closure writes over the clone, or that it returns without an update. -/
def Request.closure (now : Int) (it : Iteration) (clone : Pod) : Request → Option Pod
  | .updatePodInPlace spec funcs => some (startUpdate now it spec funcs clone)
  | .updateNextBatch pod =>
    match pod.state with
    | none => none
    | some state =>
      if state.hasNext then some (patchSpecToPod now it clone state.nextSpec state) else none
  | .finishGracePeriod =>
    match clone.grace,clone.state with
    | some spec,some state => finishGrace now it spec state clone
    | _,_ => none

/- A call about to read, or about to write what it has computed from `base`. -/
structure Call where
  request : Request
  writing : Option (Stored Pod × Pod)

structure Started where
  before : Pod
  spec : UpdateSpec

structure World where
  store : Store Pod
  calls : Nat → Option Call
  newest : Option Started

def World.setCall (w : World) (a : Nat) (call : Option Call) : World :=
  {w with calls := Function.update w.calls a call}

/- The update that a request stores over `before`, if it starts one. -/
def Request.started (before : Pod) : Request → Option Started
  | .updatePodInPlace spec _ => some ⟨before,spec⟩
  | _ => none

/- `callNext` is made with a copy of the pod, given by its position. `other` writes everything that
is not part of the in-place update. -/
inductive Label
  | callUpdate (a : Nat) (spec : UpdateSpec) (funcs : AdditionalFuncs)
  | callNext (a i : Nat)
  | callGrace (a : Nat)
  | get (a i : Nat) (now : Int) (it : Iteration)
  | update (a : Nat)
  | fail (a : Nat)
  | other (labels annotations : Values) (statuses : List ContainerStatus)

def World.begin (w : World) (a : Nat) (request : Request) : Option World :=
  match w.calls a with
  | none => some (w.setCall a (some ⟨request,none⟩))
  | some _ => none

def writeOther (labels annotations : Values) (statuses : List ContainerStatus) (pod : Pod) : Pod :=
  {pod with
    labels := fun k => if k=revisionLabel then pod.labels k else labels k
    annotations := annotations
    statuses := statuses}

def next (w : World) : Label → Option World
  | .callUpdate a spec funcs => w.begin a (.updatePodInPlace spec funcs)
  | .callNext a i => (w.store.at i).bind fun pod => w.begin a (.updateNextBatch pod.obj)
  | .callGrace a => w.begin a .finishGracePeriod
  | .get a i now it =>
    match w.calls a,w.store.at i with
    | some ⟨request,none⟩,some base =>
      match request.closure now it base.obj with
      | some pod => some (w.setCall a (some ⟨request,some (base,pod)⟩))
      | none => some (w.setCall a none)
    | _,_ => none
  | .update a =>
    match w.calls a with
    | some ⟨request,some (base,pod)⟩ =>
      match w.store.update base pod with
      | some store =>
        some {w.setCall a none with
          store := store
          newest := (request.started base.obj).or w.newest}
      | none => some (w.setCall a (some ⟨request,none⟩))
    | _ => none
  | .fail a => (w.calls a).map fun _ => w.setCall a none
  | .other labels annotations statuses =>
    some {w with
      store := w.store.put (writeOther labels annotations statuses w.store.current.obj)}

def Init (w : World) : Prop :=
  ∃ pod,w.store=Store.start pod ∧ (∀ a,w.calls a=none) ∧ w.newest=none

def Step (w : World) (l : Label) (w' : World) : Prop := next w l=some w'

/- If the write is going to be accepted, the caller of `updateNextBatch` holds the state of the pod
that its closure has read. -/
def Call.Fresh (store : Store Pod) : Call → Prop
  | ⟨.updateNextBatch pod,some (base,_)⟩ =>
    base.rv=store.current.rv → pod.state=base.obj.state
  | _ => True

def Fresh (w : World) : Label → Prop
  | .update a => ∀ call,w.calls a=some call → call.Fresh w.store
  | _ => True

/- The containers of `rest` are to get what `spec` says. -/
structure PartOf (rest spec : UpdateSpec) : Prop where
  images : ∀ v image,rest.containerImages.lookup v=some image →
    spec.containerImages.lookup v=some image
  metadata : ∀ v m,rest.containerRefMetadata.lookup v=some m →
    spec.containerRefMetadata.lookup v=some m

structure Waits (spec : UpdateSpec) (state : State) : Prop where
  revision : state.revision=spec.revision
  nextSpec : PartOf state.nextSpec spec

def Started.Image (u : Started) (c : Container) : Prop :=
  (∃ b∈u.before.containers,b.name=c.name ∧ b.image=c.image) ∨
    u.spec.containerImages.lookup c.name=some c.image

/- The pod carries the update `u` and nothing of another one: its state, and images that `u` has
found or set. -/
structure Started.Governs (u : Started) (p : Pod) : Prop where
  state : ∃ state,p.state=some state ∧ Waits u.spec state
  images : ∀ c∈p.containers,u.Image c

def Started.Holds (u : Started) (p : Pod) : Prop :=
  u.Governs p ∧ ∀ spec,p.grace=some spec → spec=u.spec

/- What a call is about to write comes from a version that was there. -/
def Call.Computed (store : Store Pod) (call : Call) : Prop :=
  ∀ base out,call.writing=some (base,out) → store.Copy base ∧ ∃ now it,call.request.closure now it base.obj=some out

structure Inv (w : World) : Prop where
  governed : ∀ u,w.newest=some u → u.Holds w.store.current.obj
  calls : ∀ a call,w.calls a=some call → call.Computed w.store

section

variable {spec rest : UpdateSpec} {state : State}

theorem lookup_of_waitingImages (pod : Pod) (names : List String) {v image : String}
    (h : (waitingImages spec names pod.containers).lookup v=some image) :
    spec.containerImages.lookup v=some image := by
  unfold waitingImages at h
  by_cases hv : v∈pod.containers.map Container.name
  · obtain ⟨c,hc,rfl⟩ := List.mem_map.mp hv
    rw [lookup_fill Container.name _ pod.distinct hc] at h
    split_ifs at h
    exact h
  · rw [lookup_fill_of_notMem Container.name _ pod.distinct hv] at h
    cases h

theorem lookup_of_waitingMetadata {ref : RefMetadata} (names : List String) {v : String}
    {m : ObjectMeta} (h : (waitingMetadata ref names).lookup v=some m) : ref.lookup v=some m := by
  have he : (⟨v,m⟩ : RefEntry)∈(waitingMetadata ref names).entries :=
    AList.mem_lookup_iff.mp h
  rw [(waitingMetadata_perm ref names).mem_iff,List.mem_filter] at he
  exact AList.mem_lookup_iff.mpr he.1

theorem PartOf.iterating (h : PartOf rest spec) (it : Iteration) :
    PartOf (rest.iterating (it.order rest.containerRefMetadata)) spec := by
  refine ⟨h.images,?_⟩
  intro v m hm
  have hlk : (it.order rest.containerRefMetadata).lookup v =
      rest.containerRefMetadata.lookup v := AList.perm_lookup (it.perm _)
  exact h.metadata v m (hlk.symm.trans hm)

theorem PartOf.waits (h : PartOf rest spec) (hst : state.revision=spec.revision) (now : Int)
    (pod : Pod) : Waits spec (nextState now pod rest state) := by
  refine ⟨hst,?_,?_⟩
  · intro v image hv
    exact h.images v image (lookup_of_waitingImages pod _ hv)
  · intro v m hv
    exact h.metadata v m (lookup_of_waitingMetadata _ hv)

theorem Started.Image.updateImage {u : Started} {c : Container} (hc : u.Image c)
    (h : PartOf rest u.spec) (names : List String) : u.Image (updateImage rest names c) := by
  unfold InPlaceUpdate.updateImage
  cases hlk : rest.containerImages.lookup c.name with
  | none => exact hc
  | some image =>
    split_ifs
    · exact .inr (h.images c.name image hlk)
    · exact hc

theorem governs_patchSpecToPod {u : Started} {p : Pod} (now : Int) (it : Iteration)
    (hi : ∀ c∈p.containers,u.Image c) (hr : PartOf rest u.spec) (hst : state.revision=u.spec.revision) :
    u.Governs (patchSpecToPod now it p rest state) := by
  have hpart:=hr.iterating it
  refine ⟨⟨_,rfl,hpart.waits hst now _⟩,?_⟩
  intro c hc
  obtain ⟨d,hd,rfl⟩ := List.mem_map.mp hc
  rw [containers_patchMetaData] at hd
  exact (hi d hd).updateImage hpart _

end

section

variable {u : Started} {p q : Pod} {now : Int} {it : Iteration}

theorem governs_removeGrace (h : u.Governs p) : u.Governs (removeGrace p) := ⟨h.state,h.images⟩

theorem holds_startUpdate (spec : UpdateSpec) (funcs : AdditionalFuncs) (clone : Pod) :
    Started.Holds ⟨clone,spec⟩ (startUpdate now it spec funcs clone) := by
  have hi : ∀ c∈clone.containers,Started.Image ⟨clone,spec⟩ c :=
    fun c hc => .inl ⟨c,hc,rfl,rfl⟩
  have hpart : PartOf spec spec := ⟨fun _ _ h => h,fun _ _ h => h⟩
  simp only [startUpdate,Started.Holds]
  split_ifs
  · refine ⟨governs_removeGrace ?_,?_⟩
    · exact governs_patchSpecToPod now it hi hpart rfl
    · rintro g ⟨⟩
  · refine ⟨⟨⟨_,rfl,rfl,?_,?_⟩,hi⟩,?_⟩
    · rintro v image ⟨⟩
    · rintro v m ⟨⟩
    · intro g hg
      exact (some.inj hg).symm

theorem grace_patchSpecToPod {spec g : UpdateSpec} {state : State}
    (h : (patchSpecToPod now it p spec state).grace=some g) : p.grace=some g := by
  have hgr : (p.patchMetaData spec.metaDataPatch).grace=some g := h
  unfold Pod.patchMetaData at hgr
  split at hgr
  · exact hgr
  · split_ifs at hgr
    exact hgr

theorem governs_finishGrace {spec : UpdateSpec} {state : State} (h : u.Governs p)
    (hst : p.state=some state) (hspec : spec=u.spec)
    (hq : finishGrace now it spec state p=some q) : u.Governs q ∧ q.grace=none := by
  unfold finishGrace at hq
  split_ifs at hq
  · cases hq
    exact ⟨governs_removeGrace h,rfl⟩
  · cases hq
    obtain ⟨state',hst',hwt⟩ := h.state
    obtain rfl : state=state' := some.inj (hst.symm.trans hst')
    subst hspec
    exact ⟨governs_removeGrace (governs_patchSpecToPod now it h.images
      ⟨fun _ _ h => h,fun _ _ h => h⟩ hwt.revision),rfl⟩

theorem holds_closure {request : Request} (hu : u.Holds p)
    (hf : ∀ pod,request=.updateNextBatch pod → pod.state=p.state)
    (hkp : request.started p=none) (hq : request.closure now it p=some q) : u.Holds q := by
  obtain ⟨h,hgr⟩ := hu
  cases request with
  | updatePodInPlace spec funcs => cases hkp
  | updateNextBatch pod =>
    obtain ⟨state,hst,hwt⟩ := h.state
    have hpod:=(hf pod rfl).trans hst
    simp only [Request.closure,hpod] at hq
    split_ifs at hq
    cases hq
    refine ⟨governs_patchSpecToPod now it h.images hwt.nextSpec hwt.revision,?_⟩
    intro spec hspec
    exact hgr spec (grace_patchSpecToPod hspec)
  | finishGracePeriod =>
    obtain ⟨state,hst,-⟩ := h.state
    simp only [Request.closure,hst] at hq
    cases hspec : p.grace with
    | none =>
      rw [hspec] at hq
      cases hq
    | some spec =>
      rw [hspec] at hq
      obtain ⟨hgov,hn⟩ := governs_finishGrace h hst (hgr spec hspec) hq
      refine ⟨hgov,?_⟩
      intro g hg
      rw [hn] at hg
      cases hg

end

section

variable {w w' : World}

theorem Inv.setCall (h : Inv w) (a : Nat) {call : Option Call} (hcall : ∀ c,call=some c → c.Computed w.store) :
    Inv (w.setCall a call) := ⟨h.governed,forall_update h.calls hcall⟩

theorem Inv.begin (h : Inv w) {a : Nat} {request : Request} (hw : w.begin a request=some w') : Inv w' := by
  unfold World.begin at hw
  split at hw
  · cases hw
    refine h.setCall a ?_
    rintro _ ⟨⟩ _ _ ⟨⟩
  · cases hw

theorem Inv.put (h : Inv w) {pod : Pod} {newest : Option Started} (hg : ∀ u,newest=some u → u.Holds pod) :
    Inv {w with store := w.store.put pod,newest := newest} := by
  refine ⟨hg,?_⟩
  intro a call ha base out hwr
  obtain ⟨hcopy,hclo⟩ := h.calls a call ha base out hwr
  exact ⟨hcopy.put pod,hclo⟩

theorem update_cases {a : Nat} (hw : next w (.update a)=some w') :
    ∃ request base out,w.calls a=some ⟨request,some (base,out)⟩ ∧
      ((w.store.update base out=none ∧ w'=w.setCall a (some ⟨request,none⟩)) ∨
        ∃ store,w.store.update base out=some store ∧ w'={w.setCall a none with
          store := store
          newest := (request.started base.obj).or w.newest}) := by
  rw [next] at hw
  split at hw
  · rename_i request base out hcall
    refine ⟨request,base,out,hcall,?_⟩
    split at hw
    · rename_i store hu
      exact .inr ⟨store,hu,(some.inj hw).symm⟩
    · rename_i hu
      exact .inl ⟨hu,(some.inj hw).symm⟩
  · cases hw

theorem Inv.update (h : Inv w) {a : Nat} (hok : Fresh w (.update a))
    (hw : next w (.update a)=some w') : Inv w' := by
  obtain ⟨request,base,out,hcall,⟨-,rfl⟩ | ⟨store,hupd,rfl⟩⟩ := update_cases hw
  · refine h.setCall a ?_
    rintro _ ⟨⟩ _ _ ⟨⟩
  · -- an accepted write was computed from the newest version
    obtain ⟨hcopy,now,it,ho⟩ := h.calls a _ hcall base out rfl
    obtain ⟨rfl,rfl⟩ := w.store.update_eq_some store base out hcopy hupd
    have hclr : Inv (w.setCall a none) := h.setCall a (by simp)
    refine hclr.put ?_
    intro u hu
    cases hsta : request.started w.store.current.obj with
    | some started =>
      rw [hsta,some_or] at hu
      cases hu
      cases request with
      | updatePodInPlace spec funcs =>
        cases hsta
        cases ho
        exact holds_startUpdate spec funcs _
      | updateNextBatch pod => cases hsta
      | finishGracePeriod => cases hsta
    | none =>
      rw [hsta,none_or] at hu
      refine holds_closure (h.governed u hu) ?_ hsta ho
      intro pod hpod
      subst hpod
      exact hok _ hcall rfl

theorem Inv.get (h : Inv w) {a i : Nat} {now : Int} {it : Iteration}
    (hw : next w (.get a i now it)=some w') : Inv w' := by
  rw [next] at hw
  split at hw
  · rename_i request base hcall hbase
    split at hw
    · rename_i pod hclo
      cases hw
      refine h.setCall a ?_
      rintro _ ⟨⟩ _ _ ⟨⟩
      exact ⟨Store.copy_at hbase,now,it,hclo⟩
    · cases hw
      exact h.setCall a (by simp)
  · cases hw

theorem inv_step {l : Label} (h : Inv w) (hstep : Restricted Step Fresh w l w') : Inv w' := by
  obtain ⟨hw,hok⟩ := hstep
  cases l with
  | callUpdate a spec funcs => exact h.begin hw
  | callNext a i =>
    obtain ⟨pod,-,hbegin⟩ := bind_eq_some_iff.mp hw
    exact h.begin hbegin
  | callGrace a => exact h.begin hw
  | get a i now it => exact h.get hw
  | update a => exact h.update hok hw
  | fail a =>
    obtain ⟨call,-,rfl⟩ := map_eq_some_iff.mp hw
    exact h.setCall a (by simp)
  | other labels annotations statuses =>
    cases hw
    refine h.put ?_
    intro u hu
    obtain ⟨hg,hgr⟩ := h.governed u hu
    exact ⟨⟨hg.state,hg.images⟩,hgr⟩

theorem inv_init (h : Init w) : Inv w := by
  obtain ⟨pod,-,hcalls,hn⟩ := h
  constructor
  · intro u hu
    rw [hn] at hu
    cases hu
  · intro a call ha
    rw [hcalls a] at ha
    cases ha

end

/-- As long as `updateNextBatch` applies the state it has read, the stored pod carries nothing of an
update older than the newest stored one. -/
theorem governs_of_fresh (w : World) (h : Reachable Init (Restricted Step Fresh) w) (u : Started)
    (hu : w.newest=some u) : u.Governs w.store.current.obj :=
  ((h.invariant (fun _ hi => inv_init hi) fun _ _ _ hinv hstep =>
    inv_step hinv hstep).governed u hu).1

def webPod : Pod where
  containers := [⟨"web", "web:1",some "p_1"⟩,⟨"log", "log:1",some "p_5"⟩]
  statuses := [⟨"web", "sha-web-1"⟩,⟨"log", "sha-log-1"⟩]
  labels := fun _ => none
  annotations := fun _ => none
  state := none
  grace := none
  distinct := by decide

def webSpec : UpdateSpec where
  revision := "web-2"
  containerImages := ⟨[⟨"web", "web:2"⟩,⟨"log", "log:2"⟩],by simp [List.NodupKeys,List.keys]⟩
  containerRefMetadata := ∅
  metaDataPatch := none
  updateEnvFromMetadata := true
  graceSeconds := 0

def noFuncs : AdditionalFuncs := ⟨id,id⟩

def newerSpec : UpdateSpec :=
  {webSpec with
    revision := "web-3"
    containerImages := AList.singleton "web" "web:3" }

def webWorld : World := ⟨Store.start webPod,fun _ => none,none⟩

theorem webWorld_init : Init webWorld := ⟨webPod,rfl,fun _ => rfl,rfl⟩

def firstBatch : List Label :=
  [.callUpdate 0 webSpec noFuncs,.get 0 0 10 .asStored,.update 0]

/- The update to web-3 is stored between the call of `updateNextBatch` and its read. -/
def overtaken : List Label :=
  firstBatch++[.callNext 1 0,.callUpdate 2 newerSpec noFuncs,.get 2 0 20 .asStored,.update 2,
    .get 1 0 21 .asStored,.update 1]

theorem overtaken_restores_older :
    ∃ w u,Reachable Init Step w ∧ w.newest=some u ∧ u.spec.revision = "web-3" ∧
      w.store.current.obj.images=[("web", "web:2"),("log", "log:2")] ∧
      w.store.current.obj.state.map State.revision=some "web-2" ∧
      ¬u.Governs w.store.current.obj := by
  have he : ((runLabels next overtaken webWorld).any fun w =>
      decide (w.newest.map (fun u => u.spec.revision)=some "web-3" ∧
        w.store.current.obj.images=[("web", "web:2"),("log", "log:2")] ∧
        w.store.current.obj.state.map State.revision=some "web-2")) := by decide +kernel
  obtain ⟨w,hw,hf⟩ := (any_eq_true _ _).mp he
  obtain ⟨hn,hi,hr⟩ := of_decide_eq_true hf
  obtain ⟨u,hu,hspec⟩ := map_eq_some_iff.mp hn
  refine ⟨w,u,reachable_of_runLabels (fun _ _ _ h => h) overtaken (.start webWorld_init) hw,hu, hspec,hi,hr,?_⟩
  intro hg
  obtain ⟨state,hst,hwt⟩ := hg.state
  rw [hst,map_some,hwt.revision,hspec] at hr
  exact absurd hr (by decide)

instance (store : Store Pod) : ∀ call : Call,Decidable (call.Fresh store)
  | ⟨.updateNextBatch pod,some (base,_)⟩ =>
    inferInstanceAs (Decidable (base.rv=store.current.rv → pod.state=base.obj.state))
  | ⟨.updateNextBatch _,none⟩ => isTrue trivial
  | ⟨.updatePodInPlace _ _,_⟩ => isTrue trivial
  | ⟨.finishGracePeriod,_⟩ => isTrue trivial

instance (w : World) : ∀ l,Decidable (Fresh w l)
  | .update a => inferInstanceAs (Decidable (∀ call∈w.calls a,call.Fresh w.store))
  | .callUpdate _ _ _ | .callNext _ _ | .callGrace _ | .get _ _ _ _ | .fail _ | .other _ _ _ =>
    isTrue trivial

/- The second batch is written by a caller that holds the first one's outcome, and then an update to
web-3 is stored. -/
def bothBatches : List Label :=
  firstBatch++[.callNext 1 0,.get 1 0 20 .asStored,.update 1,
    .callUpdate 2 newerSpec noFuncs,.get 2 0 30 .asStored,.update 2]

theorem bothBatches_governed :
    ∃ w u,runLabels (restrict next Fresh) bothBatches webWorld=some w ∧ w.newest=some u ∧
      u.spec.revision = "web-3" ∧ w.store.current.obj.images=[("web", "web:3"),("log", "log:2")] ∧
      u.Governs w.store.current.obj := by
  have he : ((runLabels (restrict next Fresh) bothBatches webWorld).any fun w =>
      decide (w.newest.map (fun u => u.spec.revision)=some "web-3" ∧
        w.store.current.obj.images=[("web", "web:3"),("log", "log:2")])) := by
    decide +kernel
  obtain ⟨w,hw,hf⟩ := (any_eq_true _ _).mp he
  obtain ⟨hn,hi⟩ := of_decide_eq_true hf
  obtain ⟨u,hu,hspec⟩ := map_eq_some_iff.mp hn
  have hr : Reachable Init (Restricted Step Fresh) w :=
    reachable_of_restrict (fun _ _ _ h => h) bothBatches (.start webWorld_init) hw
  exact ⟨w,u,hw,hu,hspec,hi,governs_of_fresh w hr u hu⟩

end Kruise.InPlaceUpdate.NextBatch
