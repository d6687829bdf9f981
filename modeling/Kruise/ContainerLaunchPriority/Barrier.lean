import Kruise.ContainerLaunchPriority.Priorities
import Kruise.Lib.Keyed
import Kruise.Lib.Transition
import Mathlib.Data.List.Sort

/-!
# The barrier of a pod

The controller that puts the key of one launch priority after the other into the ConfigMap named
after the pod (`container_launch_priority_controller.go` 124-241), the kubelet, which starts a
container once its key is there, and the garbage collector, which collects a ConfigMap after its
pod. Pods of one name follow each other and read the ConfigMap of that name.
-/

namespace Kruise.ContainerLaunchPriority

open Lib.Keyed Lib.Transition List Option

/- The names of the containers that were started, that are ready, and that have been ready;
`completed` is the annotation. -/
structure Pod where
  uid : String
  containers : List Container
  started : List String
  ready : List String
  beenReady : List String
  completed : Bool
  deriving DecidableEq

structure Barrier where
  owner : String
  keys : List String
  deriving DecidableEq

def findNextPriorities (pod : Pod) : List Int :=
  ((pod.containers.filter fun c => c.name∉pod.ready).filterMap getContainerPriority).insertionSort
    (· ≤ ·)

def isExistsInBarrier (priority : Int) (barrier : Barrier) : Bool :=
  decide (getKey priority∈barrier.keys)

def addPriorityIntoBarrier (barrier : Barrier) (priority : Int) : Barrier :=
  {barrier with keys := barrier.keys++[getKey priority]}

def handle (pod : Pod) (barrier : Barrier) : Barrier × Bool :=
  match findNextPriorities pod with
  | [] => (barrier,true)
  | lowest::rest =>
    let current:=(lowest::rest).getLast (List.cons_ne_nil _ _)
    if isExistsInBarrier lowest barrier then (barrier,true)
    else
      (if isExistsInBarrier current barrier then barrier
        else addPriorityIntoBarrier barrier current,decide (current=lowest))

structure World where
  pod : Option Pod
  barrier : Option Barrier
  deriving DecidableEq

variable (w : World)

/- `marks` says that the patch of the annotation, if there is one, succeeds. -/
def reconcile (marks : Bool) : World :=
  match w.pod,w.barrier with
  | none,_ => w
  | some pod,none => {w with barrier := some ⟨pod.uid,[]⟩}
  | some pod,some barrier =>
    let handled:=handle pod barrier
    ⟨some {pod with completed := pod.completed||(handled.2&&marks)},some handled.1⟩

inductive Label
  | create (uid : String) (ordered : Bool) (containers : List Container)
  | delete
  | start (name : String)
  | setReady (name : String) (ready : Bool)
  | reconcile (marks : Bool)
  | collect

def hasKey (barrier : Option Barrier) (key : String) : Bool :=
  barrier.any fun b => decide (key∈b.keys)

/- The API server accepts containers with different names. -/
def Acceptable (containers : List Container) : Prop :=
  (containers.map Container.name).Nodup ∧ containers.length<2^63 ∧
    ∀ c∈containers,c.barrierKey=none
  deriving Decidable

def next : Label → Option World
  | .create uid ordered containers =>
    if w.pod=none ∧ Acceptable containers then
      (containerLaunchPriorityInitialization ordered containers).map fun injected =>
        {w with pod := some ⟨uid,injected,[],[],[],false⟩}
    else none
  | .delete => w.pod.map fun _ => {w with pod := none}
  | .start name => w.pod.bind fun pod =>
    (findKey Container.name name pod.containers).bind fun c =>
      if c.barrierKey.all (hasKey w.barrier) then
        some {w with pod := some {pod with started := name::pod.started}}
      else none
  | .setReady name ready => w.pod.bind fun pod =>
    if name∉pod.started then none
    else if ready then
      some {w with pod := some {pod with
        ready := name::pod.ready,beenReady := name::pod.beenReady}}
    else some {w with pod := some {pod with ready := pod.ready.filter fun n => n≠name}}
  | .reconcile marks => some (reconcile w marks)
  | .collect => w.barrier.bind fun barrier =>
    if w.pod.any fun pod => pod.uid=barrier.owner then none else some {w with barrier := none}

def step (l : Label) (w' : World) : Prop := next w l=some w'

/- The key of a priority is in the ConfigMap only after all containers of the same pod with a higher
priority have been ready. -/
def Enforced : Prop :=
  ∀ pod,w.pod=some pod → ∀ c∈pod.containers,∀ q,getContainerPriority c=some q →
    hasKey w.barrier (getKey q) → ∀ d∈pod.containers,∀ r,
      getContainerPriority d=some r → q<r → d.name∈pod.beenReady

def CompletedWithKeys : Prop :=
  ∀ pod,w.pod=some pod → pod.completed → ∀ c∈pod.containers,∀ q,
    getContainerPriority c=some q → hasKey w.barrier (getKey q)

/- A pod is created only when no ConfigMap of its name is left. -/
def Collected : Label → Prop
  | .create .. => w.barrier=none
  | _ => True

structure PodInv (pod : Pod) (barrier : Option Barrier) : Prop where
  names : (pod.containers.map Container.name).Nodup
  keyed : ∀ c∈pod.containers,Keyed c
  owner : ∀ b,barrier=some b → b.owner=pod.uid
  started : ∀ c∈pod.containers,c.name∈pod.started → ∀ q,getContainerPriority c=some q →
    hasKey barrier (getKey q)
  been : pod.beenReady ⊆ pod.started
  ready : pod.ready ⊆ pod.beenReady
  ordered : ∀ c∈pod.containers,∀ q,getContainerPriority c=some q →
    hasKey barrier (getKey q) → ∀ d∈pod.containers,∀ r,getContainerPriority d=some r →
      q<r → d.name∈pod.beenReady
  complete : pod.completed → ∀ c∈pod.containers,∀ q,getContainerPriority c=some q →
    hasKey barrier (getKey q)

variable {pod : Pod} {barrier : Barrier}

theorem mem_findNextPriorities {p : Int} : p∈findNextPriorities pod ↔
    ∃ c∈pod.containers,c.name∉pod.ready ∧ getContainerPriority c=some p := by
  unfold findNextPriorities
  rw [mem_insertionSort,mem_filterMap]
  simp only [mem_filter,decide_eq_true_eq,and_assoc]

theorem findNextPriorities_sorted : (findNextPriorities pod).Pairwise (· ≤ ·) :=
  pairwise_insertionSort _ _

variable {key : String}

theorem hasKey_some : hasKey (some barrier) key ↔ key∈barrier.keys := by
  simp [hasKey]

theorem mem_keys_addPriorityIntoBarrier {p : Int} :
    key∈(addPriorityIntoBarrier barrier p).keys ↔ key∈barrier.keys ∨ key=getKey p := by
  simp [addPriorityIntoBarrier]

/- The current priority may join the keys, and a mark asks for the keys of all priorities. -/
structure HandleSpec (priorities : List Int) (before : Barrier) (after : Barrier × Bool) : Prop where
  owner : after.1.owner=before.owner
  keys : after.1=before ∨ ∃ current,(∀ p∈priorities,p≤current) ∧ current∈priorities ∧
    after.1=addPriorityIntoBarrier before current
  marks : after.2 → priorities=[] ∨ ∃ lowest∈priorities,
    (∀ p∈priorities,lowest≤p) ∧ getKey lowest∈after.1.keys ∧
      (getKey lowest∈before.keys ∨ ∀ p∈priorities,p=lowest)

theorem handle_spec : HandleSpec (findNextPriorities pod) barrier (handle pod barrier) := by
  have hsrt:=@findNextPriorities_sorted pod
  unfold handle
  generalize findNextPriorities pod=priorities at hsrt ⊢
  cases priorities with
  | nil => exact ⟨rfl,.inl rfl,fun _ => .inl rfl⟩
  | cons lowest rest =>
    have hl : ∀ p∈lowest::rest,lowest≤p := fun _ hp => hsrt.rel_head hp
    have hcur : ∀ p∈lowest::rest,p≤(lowest::rest).getLast (cons_ne_nil lowest rest) :=
      fun _ hp => hsrt.rel_getLast hp
    have hmem:=getLast_mem (cons_ne_nil lowest rest)
    dsimp only
    generalize (lowest::rest).getLast (cons_ne_nil lowest rest)=current at hcur hmem ⊢
    by_cases he : isExistsInBarrier lowest barrier
    · have hk : getKey lowest∈barrier.keys := of_decide_eq_true he
      rw [if_pos he]
      exact ⟨rfl,.inl rfl,fun _ =>
        .inr ⟨lowest,mem_cons_self,hl,hk,.inl hk⟩⟩
    · -- the mark: the lowest priority is the current one, so all that are left are the same
      have hsame : current=lowest → ∀ p∈lowest::rest,p=lowest := by
        intro heq p hp
        have hle:=hcur p hp
        have hge:=hl p hp
        omega
      split_ifs with ht
      · refine ⟨rfl,.inl rfl,fun hm => .inr ⟨lowest,mem_cons_self,hl,?_,?_⟩⟩
        · exact of_decide_eq_true (of_decide_eq_true hm ▸ ht)
        · exact .inr (hsame (of_decide_eq_true hm))
      · refine ⟨rfl,.inr ⟨current,hcur,hmem,rfl⟩, fun hm => .inr ⟨lowest,mem_cons_self,hl,?_,?_⟩⟩
        · exact mem_keys_addPriorityIntoBarrier.mpr (.inr (of_decide_eq_true hm ▸ rfl))
        · exact .inr (hsame (of_decide_eq_true hm))

variable {after : Barrier × Bool}

theorem HandleSpec.grows {priorities : List Int} {before : Barrier}
    (h : HandleSpec priorities before after) (hk : key∈before.keys) : key∈after.1.keys := by
  rcases h.keys with hsame | ⟨current,-,-,ha⟩
  · rw [hsame]
    exact hk
  · rw [ha]
    exact mem_keys_addPriorityIntoBarrier.mpr (.inl hk)

variable {c : Container}

theorem PodInv.key_of_beenReady (h : PodInv pod (some barrier)) (hc : c∈pod.containers)
    {q : Int} (hq : getContainerPriority c=some q) (hbeen : c.name∈pod.beenReady) : getKey q∈barrier.keys :=
  hasKey_some.mp (h.started c hc (h.been hbeen) q hq)

variable {o : Option Barrier}

theorem PodInv.isInt (h : PodInv pod o) {p : Int} (hp : p∈findNextPriorities pod) : IsInt p := by
  obtain ⟨c,hc,-,hq⟩ := mem_findNextPriorities.mp hp
  exact (getContainerPriority_of_keyed (h.keyed c hc) hq).1

theorem PodInv.ordered_handle (h : PodInv pod (some barrier))
    (hspec : HandleSpec (findNextPriorities pod) barrier after) {c d : Container}
    (hc : c∈pod.containers) {q : Int} (hq : getContainerPriority c=some q)
    (hk : getKey q∈after.1.keys) (hd : d∈pod.containers) {r : Int}
    (hr : getContainerPriority d=some r) (hlt : q<r) : d.name∈pod.beenReady := by
  have ho : getKey q∈barrier.keys → d.name∈pod.beenReady :=
    fun hm => h.ordered c hc q hq (hasKey_some.mpr hm) d hd r hr hlt
  rcases hspec.keys with hsame | ⟨current,hcurr,hm,ha⟩
  · exact ho (hsame ▸ hk)
  · rw [ha] at hk
    rcases mem_keys_addPriorityIntoBarrier.mp hk with hbef | hnew
    · exact ho hbef
    · have hi:=(getContainerPriority_of_keyed (h.keyed c hc) hq).1
      have hcur:=getKey_inj hi (h.isInt hm) hnew
      by_contra hnot
      have hn : r∈findNextPriorities pod :=
        mem_findNextPriorities.mpr ⟨d,hd,fun hrdy => hnot (h.ready hrdy),hr⟩
      have hle:=hcurr r hn
      omega

theorem PodInv.complete_handle (h : PodInv pod (some barrier))
    (hspec : HandleSpec (findNextPriorities pod) barrier after) (hm : after.2)
    (hc : c∈pod.containers) {q : Int} (hq : getContainerPriority c=some q) : getKey q∈after.1.keys := by
  by_cases hr : c.name∈pod.ready
  · exact hspec.grows (h.key_of_beenReady hc hq (h.ready hr))
  · have hmem : q∈findNextPriorities pod := mem_findNextPriorities.mpr ⟨c,hc,hr,hq⟩
    rcases hspec.marks hm with hn | ⟨lowest,hlow,hle,hk,hrest⟩
    · rw [hn] at hmem
      cases hmem
    · by_cases heq : q=lowest
      · exact heq ▸ hk
      · rcases hrest with hbef | ha
        · -- the lowest key was there before, so the containers above it have been ready
          obtain ⟨l,hl,-,hlq⟩ := mem_findNextPriorities.mp hlow
          have hlt : lowest<q := lt_of_le_of_ne (hle q hmem) (Ne.symm heq)
          have hbeen:=h.ordered l hl lowest hlq (hasKey_some.mpr hbef) c hc q hq hlt
          exact hspec.grows (h.key_of_beenReady hc hq hbeen)
        · exact absurd (ha q hmem) heq

theorem PodInv.handle (h : PodInv pod (some barrier)) (marks : Bool) :
    PodInv {pod with completed := pod.completed||((handle pod barrier).2&&marks)}
      (some (handle pod barrier).1) := by
  have hspec:=@handle_spec pod barrier
  refine ⟨h.names,h.keyed,?_,?_,h.been,h.ready,?_,?_⟩
  · rintro b ⟨⟩
    rw [hspec.owner]
    exact h.owner barrier rfl
  · intro c hc hsta q hq
    exact hasKey_some.mpr (hspec.grows (hasKey_some.mp (h.started c hc hsta q hq)))
  · intro c hc q hq hk d hd r hr hlt
    exact h.ordered_handle hspec hc hq (hasKey_some.mp hk) hd hr hlt
  · intro hcomp c hc q hq
    rw [Bool.or_eq_true,Bool.and_eq_true] at hcomp
    rcases hcomp with hbef | ⟨hm,-⟩
    · exact hasKey_some.mpr (hspec.grows (hasKey_some.mp (h.complete hbef c hc q hq)))
    · exact hasKey_some.mpr (h.complete_handle hspec hm hc hq)

theorem PodInv.create (h : PodInv pod none) : PodInv pod (some ⟨pod.uid,[]⟩) := by
  refine ⟨h.names,h.keyed,?_,?_,h.been,h.ready,?_,?_⟩
  · rintro b ⟨⟩
    rfl
  · intro c hc hsta q hq
    cases h.started c hc hsta q hq
  · rintro c hc q hq ⟨⟩
  · intro hcomp c hc q hq
    cases h.complete hcomp c hc q hq

def Inv : Prop := ∀ pod,w.pod=some pod → PodInv pod w.barrier

theorem Inv.reconcile {w : World} (h : Inv w) (marks : Bool) : Inv (reconcile w marks) := by
  obtain ⟨pod,barrier⟩ := w
  cases pod with
  | none => exact nofun
  | some pod =>
    have hpod:=h pod rfl
    cases barrier with
    | none =>
      rintro pod' ⟨⟩
      exact hpod.create
    | some barrier =>
      rintro pod' ⟨⟩
      exact hpod.handle marks

theorem podInv_injected {uid : String} {ordered : Bool} {containers injected : List Container}
    (hok : Acceptable containers) (hi : containerLaunchPriorityInitialization ordered containers=some injected) :
    PodInv ⟨uid,injected,[],[],[],false⟩ none := by
  obtain ⟨hk,hn⟩ :=
    containerLaunchPriorityInitialization_spec hok.2.1 hok.2.2 hi
  refine ⟨hn.nodup hok.1,hk,?_,?_,.refl _,.refl _,?_,?_⟩
  · rintro b ⟨⟩
  · rintro c _ ⟨⟩
  · rintro c _ q _ ⟨⟩
  · rintro ⟨⟩

theorem PodInv.start (h : PodInv pod o) {name : String} (hf : findKey Container.name name pod.containers=some c)
    (hk : c.barrierKey.all (hasKey o)) : PodInv {pod with started := name::pod.started} o := by
  obtain ⟨hc,hname⟩ := findKey_some hf
  refine ⟨h.names,h.keyed,h.owner,?_,subset_cons_of_subset _ h.been,h.ready,h.ordered,h.complete⟩
  intro d hd hsta q hq
  rcases mem_cons.mp hsta with heq | hbef
  · obtain rfl := inj_on_of_nodup_map h.names hd hc (heq.trans hname.symm)
    rw [(getContainerPriority_of_keyed (h.keyed d hd) hq).2] at hk
    exact hk
  · exact h.started d hd hbef q hq

theorem PodInv.becomeReady (h : PodInv pod o) {name : String} (hsta : name∈pod.started) :
    PodInv {pod with ready := name::pod.ready,beenReady := name::pod.beenReady} o := by
  refine ⟨h.names,h.keyed,h.owner,h.started,?_,cons_subset_cons name h.ready,?_,h.complete⟩
  · exact cons_subset.mpr ⟨hsta,h.been⟩
  · intro c hc q hq hk d hd r hr hlt
    exact mem_cons_of_mem name (h.ordered c hc q hq hk d hd r hr hlt)

theorem Inv.next {w w' : World} {l : Label} (h : Inv w) (hok : Collected w l)
    (hnext : next w l=some w') : Inv w' := by
  intro pod hpod
  cases l with
  | create uid ordered containers =>
    simp only [ContainerLaunchPriority.next] at hnext
    split_ifs at hnext with hcre
    obtain ⟨injected,hinje,rfl⟩ := map_eq_some_iff.mp hnext
    cases hpod
    change w.barrier=none at hok
    change PodInv _ w.barrier
    rw [hok]
    exact podInv_injected hcre.2 hinje
  | delete =>
    obtain ⟨p,-,rfl⟩ := map_eq_some_iff.mp hnext
    cases hpod
  | start name =>
    obtain ⟨p,hp,hnext⟩ := bind_eq_some_iff.mp hnext
    obtain ⟨c,hc,hnext⟩ := bind_eq_some_iff.mp hnext
    split_ifs at hnext with hk
    cases hnext
    cases hpod
    exact (h p hp).start hc hk
  | setReady name ready =>
    obtain ⟨p,hp,hnext⟩ := bind_eq_some_iff.mp hnext
    have hi:=h p hp
    split_ifs at hnext with hsta hr
    · cases hnext
      cases hpod
      exact hi.becomeReady hsta
    · cases hnext
      cases hpod
      exact ⟨hi.names,hi.keyed,hi.owner,hi.started,hi.been,
        fun n hn => hi.ready (mem_of_mem_filter hn),hi.ordered,hi.complete⟩
  | reconcile marks =>
    cases hnext
    exact h.reconcile marks pod hpod
  | collect =>
    obtain ⟨b,hb,hnext⟩ := bind_eq_some_iff.mp hnext
    split_ifs at hnext with ho
    cases hnext
    -- the pod owns the ConfigMap, so it is not collected
    have howne:=(h pod hpod).owner b hb
    change w.pod=some pod at hpod
    rw [hpod] at ho
    simp [howne] at ho

def empty : World := ⟨none,none⟩

section

variable {w : World} (h : Reachable (· = empty) (Restricted step Collected) w)
include h

theorem inv_of_reachable : Inv w := by
  refine h.invariant ?_ ?_
  · exact nofun
  · rintro s l s' hs ⟨hstep,hok⟩
    exact hs.next hok hstep

/-- In a run in which every pod is created only when no ConfigMap of its name is left, the key of a
priority is there only after the containers above it have been ready, and a completed pod has all
keys. -/
theorem launch_priority_enforced : Enforced w ∧ CompletedWithKeys w := by
  refine ⟨?_,?_⟩
  · intro pod hpod
    exact (inv_of_reachable h pod hpod).ordered
  · intro pod hpod
    exact (inv_of_reachable h pod hpod).complete

/-- No pod waits for ever: when its ConfigMap exists, all containers that may start are ready and one
may not start yet, the next reconcile adds a key that lets another one start, and none of a lower
priority. -/
theorem reconcile_lets_another_start (hpod : w.pod=some pod) (hbarrier : w.barrier=some barrier)
    (hready : ∀ d∈pod.containers,∀ r,getContainerPriority d=some r → getKey r∈barrier.keys → d.name∈pod.ready)
    (hc : c∈pod.containers) {q : Int} (hq : getContainerPriority c=some q)
    (hwaits : getKey q∉barrier.keys) (marks : Bool) :
    ∃ d∈pod.containers,∃ r,getContainerPriority d=some r ∧ q≤r ∧ getKey r∉barrier.keys ∧
      (reconcile w marks).barrier=some (addPriorityIntoBarrier barrier r) := by
  have hinv:=inv_of_reachable h pod hpod
  rw [hbarrier] at hinv
  have hn : ∀ p∈findNextPriorities pod,getKey p∉barrier.keys := by
    intro p hp hk
    obtain ⟨d,hd,hnot,hdp⟩ := mem_findNextPriorities.mp hp
    exact hnot (hready d hd p hdp hk)
  have hm : q∈findNextPriorities pod := by
    refine mem_findNextPriorities.mpr ⟨c,hc,fun hr => ?_,hq⟩
    exact hwaits (hinv.key_of_beenReady hc hq (hinv.ready hr))
  have hne:=ne_nil_of_mem hm
  have hlast:=getLast_mem hne
  obtain ⟨d,hd,-,hdr⟩ := mem_findNextPriorities.mp hlast
  refine ⟨d,hd,_,hdr,findNextPriorities_sorted.rel_getLast hm,hn _ hlast,?_⟩
  unfold reconcile
  rw [hpod,hbarrier]
  dsimp only [handle]
  generalize findNextPriorities pod=priorities at hn hne hlast ⊢
  cases priorities with
  | nil => exact absurd rfl hne
  | cons lowest rest => simp [isExistsInBarrier,hn lowest mem_cons_self,hn _ hlast]

end

def mainAndSidecar : List Container := [⟨"main",["0"],none⟩,⟨"sidecar",["1"],none⟩]

def launchRun (uid : String) : List Label :=
  [.create uid false mainAndSidecar,.reconcile true,.reconcile true,.start "sidecar",
    .setReady "sidecar" true,.reconcile true]

def takeOverRun : List Label := launchRun "uid-1" ++ [.delete,.create "uid-2" false mainAndSidecar]

def completeRun : List Label :=
  takeOverRun++[.start "main",.start "sidecar",.setReady "main" true,.setReady "sidecar" true,
    .collect,.reconcile true,.reconcile true]

def injectedMain : Container := ⟨"main",["0"],some "p_0"⟩

def injectedSidecar : Container := ⟨"sidecar",["1"],some "p_1"⟩

def secondPod (names : List String) (completed : Bool) : Pod :=
  ⟨"uid-2",[injectedMain,injectedSidecar],names,names,names,completed⟩

/-- The second pod finds the keys of the first one, before its own sidecar has been ready. And when
the ConfigMap of the first pod is collected, the second pod is completed without any key. -/
theorem second_pod_finds_keys :
    (∃ w,Reachable (· = empty) step w ∧ ¬Enforced w) ∧ ∃ w,Reachable (· = empty) step w ∧ ¬CompletedWithKeys w := by
  have hi : Reachable (· = empty) step empty := Reachable.start rfl
  have ht : runLabels next takeOverRun empty =
      some ⟨some (secondPod [] false),some ⟨"uid-1",["p_1", "p_0"]⟩⟩ := by decide +kernel
  have hcomplete : runLabels next completeRun empty =
      some ⟨some (secondPod ["sidecar", "main"] true),some ⟨"uid-2",[]⟩⟩ := by decide +kernel
  have hm : getContainerPriority injectedMain=some 0 := by decide +kernel
  have hsidecar : getContainerPriority injectedSidecar=some 1 := by decide +kernel
  refine ⟨⟨_,reachable_of_runLabels (fun _ _ _ h => h) _ hi ht,?_⟩,
    ⟨_,reachable_of_runLabels (fun _ _ _ h => h) _ hi hcomplete,?_⟩⟩
  · intro he
    have hbeen:=he _ rfl injectedMain (by simp [secondPod]) 0 hm (by decide +kernel)
      injectedSidecar (by simp [secondPod]) 1 hsidecar (by decide)
    cases hbeen
  · intro hcomp
    have hk:=hcomp _ rfl rfl injectedMain (by simp [secondPod]) 0 hm
    cases hk

instance (w : World) (l : Label) : Decidable (Collected w l) :=
  match l with
  | .create .. => inferInstanceAs (Decidable (w.barrier=none))
  | .delete => isTrue trivial
  | .start _ => isTrue trivial
  | .setReady .. => isTrue trivial
  | .reconcile _ => isTrue trivial
  | .collect => isTrue trivial

theorem collected_pod_has_keys :
    ∃ w,Reachable (· = empty) (Restricted step Collected) w ∧ w.barrier=some ⟨"uid-2",["p_1", "p_0"]⟩ ∧
      w.pod.map (fun pod => (pod.uid,pod.completed))=some ("uid-2",true) ∧
      Enforced w ∧ CompletedWithKeys w := by
  have hi : Reachable (· = empty) (Restricted step Collected) empty := Reachable.start rfl
  have hrun : (runLabels (restrict next Collected)
      (launchRun "uid-1" ++ [.delete,.collect]++launchRun "uid-2") empty).map
      (fun w => (w.barrier,w.pod.map fun pod => (pod.uid,pod.completed))) =
      some (some ⟨"uid-2",["p_1", "p_0"]⟩,some ("uid-2",true)) := by decide +kernel
  obtain ⟨w,hw,hf⟩ := map_eq_some_iff.mp hrun
  have hr:=reachable_of_restrict (fun _ _ _ h => h) _ hi hw
  obtain ⟨hbarrier,hpod⟩ := Prod.mk.inj hf
  exact ⟨w,hr,hbarrier,hpod,launch_priority_enforced hr⟩

theorem sidecar_may_start :
    ∃ w r,Reachable (· = empty) (Restricted step Collected) w ∧
      (reconcile w true).barrier=some (addPriorityIntoBarrier ⟨"uid-1",[]⟩ r) := by
  have hrun : runLabels (restrict next Collected) ((launchRun "uid-1").take 2) empty =
      some ⟨some ⟨"uid-1",[injectedMain,injectedSidecar],[],[],[],false⟩,some ⟨"uid-1",[]⟩⟩ := by decide +kernel
  have hr : Reachable (· = empty) (Restricted step Collected) _ :=
    reachable_of_restrict (fun _ _ _ h => h) _ (.start rfl) hrun
  have hp : getContainerPriority injectedMain=some 0 := by decide +kernel
  obtain ⟨d,-,r,-,-,-,hadd⟩ := reconcile_lets_another_start hr rfl rfl
    (fun _ _ _ _ hk => absurd hk not_mem_nil) mem_cons_self hp not_mem_nil true
  exact ⟨_,r,hr,hadd⟩

end Kruise.ContainerLaunchPriority
