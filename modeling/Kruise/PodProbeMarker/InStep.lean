import Kruise.PodProbeMarker.Deletion

/-!
# NodePodProbes in step with the spec of a marker

What `syncPodProbeMarker` writes for a marker that is not being deleted, with no error of the API
server (`pod_probe_marker_controller.go` 135-197, 217-301, 340-355). A probe that is no longer in
the spec is never removed, and the comparison that is to skip an update is of a spec with a pointer
to one, so that every run updates the NodePodProbe of every matched pod.
-/

namespace Kruise.PodProbeMarker

open List

/- What `reflect.DeepEqual` is given: `npp.Spec`, or the pointer that its `DeepCopy` returns. Values
of distinct types are not deeply equal. -/
inductive SpecValue
  | spec (podProbes : List PodProbe)
  | pointer (podProbes : List PodProbe)
  deriving DecidableEq

def deepEqual (x y : SpecValue) : Bool := decide (x=y)

inductive Write
  | finalizer
  | nodePodProbe (name : String)
  | status
  deriving DecidableEq

structure Cluster where
  state : State
  generation : Int
  observedGeneration : Int
  matchedPods : Int

section

variable (convert : Pod → PodContainerProbe → Option String) (m : Marker) (probes : List PodContainerProbe)

def writesNodePodProbe (pods : List Pod) (npp : NodePodProbe) : Bool :=
  let oldSpec:=SpecValue.pointer npp.podProbes
  pods.any (fun pod => decide (pod.nodeName=npp.name)) &&
    !deepEqual (.spec (updateNodePodProbes convert m probes pods npp).podProbes) oldSpec

def writes (c : Cluster) (a : Attempt) : List Write :=
  let pods:=getMatchingPods m a.selector a.pods
  let npps:=c.state.npps.filter (writesNodePodProbe convert m probes pods)
  (if podProbeMarkerFinalizer∈c.state.finalizers then [] else [.finalizer])++
    npps.map (fun npp => .nodePodProbe npp.name)++
    if c.observedGeneration=c.generation ∧ c.matchedPods=pods.length then [] else [.status]

def sync (c : Cluster) (a : Attempt) : Cluster :=
  ⟨syncPodProbeMarker convert m probes false c.state a,c.generation,c.generation,
    (getMatchingPods m a.selector a.pods).length⟩

/- A matched pod has an entry on its node, and the probes of the marker in it are those of the
spec. -/
def RecordsSpec (pods : List Pod) (npps : List NodePodProbe) : Prop :=
  ∀ npp∈npps,∀ pod∈pods,pod.nodeName=npp.name →
    (∃ entry∈npp.podProbes,isEntryOf pod entry) ∧
      ∀ entry∈npp.podProbes,isEntryOf pod entry → ∀ probe,
        probe∈entry.probes ∧ isFor m entry probe ↔
          probe∈probes.filterMap (containerProbe convert m pod)

/- An entry that is added has no probes of other markers. -/
def KeepsOthers (before after : List NodePodProbe) : Prop :=
  Forall₂ (fun npp npp' => npp'.name=npp.name ∧ ∃ added,
    npp'.podProbes.map (others m)=npp.podProbes.map (others m)++replicate added []) before after

def InStep (c : Cluster) (a : Attempt) : Prop :=
  let after:=sync convert m probes c a
  RecordsSpec convert m probes (getMatchingPods m a.selector a.pods) after.state.npps ∧
    KeepsOthers m c.state.npps after.state.npps ∧ writes convert m probes after a=[]

end

variable {convert : Pod → PodContainerProbe → Option String} {m : Marker}
  {probes : List PodContainerProbe} {pods : List Pod} {npp : NodePodProbe}

theorem writesNodePodProbe_iff :
    writesNodePodProbe convert m probes pods npp ↔ ∃ pod∈pods,pod.nodeName=npp.name := by
  have hne : ∀ x y,deepEqual (.spec x) (.pointer y)=false := fun _ _ => rfl
  unfold writesNodePodProbe
  simp [hne]

theorem updateNodePodProbes_of_none (h : ∀ pod∈pods,pod.nodeName≠npp.name) :
    updateNodePodProbes convert m probes pods npp=npp := by
  have hno : pods.filter (fun pod => pod.nodeName=npp.name)=[] := by
    rw [filter_eq_nil_iff]
    exact fun pod hp => by simpa using h pod hp
  unfold updateNodePodProbes
  rw [hno]
  rfl

theorem writes_sync_eq_nil_iff {c : Cluster} {a : Attempt} :
    writes convert m probes (sync convert m probes c a) a=[] ↔
      ∀ npp∈c.state.npps,∀ pod∈getMatchingPods m a.selector a.pods,pod.nodeName≠npp.name := by
  have hfin : podProbeMarkerFinalizer∈(sync convert m probes c a).state.finalizers := by
    unfold sync syncPodProbeMarker
    dsimp only
    rw [if_neg Bool.false_ne_true]
    dsimp only
    split_ifs with h
    · exact h
    · exact mem_append_right _ mem_cons_self
  unfold writes
  dsimp only
  rw [if_pos hfin,if_pos ⟨rfl,rfl⟩,nil_append,append_nil,map_eq_nil_iff,filter_eq_nil_iff]
  simp only [writesNodePodProbe_iff,not_exists,not_and]
  exact forall_mem_map

/-- A run puts the NodePodProbes in step with the spec, and the next one has nothing to write,
exactly if there is no NodePodProbe for the node of a matched pod. -/
theorem inStep_iff (c : Cluster) (a : Attempt) :
    InStep convert m probes c a ↔
      ∀ npp∈c.state.npps,∀ pod∈getMatchingPods m a.selector a.pods,pod.nodeName≠npp.name := by
  refine ⟨fun h => writes_sync_eq_nil_iff.mp h.2.2,fun h => ?_⟩
  have hnpps : (sync convert m probes c a).state.npps=c.state.npps :=
    (map_congr_left fun npp hn => updateNodePodProbes_of_none (h npp hn)).trans (map_id _)
  unfold InStep
  dsimp only
  rw [hnpps]
  refine ⟨?_,?_,writes_sync_eq_nil_iff.mpr h⟩
  · exact fun npp hn pod hp hnode => absurd hnode (h npp hn pod hp)
  · exact forall₂_same.mpr fun npp _ => ⟨rfl,0,(append_nil _).symm⟩

def webCluster (probe : String) : Cluster :=
  ⟨⟨[⟨"node-1",[⟨"pod", "default", "uid", "10.0.0.1",
    [⟨probeName deletedMarker.name probe.toList, "app", "exec"⟩]⟩]⟩],[podProbeMarkerFinalizer]⟩,1,1,1⟩

def webProbes : List PodContainerProbe := [⟨"check".toList, "app", "exec"⟩]

def webPod : Attempt := oneAttempt [runningPod "node-1"]

def givenPort (_ : Pod) (probe : PodContainerProbe) : Option String := some probe.probe

/-- A probe that was renamed stays beside the new one; and where the probes are right already, the
NodePodProbe is written all the same. -/
theorem renamed_probe_stays :
    ¬RecordsSpec givenPort deletedMarker webProbes [runningPod "node-1"]
        (sync givenPort deletedMarker webProbes (webCluster "old") webPod).state.npps ∧
      sync givenPort deletedMarker webProbes (webCluster "check") webPod=webCluster "check" ∧
      ¬InStep givenPort deletedMarker webProbes (webCluster "check") webPod := by
  refine ⟨fun h => ?_,rfl,fun h => absurd h.2.2 (by decide +kernel)⟩
  have hnpp:=h _ mem_cons_self _ mem_cons_self rfl
  have hold:=(hnpp.2 _ mem_cons_self rfl ⟨"web#old".toList, "app", "exec"⟩).mp (by decide +kernel)
  revert hold
  decide +kernel

end Kruise.PodProbeMarker
