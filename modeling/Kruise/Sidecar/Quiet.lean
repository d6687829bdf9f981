import Kruise.Sidecar.Strategy

/-!
# A SidecarSet with nothing to do

`UpdateSidecarSet` and `updateSidecarSetStatus` (`sidecarset_processor.go` 67-191, 244-273, 508-620
under `pkg/controller/sidecarset`) with the requests they write. A status has a pointer to its
collision count; `inconsistentStatus` compares the pointers, and `calculateStatus` allocates a new
one each time.
-/

namespace Kruise.Sidecar

open Option

/-- The integers that are pointed to; a pointer is a position. -/
abbrev Heap := List Int

structure SidecarSetStatus where
  observedGeneration : Int
  matchedPods : Nat
  updatedPods : Nat
  readyPods : Nat
  updatedReadyPods : Nat
  latestRevision : String
  collisionCount : Option Nat
  deriving DecidableEq

/-- What a status holds, without the place of its collision count. -/
def SidecarSetStatus.values (heap : Heap) (s : SidecarSetStatus) : SidecarSetStatus × Option Int :=
  ({s with collisionCount := none},s.collisionCount.bind fun p => heap[p]?)

def int32Ptr (heap : Heap) (v : Int) : Heap × Nat := (heap++[v],heap.length)

inductive Write
  | revision (name : String)
  | updateStatus (status : SidecarSetStatus)
  | updatePod (pod : Nat)
  | upgradableCondition (pod : Nat)
  deriving DecidableEq

/-- What `registerLatestRevision` has written and returned; without a revision it has failed. -/
structure Registered where
  writes : List Write
  latestRevision : Option String
  collisionCount : Int

/-- One call: the object it gets, whose pointer is to an integer of the heap, and the answers it
receives. The upgradable condition of a pod is patched if it changes. -/
structure Visit where
  upgrade : Upgrade
  generation : Int
  notUpdate : Bool
  status : SidecarSetStatus
  registered : Registered
  allUpdated : Bool
  conditionChanged : Nat → Bool → Bool
  heap : Heap
  allocated : ∀ p,status.collisionCount=some p → p<heap.length

def inconsistentStatus (old status : SidecarSetStatus) : Bool :=
  status.observedGeneration > old.observedGeneration||status.matchedPods≠old.matchedPods ||
    status.updatedPods≠old.updatedPods||status.readyPods≠old.readyPods ||
    status.updatedReadyPods≠old.updatedReadyPods ||
    status.latestRevision≠old.latestRevision||status.collisionCount≠old.collisionCount

def updateSidecarSetStatus (old status : SidecarSetStatus) : List Write :=
  if inconsistentStatus old status then [.updateStatus status] else []

namespace Visit

variable (v : Visit) (pods : List Pod)

def calculateStatus (latest : String) : Heap × SidecarSetStatus :=
  let u:=v.upgrade
  let ready:=fun pod => isPodStateConsistent u.env u.set pod []&&isPodReady u.set pod
  let allocated:=int32Ptr v.heap v.registered.collisionCount
  (allocated.1,
    { observedGeneration := v.generation
      matchedPods := pods.length
      updatedPods := pods.countP u.isUpdated
      readyPods := pods.countP ready
      updatedReadyPods := pods.countP fun pod => ready pod&&u.isUpdated pod
      latestRevision := latest
      collisionCount := some allocated.2})

def flips : List Write :=
  if v.upgrade.set.containers.any SidecarContainer.hotUpgrade then
    (Upgrade.indexesOf (canFlip v.upgrade.env v.upgrade.set) pods).map .updatePod
  else []

def updatePods : Option (List Write) :=
  (v.upgrade.getNextUpgradePods pods).map fun next =>
    (next.2.filter (v.conditionChanged · false)).map .upgradableCondition ++
      next.1.flatMap fun i =>
        .updatePod i::if v.conditionChanged i true then [.upgradableCondition i] else []

def updateSidecarSet : Option (List Write) :=
  v.registered.latestRevision.bind fun latest =>
    let status:=(v.calculateStatus pods latest).2
    let writes:=v.registered.writes++updateSidecarSetStatus v.status status
    if !v.allUpdated then some writes
    else if v.notUpdate||status.updatedPods ≥ status.matchedPods||v.upgrade.set.updatePaused then
      some (writes++v.flips pods)
    else (v.updatePods pods).map fun rest => writes++v.flips pods++rest

/-- The second of two calls between which nothing changes: it finds the revision that the first one
has left, with nothing to register, and the status that the first one has written. -/
structure Repeats (first second : Visit) (pods : List Pod) : Prop where
  upgrade : second.upgrade=first.upgrade
  generation : second.generation=first.generation
  notUpdate : second.notUpdate=first.notUpdate
  registered : second.registered={first.registered with writes := []}
  status : ∀ latest,first.registered.latestRevision=some latest →
    second.status.values second.heap =
      (first.calculateStatus pods latest).2.values (first.calculateStatus pods latest).1

variable {v}

/-- The new pointer is not the one of the status that is compared. -/
theorem inconsistent_calculateStatus (latest : String) :
    inconsistentStatus v.status (v.calculateStatus pods latest).2 := by
  have hne : (v.calculateStatus pods latest).2.collisionCount≠v.status.collisionCount := by
    intro heq
    have hlt : v.heap.length<v.heap.length := v.allocated _ heq.symm
    omega
  unfold inconsistentStatus
  rw [decide_eq_true hne,Bool.or_true]

theorem updateStatus_mem_updateSidecarSet {latest : String} {writes : List Write}
    (hl : v.registered.latestRevision=some latest) (h : v.updateSidecarSet pods=some writes) :
    .updateStatus (v.calculateStatus pods latest).2∈writes := by
  have hsts : updateSidecarSetStatus v.status (v.calculateStatus pods latest).2 =
      [.updateStatus (v.calculateStatus pods latest).2] :=
    if_pos (inconsistent_calculateStatus pods latest)
  unfold updateSidecarSet at h
  rw [hl,bind_some] at h
  dsimp only at h
  rw [hsts] at h
  split_ifs at h
  · simp [← some.inj h]
  · simp [← some.inj h]
  · obtain ⟨rest,_,rfl⟩ := map_eq_some_iff.mp h
    simp

theorem exists_updateSidecarSet {latest : String} (hl : v.registered.latestRevision=some latest) :
    ∃ writes,v.updateSidecarSet pods=some writes := by
  obtain ⟨sorted,rest,_,_,hn⟩ := v.upgrade.getNextUpgradePods_eq pods
  unfold updateSidecarSet
  rw [hl,bind_some]
  dsimp only
  split_ifs
  · exact ⟨_,rfl⟩
  · exact ⟨_,rfl⟩
  · rw [updatePods,hn]
    exact ⟨_,rfl⟩

/-- A second call after one that came through, with nothing changed in between, always updates the
status. -/
theorem repeated_visit_writes {first second : Visit} {writes : List Write}
    (hfirst : first.updateSidecarSet pods=some writes) (hagain : Repeats first second pods) :
    ∃ status writes',second.updateSidecarSet pods=some writes' ∧ .updateStatus status∈writes' := by
  obtain ⟨latest,hl,_⟩ := bind_eq_some_iff.mp hfirst
  have hsame : second.registered.latestRevision=some latest := by
    rw [hagain.registered]
    exact hl
  obtain ⟨writes',hsnd⟩ := exists_updateSidecarSet pods hsame
  exact ⟨_,writes',hsnd,updateStatus_mem_updateSidecarSet pods hsame hsnd⟩

def emptyStatus : SidecarSetStatus := ⟨0,0,0,0,0, "",none⟩

def agentDone : Pod :=
  {updatePodSidecarContainer tagImages Upgrade.agentSet Upgrade.agentPod with
    statuses := [⟨"web",true, "web", "id-web"⟩,⟨"agent",true, "v2", "id-2"⟩]}

def firstVisit : Visit :=
  ⟨Upgrade.agentUpgrade (.int 1),1,false,emptyStatus,⟨[.revision "agent-a"],some "agent-a",0⟩,
    true,fun _ _ => true,[],fun _ h => absurd h (Option.some_ne_none _).symm⟩

/-- The status is read into another place. -/
def secondVisit : Visit :=
  ⟨Upgrade.agentUpgrade (.int 1),1,false,⟨1,1,1,1,1, "agent-a",some 1⟩,
    ⟨[],some "agent-a",0⟩,true,fun _ _ => true,[0,0],fun p h => by
      cases h
      decide⟩

theorem secondVisit_repeats : Repeats firstVisit secondVisit [agentDone] where
  upgrade := rfl
  generation := rfl
  notUpdate := rfl
  registered := rfl
  status := by
    decide +kernel

theorem settled_agent_written_again :
    Repeats firstVisit secondVisit [agentDone] ∧ secondVisit.updateSidecarSet [agentDone] =
        some [.updateStatus ⟨1,1,1,1,1, "agent-a",some 2⟩] :=
  ⟨secondVisit_repeats,by decide +kernel⟩

theorem settled_agent_status_updated :
    ∃ status writes',secondVisit.updateSidecarSet [agentDone]=some writes' ∧ .updateStatus status∈writes' := by
  obtain ⟨writes,hf⟩ := exists_updateSidecarSet (v := firstVisit) [agentDone] rfl
  exact repeated_visit_writes [agentDone] hf secondVisit_repeats

end Visit

end Kruise.Sidecar
