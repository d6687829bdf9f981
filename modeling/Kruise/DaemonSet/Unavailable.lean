import Kruise.DaemonSet.Nodes

/-!
# What a rolling update without surge does to the serving nodes

The update stops every old pod that is not available, outside of `maxUnavailable`, and its charges
leave these nodes out, as they do those kept from the update. So the nodes without service go
beyond the limit unless the charges cover all of those nodes or the update stays small.
-/

namespace Kruise.DaemonSet

open Lib.Keyed Lib.Quota Lib.Counting List
open CloneSet (isPodHooked)

variable {ds : DaemonSetSpec} {now : Int} {hash : String} {nodes : List Node} {pods : List Pod}

def serves (ds : DaemonSetSpec) (now : Int) (stopped : List String) (p : Pod) : Bool :=
  !p.terminating&&isPodAvailable ds now p&&decide (p.name∉stopped)

def unserved (ds : DaemonSetSpec) (now : Int) (pods : List Pod) (stopped : List String) (node : Node) : Bool :=
  shouldRun ds node&&!(podsOnNode pods node.name).any (serves ds now stopped)

/- The nodes without service once the pods in `stopped` are deleted or being updated. -/
def unservedNodes (ds : DaemonSetSpec) (now : Int) (nodes : List Node) (pods : List Pod)
    (stopped : List String) : Nat :=
  nodes.countP (unserved ds now pods stopped)

def desiredNames (ds : DaemonSetSpec) (nodes : List Node) : List String :=
  (nodes.filter (shouldRun ds)).map Node.name

def podsToStop (order : MapOrder) (ds : DaemonSetSpec) (now : Int) (nodes : List Node)
    (pods : List Pod) (hash : String) : List String :=
  match updatedDesiredNodeCounts ds nodes with
  | none => []
  | some (_,maxUnavailable) =>
    podsToReplace ds now hash pods maxUnavailable
      (order.order (nodesToUpdate ds nodes pods hash))

theorem nodeUpdate_spec (onNode : List Pod) :
    match nodeUpdate ds now hash onNode with
    | .replace p => findUpdatedPodsOnNode ds hash onNode=some (none,some p) ∧ isPodAvailable ds now p=false
    | .candidate p => findUpdatedPodsOnNode ds hash onNode=some (none,some p) ∧ isPodAvailable ds now p
    | .charge _ => True := by
  unfold nodeUpdate
  rcases findUpdatedPodsOnNode ds hash onNode with _ | ⟨newPod,oldPod⟩
  · trivial
  · dsimp only
    split_ifs
    · trivial
    · rcases newPod with _ | q
      · rcases oldPod with _ | p
        · trivial
        · cases hav : isPodAvailable ds now p <;> simp [hav]
      · trivial

theorem updateCandidate_some {n s : String} (h : updateCandidate ds now hash pods n=some s) :
    ∃ p,findUpdatedPodsOnNode ds hash (podsOnNode pods n)=some (none,some p) ∧
      isPodAvailable ds now p ∧ p.name=s := by
  have hspec:=@nodeUpdate_spec ds now hash (podsOnNode pods n)
  unfold updateCandidate at h
  cases hu : nodeUpdate ds now hash (podsOnNode pods n) <;> rw [hu] at h hspec <;> cases h
  exact ⟨_,hspec.1,hspec.2,rfl⟩

theorem replacement_some {n s : String} (h : replacement ds now hash pods n=some s) :
    ∃ p,findUpdatedPodsOnNode ds hash (podsOnNode pods n)=some (none,some p) ∧
      isPodAvailable ds now p=false ∧ p.name=s := by
  have hspec:=@nodeUpdate_spec ds now hash (podsOnNode pods n)
  unfold replacement at h
  cases hu : nodeUpdate ds now hash (podsOnNode pods n) <;> rw [hu] at h hspec <;> cases h
  exact ⟨_,hspec.1,hspec.2,rfl⟩

section

variable (hpods : (pods.map fun p => p.name).Nodup) {maxUnavailable : Int} {nodeNames : List String}

def stoppedNodes (ds : DaemonSetSpec) (now : Int) (hash : String) (pods : List Pod)
    (maxUnavailable : Int) (nodeNames : List String) : List String :=
  grantees (unavailableCharge ds now hash pods) (updateCandidate ds now hash pods)
    maxUnavailable nodeNames

include hpods in
theorem serves_podsToReplace {p : Pod} {n : String} (hp : p∈podsOnNode pods n) :
    serves ds now (podsToReplace ds now hash pods maxUnavailable nodeNames) p = (serves ds now [] p &&
        !decide (n∈stoppedNodes ds now hash pods maxUnavailable nodeNames)) := by
  obtain ⟨hm,htgt⟩ := mem_podsOnNode.mp hp
  have hsame : ∀ {q : Pod} {n' : String},q∈podsOnNode pods n' → q.name=p.name → q=p ∧ n'=n := by
    intro q n' hq hname
    obtain ⟨hq,hq'⟩ := mem_podsOnNode.mp hq
    obtain rfl := inj_on_of_nodup_map hpods hq hm hname
    exact ⟨rfl,Option.some.inj (hq'.symm.trans htgt)⟩
  by_cases hserv : p.terminating=false ∧ isPodAvailable ds now p
  · have hi : p.name∈podsToReplace ds now hash pods maxUnavailable nodeNames ↔
        n∈stoppedNodes ds now hash pods maxUnavailable nodeNames := by
      rw [podsToReplace_eq,mem_append]
      constructor
      · rintro (h | h)
        · -- a replaced pod is not available
          obtain ⟨n',-,hr⟩ := mem_filterMap.mp h
          obtain ⟨q,hq,hun,hname⟩ := replacement_some hr
          obtain ⟨rfl,-⟩ := hsame (old_of_findUpdated hq rfl).1 hname
          rw [hun] at hserv
          cases hserv.2
        · obtain ⟨n',hn',hcand⟩ := mem_filterMap.mp h
          obtain ⟨q,hq,-,hname⟩ := updateCandidate_some hcand
          obtain ⟨-,rfl⟩ := hsame (old_of_findUpdated hq rfl).1 hname
          exact hn'
      · intro hn
        refine .inr (mem_filterMap.mpr ⟨n,hn,?_⟩)
        obtain ⟨s,hs⟩ := Option.isSome_iff_exists.mp (isSome_of_mem_grantees hn)
        obtain ⟨q,hq,-,rfl⟩ := updateCandidate_some hs
        rcases mem_of_findUpdated hq hp hserv.1 with h | h
        · cases h
        · rw [hs,Option.some.inj h]
    simp [serves,hserv.1,hserv.2,hi]
  · have hf : ∀ stopped,serves ds now stopped p=false := by
      intro stopped
      unfold serves
      cases ht : p.terminating with
      | true => rfl
      | false =>
        have hav : isPodAvailable ds now p=false := by
          simpa [ht] using hserv
        rw [hav]
        rfl
    rw [hf,hf,Bool.false_and]

include hpods in
theorem unserved_podsToReplace (node : Node) :
    unserved ds now pods (podsToReplace ds now hash pods maxUnavailable nodeNames) node =
      (unserved ds now pods [] node||(shouldRun ds node &&
        decide (node.name∈stoppedNodes ds now hash pods maxUnavailable nodeNames))) := by
  have ha : (podsOnNode pods node.name).any
        (serves ds now (podsToReplace ds now hash pods maxUnavailable nodeNames)) =
      ((podsOnNode pods node.name).any (serves ds now []) &&
        !decide (node.name∈stoppedNodes ds now hash pods maxUnavailable nodeNames)) := by
    rw [Bool.eq_iff_iff,Bool.and_eq_true,any_eq_true,any_eq_true]
    constructor
    · rintro ⟨p,hp,hs⟩
      rw [serves_podsToReplace hpods hp,Bool.and_eq_true] at hs
      exact ⟨⟨p,hp,hs.1⟩,hs.2⟩
    · rintro ⟨⟨p,hp,hs⟩,hn⟩
      refine ⟨p,hp,?_⟩
      rw [serves_podsToReplace hpods hp,hs,hn]
      rfl
  unfold unserved
  rw [ha]
  cases shouldRun ds node <;> simp

theorem served_of_stopped {node : Node} (h : node.name∈stoppedNodes ds now hash pods maxUnavailable nodeNames) :
    unserved ds now pods [] node=false := by
  obtain ⟨s,hs⟩ := Option.isSome_iff_exists.mp (isSome_of_mem_grantees h)
  obtain ⟨p,hp,hav,rfl⟩ := updateCandidate_some hs
  obtain ⟨hm,hl,-⟩ := old_of_findUpdated hp rfl
  have ha : (podsOnNode pods node.name).any (serves ds now []) := by
    refine any_eq_true.mpr ⟨p,hm,?_⟩
    simp [serves,hl,hav]
  simp [unserved,ha]

include hpods in
theorem unservedNodes_podsToReplace (hn : (nodes.map Node.name).Nodup) (hnms : nodeNames.Nodup) :
    unservedNodes ds now nodes pods (podsToReplace ds now hash pods maxUnavailable nodeNames) =
      unservedNodes ds now nodes pods [] + (stoppedNodes ds now hash pods maxUnavailable nodeNames).countP
          (fun n => decide (n∈desiredNames ds nodes)) := by
  have hd : (desiredNames ds nodes).Nodup :=
    hn.sublist (filter_sublist.map Node.name)
  have hstopped : (stoppedNodes ds now hash pods maxUnavailable nodeNames).Nodup :=
    hnms.sublist (grantees_sublist nodeNames)
  have hspl:=countP_split (unserved ds now pods [])
    (unserved ds now pods (podsToReplace ds now hash pods maxUnavailable nodeNames)) nodes
  have hk : nodes.countP (fun node => unserved ds now pods [] node &&
        unserved ds now pods (podsToReplace ds now hash pods maxUnavailable nodeNames) node) =
      unservedNodes ds now nodes pods [] := by
    refine countP_congr fun node _ => ?_
    rw [unserved_podsToReplace hpods]
    cases unserved ds now pods [] node <;> simp
  have hl : nodes.countP (fun node => !unserved ds now pods [] node &&
        unserved ds now pods (podsToReplace ds now hash pods maxUnavailable nodeNames) node) =
      (desiredNames ds nodes).countP
        fun n => decide (n∈stoppedNodes ds now hash pods maxUnavailable nodeNames) := by
    unfold desiredNames
    rw [countP_map,countP_filter]
    refine countP_congr fun node _ => ?_
    rw [unserved_podsToReplace hpods]
    by_cases hm : node.name∈stoppedNodes ds now hash pods maxUnavailable nodeNames
    · simp [served_of_stopped hm,hm,Bool.and_comm]
    · cases unserved ds now pods [] node <;> simp [hm]
  rw [hk,hl,countP_mem_comm hd hstopped] at hspl
  exact hspl.symm

end

theorem mem_inPlaceUpdatePods {api : InPlaceApi} {podNames : List String} {s : String}
    (h : s∈(inPlaceUpdatePods api ds pods podNames).1 ∨
      s∈(inPlaceUpdatePods api ds pods podNames).2.1) : s∈podNames := by
  have hfnd : ∀ {p : Pod} {f : Pod → Bool} {k : Nat},p∈(podNames.filterMap fun n =>
      (findKey (fun p : Pod => p.name) n pods).filter f).take k → p.name∈podNames := by
    intro p f k hp
    obtain ⟨n,hn,hfil⟩ := mem_filterMap.mp (mem_of_mem_take hp)
    obtain ⟨hf,-⟩ := Option.filter_eq_some_iff.mp hfil
    rw [(findKey_some hf).2]
    exact hn
  rcases h with h | h
  · obtain ⟨p,hp,rfl⟩ := mem_map.mp h
    exact hfnd (mem_filter.mp hp).1
  · rcases mem_append.mp h with h | h
    · exact (mem_filter.mp h).1
    · obtain ⟨p,hp,rfl⟩ := mem_map.mp h
      exact hfnd (mem_filter.mp hp).1

def Requests.stopped (r : Requests) : List String :=
  r.inPlaceUpdated++(r.preparingDelete++r.deleted)

theorem stopped_subset_podsToStop {api : InPlaceApi} {order : MapOrder} {r : Requests}
    {maxUnavailable : Int} (hcnts : updatedDesiredNodeCounts ds nodes=some (0,maxUnavailable))
    (h : rollingUpdate api order ds now nodes pods hash=some r) :
    r.stopped ⊆ podsToStop order ds now nodes pods hash := by
  intro s hs
  unfold Requests.stopped at hs
  rw [mem_append,mem_append] at hs
  unfold rollingUpdate at h
  unfold podsToStop
  rw [hcnts] at h ⊢
  dsimp only [Option.bind_some] at h ⊢
  rw [if_pos rfl] at h
  split_ifs at h
  · cases h
    rcases hs with hs | hs | hs
    · exact mem_inPlaceUpdatePods (.inl hs)
    · cases hs
    · cases hs
  · cases h
    rcases hs with hs | hs
    · exact mem_inPlaceUpdatePods (.inl hs)
    · have hd:=@mem_syncNodes ds pods _ [] s hs
      exact mem_inPlaceUpdatePods (.inr hd)
  · cases h
    rcases hs with hs | hs
    · cases hs
    · exact mem_syncNodes hs

theorem podsToStop_subset_names (order : MapOrder) :
    podsToStop order ds now nodes pods hash ⊆ pods.map fun p => p.name := by
  intro s hs
  have ho : ∀ {p : Pod} {n : String}, findUpdatedPodsOnNode ds hash (podsOnNode pods n)=some (none,some p) →
      p.name∈pods.map fun p => p.name := by
    intro p n hf
    have hp:=(old_of_findUpdated hf rfl).1
    exact mem_map_of_mem (mem_podsOnNode.mp hp).1
  unfold podsToStop at hs
  cases hcnts : updatedDesiredNodeCounts ds nodes with
  | none => simp [hcnts] at hs
  | some counts =>
    simp only [hcnts] at hs
    rw [podsToReplace_eq,mem_append] at hs
    rcases hs with hs | hs
    · obtain ⟨n,-,hr⟩ := mem_filterMap.mp hs
      obtain ⟨p,hp,-,rfl⟩ := replacement_some hr
      exact ho hp
    · obtain ⟨n,-,hcand⟩ := mem_filterMap.mp hs
      obtain ⟨p,hp,-,rfl⟩ := updateCandidate_some hcand
      exact ho hp

def deleteOnly : InPlaceApi where
  canUpdateInPlace _ := false
  update _ := .notInPlace

theorem rollingUpdate_deleteOnly (order : MapOrder) {maxUnavailable : Int}
    (hcnts : updatedDesiredNodeCounts ds nodes=some (0,maxUnavailable)) :
    rollingUpdate deleteOnly order ds now nodes pods hash =
      some (syncNodes ds pods (podsToStop order ds now nodes pods hash) []) := by
  have hip : ∀ podNames,inPlaceUpdatePods deleteOnly ds pods podNames=([],podNames,false) := by
    simp [inPlaceUpdatePods,deleteOnly]
  unfold rollingUpdate podsToStop
  simp only [hcnts,Option.bind_some,if_true,hip,Bool.false_eq_true,if_false]
  split_ifs <;> rfl

theorem subset_stopped_syncNodes {podsToDelete : List String} (hn : podsToDelete ⊆ pods.map fun p => p.name)
    (hburst : (podsToDelete.length : Int)≤getBurstReplicas ds) :
    podsToDelete ⊆ (syncNodes ds pods podsToDelete []).stopped := by
  intro s hs
  obtain ⟨p,hp⟩ := findKey_isSome (hn hs)
  unfold Requests.stopped syncNodes
  dsimp only
  rw [nil_append,mem_append,mem_filter,take_of_length_le,mem_filter]
  · simp only [hs,hp,Option.any_some,Option.isNone_some,Bool.and_false,Bool.not_false, Bool.and_true,true_and]
    cases ds.preDelete.isSome&&isPodHooked ds.preDelete p.toPod <;> simp
  · have hle:=@length_filter_le _ (fun n => !(ds.preDelete.isSome &&
      (findKey (fun p : Pod => p.name) n pods).any fun p => isPodHooked ds.preDelete p.toPod) &&
      !(ds.preDelete.isSome&&(findKey (fun p : Pod => p.name) n pods).isNone)) podsToDelete
    omega

/- Over the nodes left to the update, one for each that has surplus pods, no pod or only pods on
their way out, an old and a new pod, or a new pod that is not available or on its way out. -/
def chargedUnavailable (ds : DaemonSetSpec) (now : Int) (nodes : List Node) (pods : List Pod)
    (hash : String) : Nat :=
  ((nodesToUpdate ds nodes pods hash).map (unavailableCharge ds now hash pods)).sum

def servedByOld (ds : DaemonSetSpec) (now : Int) (nodes : List Node) (pods : List Pod) (hash : String) : Nat :=
  (nodesToUpdate ds nodes pods hash).countP fun n =>
    (updateCandidate ds now hash pods n).isSome&&decide (n∈desiredNames ds nodes)

def stoppedServing (ds : DaemonSetSpec) (now : Int) (nodes : List Node) (pods : List Pod)
    (hash : String) (maxUnavailable : Int) (order : MapOrder) : Nat :=
  (stoppedNodes ds now hash pods maxUnavailable (order.order (nodesToUpdate ds nodes pods hash))).countP
    fun n => decide (n∈desiredNames ds nodes)

theorem stopped_le (ds : DaemonSetSpec) (now : Int) (nodes : List Node) (pods : List Pod) (hash : String)
    (maxUnavailable : Int) (order : MapOrder) :
    stoppedServing ds now nodes pods hash maxUnavailable order ≤
      min (maxUnavailable-chargedUnavailable ds now nodes pods hash).toNat
        (servedByOld ds now nodes pods hash) := by
  have hperm:=order.perm (nodesToUpdate ds nodes pods hash)
  have hsum : ((order.order (nodesToUpdate ds nodes pods hash)).map
      (unavailableCharge ds now hash pods)).sum=chargedUnavailable ds now nodes pods hash :=
    (hperm.map _).sum_eq
  refine le_min ?_ ?_
  · refine countP_le_length.trans ?_
    rw [← hsum]
    exact length_grantees_le _
  · unfold servedByOld
    rw [← hperm.countP_eq]
    have hsub : (stoppedNodes ds now hash pods maxUnavailable
        (order.order (nodesToUpdate ds nodes pods hash))).Sublist
          (order.order (nodesToUpdate ds nodes pods hash)) := grantees_sublist _
    refine le_trans ?_ hsub.countP_le
    refine countP_mono_left ?_
    intro n hn hr
    rw [isSome_of_mem_grantees hn,Bool.true_and]
    exact hr

/- Visits the nodes that would lose their service first. -/
def worstOrder (bad : String → Bool) : MapOrder where
  order keys := keys.filter bad++keys.filter fun n => !bad n
  perm keys := filter_append_perm bad keys

theorem stopped_worstOrder (maxUnavailable : Int) : stoppedServing ds now nodes pods hash maxUnavailable
        (worstOrder fun n => (updateCandidate ds now hash pods n).isSome&&decide (n∈desiredNames ds nodes)) =
      min (maxUnavailable-chargedUnavailable ds now nodes pods hash).toNat
        (servedByOld ds now nodes pods hash) := by
  refine le_antisymm (stopped_le ds now nodes pods hash maxUnavailable _) ?_
  let bad (n : String) : Bool :=
    (updateCandidate ds now hash pods n).isSome&&decide (n∈desiredNames ds nodes)
  have hsum : (((worstOrder bad).order (nodesToUpdate ds nodes pods hash)).map
      (unavailableCharge ds now hash pods)).sum=chargedUnavailable ds now nodes pods hash :=
    (((worstOrder bad).perm _).map _).sum_eq
  have hf : ((nodesToUpdate ds nodes pods hash).filter bad).filter
      (fun n => (updateCandidate ds now hash pods n).isSome) = (nodesToUpdate ds nodes pods hash).filter bad := by
    refine filter_eq_self.mpr ?_
    intro n hn
    exact (Bool.and_eq_true_iff.mp (mem_filter.mp hn).2).1
  have ha : ∀ n∈(nodesToUpdate ds nodes pods hash).filter bad,
      decide (n∈desiredNames ds nodes) := by
    intro n hn
    exact (Bool.and_eq_true_iff.mp (mem_filter.mp hn).2).2
  unfold stoppedServing stoppedNodes grantees
  rw [hsum]
  change _≤((((nodesToUpdate ds nodes pods hash).filter bad++_).filter _).take _).countP _
  rw [filter_append,hf,take_append,countP_append]
  refine le_trans ?_ (Nat.le_add_right _ _)
  rw [countP_eq_length.mpr fun n hn => ha n (mem_of_mem_take hn),length_take, ← countP_eq_length_filter]
  exact le_rfl

theorem unservedNodes_mono {stopped stopped' : List String} (h : stopped ⊆ stopped') :
    unservedNodes ds now nodes pods stopped≤unservedNodes ds now nodes pods stopped' := by
  refine countP_mono_left fun node _ hu => ?_
  unfold unserved at hu ⊢
  rw [Bool.and_eq_true,Bool.not_eq_true',any_eq_false] at hu ⊢
  refine ⟨hu.1,fun p hp hserv => hu.2 p hp ?_⟩
  unfold serves at hserv ⊢
  rw [Bool.and_eq_true,decide_eq_true_eq] at hserv ⊢
  exact ⟨hserv.1,fun hm => hserv.2 (h hm)⟩

def KeepsMaxUnavailable (ds : DaemonSetSpec) (now : Int) (nodes : List Node) (pods : List Pod)
    (hash : String) (maxUnavailable : Int) : Prop :=
  ∀ (api : InPlaceApi) (order : MapOrder) (r : Requests),
    rollingUpdate api order ds now nodes pods hash=some r →
    (unservedNodes ds now nodes pods r.stopped : Int) ≤
      max (unservedNodes ds now nodes pods [] : Int) maxUnavailable

/- Nothing is stopped within the limit, or the charges cover every node without service, or all the
stops together still fit. -/
def WithinMaxUnavailable (ds : DaemonSetSpec) (now : Int) (nodes : List Node) (pods : List Pod)
    (hash : String) (maxUnavailable : Int) : Prop :=
  servedByOld ds now nodes pods hash=0 ∨
  maxUnavailable≤chargedUnavailable ds now nodes pods hash ∨
  unservedNodes ds now nodes pods []≤chargedUnavailable ds now nodes pods hash ∨
  (unservedNodes ds now nodes pods [] : Int)+servedByOld ds now nodes pods hash ≤ maxUnavailable

theorem unservedNodes_podsToStop (hn : (nodes.map Node.name).Nodup)
    (hpods : (pods.map fun p => p.name).Nodup) {maxUnavailable : Int}
    (hcnts : updatedDesiredNodeCounts ds nodes=some (0,maxUnavailable)) (order : MapOrder) :
    unservedNodes ds now nodes pods (podsToStop order ds now nodes pods hash) =
      unservedNodes ds now nodes pods []+stoppedServing ds now nodes pods hash maxUnavailable order := by
  unfold podsToStop
  rw [hcnts]
  exact unservedNodes_podsToReplace hpods hn ((order.perm _).nodup_iff.mpr nodup_nodesToUpdate)

/-- The condition is enough for every call, and needed for every call when the burst limit does not
cut what the update chooses. -/
theorem rollingUpdate_keeps_maxUnavailable (hnodes : (nodes.map Node.name).Nodup)
    (hpods : (pods.map fun p => p.name).Nodup) {maxUnavailable : Int}
    (hcounts : updatedDesiredNodeCounts ds nodes=some (0,maxUnavailable)) :
    (WithinMaxUnavailable ds now nodes pods hash maxUnavailable →
      KeepsMaxUnavailable ds now nodes pods hash maxUnavailable) ∧
    ((∀ order : MapOrder, ((podsToStop order ds now nodes pods hash).length : Int)≤getBurstReplicas ds) →
      KeepsMaxUnavailable ds now nodes pods hash maxUnavailable →
      WithinMaxUnavailable ds now nodes pods hash maxUnavailable) := by
  constructor
  · intro hwi api order r hr
    have hm:=@unservedNodes_mono ds now nodes pods _ _ (stopped_subset_podsToStop hcounts hr)
    have ha:=@unservedNodes_podsToStop ds now hash nodes pods hnodes hpods _ hcounts order
    have hle:=stopped_le ds now nodes pods hash maxUnavailable order
    unfold WithinMaxUnavailable at hwi
    omega
  · intro hburst hkp
    -- the order that stops as many serving pods as any, and no update in place
    let order:=worstOrder fun n => (updateCandidate ds now hash pods n).isSome &&
      decide (n∈desiredNames ds nodes)
    have hw:=hkp deleteOnly order _ (rollingUpdate_deleteOnly order hcounts)
    have hm:=@unservedNodes_mono ds now nodes pods _ _
      (subset_stopped_syncNodes (podsToStop_subset_names order) (hburst order))
    rw [unservedNodes_podsToStop hnodes hpods hcounts order,stopped_worstOrder] at hm
    unfold WithinMaxUnavailable
    omega

def oneUnavailable : DaemonSetSpec := plainDaemonSet ⟨.standard,some (.int 1),none,none,none⟩

/-- One node has no available pod already; the update deletes the pod of the other one as well. -/
theorem stops_beyond_maxUnavailable :
    let nodes:=[plainNode "a",plainNode "b"]
    let pods:=[daemonPod "ds-a" "a" "old" false,daemonPod "ds-b" "b" "old" true]
    updatedDesiredNodeCounts oneUnavailable nodes=some (0,1) ∧ unservedNodes oneUnavailable 1 nodes pods []=1 ∧
      (rollingUpdate deleteOnly sortedOrder oneUnavailable 1 nodes pods "new").map
        (fun r => unservedNodes oneUnavailable 1 nodes pods r.stopped)=some 2 := by
  decide +kernel

theorem stops_within_maxUnavailable :
    let nodes:=[plainNode "a",plainNode "b"]
    let pods:=[daemonPod "ds-a" "a" "old" true,daemonPod "ds-b" "b" "old" true]
    KeepsMaxUnavailable oneUnavailable 1 nodes pods "new" 1 := by
  intro nodes pods
  have hn : (nodes.map Node.name).Nodup := by decide +kernel
  have hpods : (pods.map fun p => p.name).Nodup := by decide +kernel
  have hcnts : updatedDesiredNodeCounts oneUnavailable nodes=some (0,1) := by decide +kernel
  have hcov : unservedNodes oneUnavailable 1 nodes pods [] ≤
      chargedUnavailable oneUnavailable 1 nodes pods "new" := by decide +kernel
  exact (rollingUpdate_keeps_maxUnavailable hn hpods hcnts).1 (.inr (.inr (.inl hcov)))

end Kruise.DaemonSet
