import Kruise.DaemonSet.Nodes

/-!
# Managing the daemon pods of the nodes

`manage` (`daemonset_controller.go` 632-675) and `podsShouldBeOnNode` (838-957). The back-off for
failed pods is known by node; a failed pod that is deleted puts its node into back-off.
-/

namespace Kruise.DaemonSet

open Lib.Keyed List

/- `podByCreationTimestampAndPhase`: scheduled pods first, then by age, then by name. -/
def podBefore (p q : Pod) : Prop :=
  if p.scheduled≠q.scheduled then p.scheduled=true
  else if p.creationTimestamp=q.creationTimestamp then p.name≤q.name
  else p.creationTimestamp<q.creationTimestamp

instance : DecidableRel podBefore := fun p q => by
  unfold podBefore
  infer_instance

def splitRunning : Bool → List Pod → List Pod × List String
  | _,[] => ([],[])
  | inBackoff,pod::pods =>
    if pod.terminating then splitRunning inBackoff pods
    else if pod.phase=.failed then
      if inBackoff then splitRunning inBackoff pods
      else
        let rest:=splitRunning true pods
        (rest.1,pod.name::rest.2)
    else if isPodPreDeleting pod then
      let rest:=splitRunning inBackoff pods
      (rest.1,pod.name::rest.2)
    else
      let rest:=splitRunning inBackoff pods
      (pod::rest.1,rest.2)

/- The oldest pod with the current hash, the oldest without it, and the names of the others. -/
def oldestByHash (hash : String) : List Pod → Option Pod → Option Pod → List String →
    Option Pod × Option Pod × List String
  | [],newPod,oldPod,rest => (newPod,oldPod,rest)
  | pod::pods,newPod,oldPod,rest =>
    if pod.revisionHash=hash then
      if newPod.isNone then oldestByHash hash pods (some pod) oldPod rest
      else oldestByHash hash pods newPod oldPod (rest++[pod.name])
    else if oldPod.isNone then oldestByHash hash pods newPod (some pod) rest
    else oldestByHash hash pods newPod oldPod (rest++[pod.name])

def surplusPods (ds : DaemonSetSpec) (now : Int) (hash : String) (running : List Pod) : List String :=
  let split:=oldestByHash hash (running.insertionSort podBefore) none none []
  split.2.2++match split.1,split.2.1 with
    | some newPod,some oldPod =>
      if !isPodReady oldPod then [oldPod.name]
      else if isPodAvailable ds now newPod then [oldPod.name]
      else []
    | _,_ => []

def podsShouldBeOnNode (ds : DaemonSetSpec) (now : Int) (inBackoff : String → Bool) (hash : String)
    (pods : List Pod) (node : Node) : List String × List String :=
  let daemonPods:=podsOnNode pods node.name
  let (run,continueRunning) := nodeShouldRunDaemonPod node ds
  if run&&daemonPods.isEmpty then ([node.name],[])
  else if continueRunning then
    let (running,failed) := splitRunning (inBackoff node.name) daemonPods
    if !allowSurge ds then
      ([],failed++(running.insertionSort podBefore).tail.map (·.name))
    else if running.length≤1 then
      (if running.length=0&&run then [node.name] else [],failed)
    else ([],failed++surplusPods ds now hash running)
  else ([],(daemonPods.filter fun p => !p.terminating).map (·.name))

def getUnscheduledPodsWithoutNode (nodes : List Node) (pods : List Pod) : List String :=
  (pods.filter fun p =>
    p.targetNode.any (fun n => n∉nodes.map Node.name)&&!p.scheduled).map (·.name)

def getNodesNeedingPods (newPodsNum desire partition : Int) (progressive : Bool)
    (nodesNeedingPods : List String) : List String :=
  if !progressive then nodesNeedingPods.insertionSort (· ≤ ·)
  else
    let partition:=max (min partition desire) 0
    let maxCreate:=max (desire-newPodsNum-partition) 0
    (nodesNeedingPods.insertionSort (· ≤ ·)).take maxCreate.toNat

def manage (ds : DaemonSetSpec) (now : Int) (inBackoff : String → Bool) (hash : String)
    (nodes : List Node) (pods : List Pod) : Requests :=
  let onNodes:=nodes.map (podsShouldBeOnNode ds now inBackoff hash pods)
  let nodesNeedingDaemonPods:=onNodes.flatMap Prod.fst
  let podsToDelete:=onNodes.flatMap Prod.snd++getUnscheduledPodsWithoutNode nodes pods
  let nodesDesireScheduled:=nodes.countP (shouldRun ds)
  let newPodCount:=nodes.countP fun node =>
    (findUpdatedPodsOnNode ds hash (podsOnNode pods node.name)).any fun found => found.1.isSome
  let partition:=(ds.rolling.bind (·.partition)).getD 0
  syncNodes ds pods podsToDelete
    (if partition≠0 then
      getNodesNeedingPods newPodCount nodesDesireScheduled partition ds.progressive
        nodesNeedingDaemonPods
    else nodesNeedingDaemonPods)

theorem splitRunning_eq {pods : List Pod}
    (h : ∀ p∈pods,p.terminating=false → p.phase≠.failed) (inBackoff : Bool) :
    splitRunning inBackoff pods=(pods.filter fun p => !p.terminating&&!isPodPreDeleting p,
        (pods.filter fun p => !p.terminating&&isPodPreDeleting p).map (·.name)) := by
  induction pods with
  | nil => rfl
  | cons p pods ih =>
    have hr:=ih fun q hq => h q (mem_cons_of_mem _ hq)
    unfold splitRunning
    cases ht : p.terminating with
    | true => simpa [ht] using hr
    | false =>
      have hph:=h p mem_cons_self ht
      cases hpre : isPodPreDeleting p with
      | true => simp [ht,hph,hpre,hr]
      | false => simp [ht,hph,hpre,hr]

theorem oldestByHash_eq (hash : String) (pods : List Pod) (newPod oldPod : Option Pod) (rest : List String)
    (hn : (newPod.toList++pods.filter fun p => decide (p.revisionHash=hash)).length≤1)
    (ho : (oldPod.toList++pods.filter fun p => decide (p.revisionHash≠hash)).length≤1) :
    oldestByHash hash pods newPod oldPod rest =
      ((newPod.toList++pods.filter fun p => decide (p.revisionHash=hash)).head?,
        (oldPod.toList++pods.filter fun p => decide (p.revisionHash≠hash)).head?,rest) := by
  induction pods generalizing newPod oldPod with
  | nil => cases newPod <;> cases oldPod <;> rfl
  | cons p pods ih =>
    unfold oldestByHash
    by_cases hp : p.revisionHash=hash
    · simp only [hp,ne_eq,not_true_eq_false,decide_true,decide_false,Bool.false_eq_true,
        not_false_eq_true,filter_cons_of_pos,filter_cons_of_neg,if_true] at hn ho ⊢
      cases newPod with
      | some q => simp at hn
      | none => simpa using ih (some p) oldPod (by simpa using hn) ho
    · simp only [hp,ne_eq,not_false_eq_true,decide_true,decide_false,Bool.false_eq_true,
        filter_cons_of_pos,filter_cons_of_neg,if_false] at hn ho ⊢
      cases oldPod with
      | some q => simp at ho
      | none => simpa using ih newPod (some p) hn (by simpa using ho)

/-- With one running pod of each kind, only an old one that is not ready or next to an available new
one is surplus. -/
theorem mem_surplusPods {ds : DaemonSetSpec} {now : Int} {hash : String} {running : List Pod}
    (hnew : (running.filter fun p => decide (p.revisionHash=hash)).length≤1)
    (hold : (running.filter fun p => decide (p.revisionHash≠hash)).length≤1) {s : String}
    (h : s∈surplusPods ds now hash running) :
    ∃ oldPod∈running,oldPod.name=s ∧ oldPod.revisionHash≠hash ∧ (isPodReady oldPod=false ∨
        ∃ newPod∈running,newPod.revisionHash=hash ∧ isPodAvailable ds now newPod) := by
  have hperm : (running.insertionSort podBefore).Perm running := perm_insertionSort _ running
  unfold surplusPods at h
  generalize running.insertionSort podBefore=sorted at h hperm
  have hfst : ∀ {f : Pod → Bool} {p : Pod},(sorted.filter f).head?=some p → p∈running ∧ f p := by
    intro f p hp
    obtain ⟨hm,hf⟩ := mem_filter.mp (mem_of_mem_head? hp)
    exact ⟨hperm.mem_iff.mp hm,hf⟩
  rw [oldestByHash_eq hash sorted none none [] ((hperm.filter _).length_eq.trans_le hnew)
    ((hperm.filter _).length_eq.trans_le hold)] at h
  simp only [Option.toList_none,nil_append] at h
  cases hfnd : (sorted.filter fun p => decide (p.revisionHash=hash)).head? with
  | none =>
    simp only [hfnd] at h
    cases h
  | some newPod =>
    cases holder : (sorted.filter fun p => decide (p.revisionHash≠hash)).head? with
    | none =>
      simp only [hfnd,holder] at h
      cases h
    | some oldPod =>
      obtain ⟨hnewMem,hn⟩ := hfst hfnd
      obtain ⟨holdMem,ho⟩ := hfst holder
      simp only [hfnd,holder] at h
      split_ifs at h with hr hav
      · exact ⟨oldPod,holdMem,(mem_singleton.mp h).symm,of_decide_eq_true ho, .inl (by simpa using hr)⟩
      · exact ⟨oldPod,holdMem,(mem_singleton.mp h).symm,of_decide_eq_true ho,
          .inr ⟨newPod,hnewMem,of_decide_eq_true hn,hav⟩⟩
      · cases h

theorem mem_podsToDelete_of_stops {ds : DaemonSetSpec} {now : Int} {inBackoff : String → Bool}
    {hash : String} {nodes : List Node} {pods : List Pod} {s : String}
    (h : s∈(manage ds now inBackoff hash nodes pods).preparingDelete ∨
      s∈(manage ds now inBackoff hash nodes pods).deleted) :
    (∃ node∈nodes,s∈(podsShouldBeOnNode ds now inBackoff hash pods node).2) ∨
      s∈getUnscheduledPodsWithoutNode nodes pods := by
  rcases mem_append.mp (mem_syncNodes h) with hn | hu
  · obtain ⟨requests,hm,hs⟩ := mem_flatMap.mp hn
    obtain ⟨node,hn,rfl⟩ := mem_map.mp hm
    exact .inl ⟨node,hn,hs⟩
  · exact .inr hu

end Kruise.DaemonSet
