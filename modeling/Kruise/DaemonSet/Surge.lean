import Kruise.DaemonSet.Manage

/-!
# A surge keeps the old pod until the new one serves

Two functions delete pods: `rollingUpdate`, which tells old from new by `findUpdatedPodsOnNode`,
and `manage`, which sorts the running pods of a node and compares their hash itself. The nodes
that surge are charged to `maxSurge` because the filter by partition keeps all updated nodes
before one that waits.
-/

namespace Kruise.DaemonSet

open Lib.Keyed Lib.Quota Lib.Counting List

variable {ds : DaemonSetSpec} {now : Int} {hash : String} {nodes : List Node} {pods : List Pod}

def isLiveNew (hash : String) (p : Pod) : Bool := !p.terminating&&decide (p.revisionHash=hash)

def isLiveOld (hash : String) (p : Pod) : Bool := !p.terminating&&decide (p.revisionHash≠hash)

def isServing (ds : DaemonSetSpec) (now : Int) (p : Pod) : Bool :=
  isPodAvailable ds now p&&!isPodPreDeleting p

/- At most one old and one new pod a node, and none that failed. -/
structure OldAndNew (ds : DaemonSetSpec) (hash : String) (nodes : List Node) (pods : List Pod) : Prop where
  nodeNames : (nodes.map Node.name).Nodup
  podNames : (pods.map fun p => p.name).Nodup
  generation : ds.templateGeneration=none
  oldOnce : ∀ n,((podsOnNode pods n).filter (isLiveOld hash)).length≤1
  newOnce : ∀ n,((podsOnNode pods n).filter (isLiveNew hash)).length≤1
  notFailed : ∀ p∈pods,p.terminating=false → p.phase≠.failed

/- The node is served by an old pod and has, or gets, a new pod that is not available. -/
def surging (ds : DaemonSetSpec) (now : Int) (hash : String) (pods : List Pod)
    (created : List String) (node : Node) : Bool :=
  ((podsOnNode pods node.name).any fun p => isLiveOld hash p&&isServing ds now p) &&
    (((podsOnNode pods node.name).any fun p => isLiveNew hash p&&!isPodAvailable ds now p) ||
      decide (node.name∈created))

def surgingNodes (ds : DaemonSetSpec) (now : Int) (hash : String) (nodes : List Node)
    (pods : List Pod) (created : List String) : Nat :=
  nodes.countP (surging ds now hash pods created)

/- The pod is deleted, or marked for deletion when a hook holds it. -/
def Requests.stops (r : Requests) (podName : String) : Prop :=
  podName∈r.preparingDelete ∨ podName∈r.deleted

theorem isPodUpdated_eq (h : ds.templateGeneration=none) (p : Pod) :
    isPodUpdated ds hash p=(decide (hash ≠ "")&&decide (p.revisionHash=hash)) := by
  simp [isPodUpdated,getTemplateGeneration,h]

theorem OldAndNew.same (h : OldAndNew ds hash nodes pods) {p q : Pod} {m n : String}
    (hp : p∈podsOnNode pods m) (hq : q∈podsOnNode pods n) (hname : p.name=q.name) : p=q ∧ m=n := by
  obtain ⟨hp,hm⟩ := mem_podsOnNode.mp hp
  obtain ⟨hq,hn⟩ := mem_podsOnNode.mp hq
  obtain rfl := inj_on_of_nodup_map h.podNames hp hq hname
  exact ⟨rfl,Option.some.inj (hm.symm.trans hn)⟩

variable {onNode : List Pod} {p : Pod}

theorem OldAndNew.old_eq (h : OldAndNew ds hash nodes pods) {newPod oldPod : Option Pod}
    (hf : findUpdatedPodsOnNode ds hash onNode=some (newPod,oldPod)) (hp : p∈onNode)
    (ho : isLiveOld hash p) : oldPod=some p := by
  simp only [isLiveOld,Bool.and_eq_true,Bool.not_eq_true',decide_eq_true_eq] at ho
  rcases mem_of_findUpdated hf hp ho.1 with hn | hpod
  · have hu:=(new_of_findUpdated hf hn).2.2
    rw [isPodUpdated_eq h.generation] at hu
    simp [ho.2] at hu
  · exact hpod

section

variable (ds now hash pods)

def surgeCharge (node : String) : Nat :=
  match nodeSurge ds now hash (podsOnNode pods node) with
  | .charge => 1
  | _ => 0

def surgeRequest (node : String) : Option String :=
  match nodeSurge ds now hash (podsOnNode pods node) with
  | .candidate => some node
  | _ => none

def surgeAtOnce (node : String) : Bool :=
  match nodeSurge ds now hash (podsOnNode pods node) with
  | .replace => true
  | _ => false

def surgeFinished (node : String) : Option String :=
  match nodeSurge ds now hash (podsOnNode pods node) with
  | .finished oldPod => some oldPod.name
  | _ => none

variable (maxSurge : Int)

theorem surgeTally_quota (t : SurgeTally) (nodeNames : List String) :
    nodeNames.foldl (turn (surgeCharge ds now hash pods) (surgeRequest ds now hash pods) maxSurge)
        ⟨t.numSurge,t.candidateNewNodes⟩ =
      ⟨(nodeNames.foldl (surgeTurn ds now hash pods maxSurge) t).numSurge,
        (nodeNames.foldl (surgeTurn ds now hash pods maxSurge) t).candidateNewNodes⟩ := by
  refine foldl_hom (fun t : SurgeTally =>
    (⟨t.numSurge,t.candidateNewNodes⟩ : Tally String)) ?_
  intro t n
  unfold turn surgeTurn surgeRequest surgeCharge
  cases nodeSurge ds now hash (podsOnNode pods n) with
  | idle => simp
  | charge => rfl
  | replace => simp
  | finished p => simp
  | candidate =>
    split_ifs <;> rfl

theorem surgeTally_lists (t : SurgeTally) (nodeNames : List String) :
    (nodeNames.foldl (surgeTurn ds now hash pods maxSurge) t).oldPodsToDelete =
        t.oldPodsToDelete++nodeNames.filterMap (surgeFinished ds now hash pods) ∧
      (nodeNames.foldl (surgeTurn ds now hash pods maxSurge) t).allowedNewNodes =
        t.allowedNewNodes++nodeNames.filter (surgeAtOnce ds now hash pods) := by
  induction nodeNames generalizing t with
  | nil => simp
  | cons n nodeNames ih =>
    obtain ⟨ho,hn⟩ := ih (surgeTurn ds now hash pods maxSurge t n)
    rw [foldl_cons,ho,hn,filterMap_cons,filter_cons]
    unfold surgeTurn surgeFinished surgeAtOnce
    cases nodeSurge ds now hash (podsOnNode pods n) with
    | idle => exact ⟨rfl,rfl⟩
    | charge => exact ⟨rfl,rfl⟩
    | replace => exact ⟨rfl,append_assoc _ _ _⟩
    | finished p => exact ⟨append_assoc _ _ _,rfl⟩
    | candidate =>
      by_cases hf : t.numSurge ≥ maxSurge
      · rw [if_pos hf]
        exact ⟨rfl,rfl⟩
      · rw [if_neg hf]
        exact ⟨rfl,rfl⟩

def surgedNodes (nodeNames : List String) : List String :=
  grantees (surgeCharge ds now hash pods) (surgeRequest ds now hash pods) maxSurge nodeNames

theorem surgeRequest_some {n s : String} (h : surgeRequest ds now hash pods n=some s) :
    nodeSurge ds now hash (podsOnNode pods n)=.candidate ∧ s=n := by
  unfold surgeRequest at h
  cases hs : nodeSurge ds now hash (podsOnNode pods n) <;> simp_all

theorem podsToSurge_eq (nodeNames : List String) : podsToSurge ds now hash pods maxSurge nodeNames =
      (nodeNames.filterMap (surgeFinished ds now hash pods), nodeNames.filter (surgeAtOnce ds now hash pods) ++
          surgedNodes ds now hash pods maxSurge nodeNames) := by
  have hcost : ∀ n,(surgeRequest ds now hash pods n).isSome → surgeCharge ds now hash pods n=0 := by
    intro n hn
    obtain ⟨s,hs⟩ := Option.isSome_iff_exists.mp hn
    unfold surgeCharge
    rw [(surgeRequest_some ds now hash pods hs).1]
  have hq:=surgeTally_quota ds now hash pods maxSurge ⟨[],[],[],0⟩ nodeNames
  obtain ⟨ho,hnew⟩ := surgeTally_lists ds now hash pods maxSurge ⟨[],[],[],0⟩ nodeNames
  have hself : (surgedNodes ds now hash pods maxSurge nodeNames).filterMap
      (surgeRequest ds now hash pods)=surgedNodes ds now hash pods maxSurge nodeNames := by
    conv_rhs => rw [← @filterMap_some _ (surgedNodes ds now hash pods maxSurge nodeNames)]
    refine filterMap_congr ?_
    intro n hn
    obtain ⟨s,hs⟩ := Option.isSome_iff_exists.mp (isSome_of_mem_grantees hn)
    rw [hs,(surgeRequest_some ds now hash pods hs).2]
  have hgr:=@granted_foldl _ _ _ _ maxSurge hcost nodeNames
  rw [hq] at hgr
  change _=(surgedNodes ds now hash pods maxSurge nodeNames).filterMap _ at hgr
  rw [hself] at hgr
  unfold podsToSurge
  dsimp only
  rw [ho,hnew,nil_append,nil_append,← hgr]
  rfl

end

variable (ds now hash onNode) in
theorem nodeSurge_spec :
    match nodeSurge ds now hash onNode with
    | .finished p => ∃ q,findUpdatedPodsOnNode ds hash onNode=some (some q,some p) ∧ isServing ds now q
    | .replace => ∃ p,findUpdatedPodsOnNode ds hash onNode=some (none,some p) ∧ isPodAvailable ds now p=false
    | .candidate => ∃ p,findUpdatedPodsOnNode ds hash onNode=some (none,some p) ∧ isPodPreDeleting p=false
    | _ => True := by
  unfold nodeSurge
  rcases hf : findUpdatedPodsOnNode ds hash onNode with _ | ⟨newPod,_ | p⟩
  · trivial
  · trivial
  · cases hpre : isPodPreDeleting p with
    | true => simp [hpre]
    | false =>
      simp only [hpre,Bool.false_eq_true,if_false]
      cases newPod with
      | none => cases hav : isPodAvailable ds now p <;> simp [hav,hpre]
      | some q =>
        cases hav : isPodAvailable ds now q <;> cases hq : isPodPreDeleting q <;> simp [isServing,hav,hq]

variable {maxSurge : Int} {nodeNames : List String} {node : Node}

theorem OldAndNew.charge_of_surging (h : OldAndNew ds hash nodes pods) (hs : surging ds now hash pods [] node) :
    surgeCharge ds now hash pods node.name=1 ∧
      ∀ keys,nodeClass ds nodes hash ⟨keys,podsOnNode pods⟩ node.name=.updated := by
  simp only [surging,not_mem_nil,decide_false,Bool.or_false,Bool.and_eq_true, any_eq_true,Bool.not_eq_true'] at hs
  obtain ⟨⟨p,hp,ho,hserv⟩,q,hq,hnew,hun⟩ := hs
  unfold surgeCharge nodeSurge nodeClass
  dsimp only
  cases hf : findUpdatedPodsOnNode ds hash (podsOnNode pods node.name) with
  | none => exact ⟨rfl,fun _ => rfl⟩
  | some found =>
    obtain ⟨newPod,oldPod⟩ := found
    obtain rfl := h.old_eq hf hp ho
    simp only [isLiveNew,isLiveOld,Bool.and_eq_true,Bool.not_eq_true',decide_eq_true_eq] at hnew ho
    have hn : newPod=some q := by
      rcases mem_of_findUpdated hf hq hnew.1 with hn | hsame
      · exact hn
      · cases hsame
        exact absurd hnew.2 ho.2
    subst hn
    simp only [isServing,Bool.and_eq_true,Bool.not_eq_true'] at hserv
    simp [hserv.2,hun]

variable {created : List String}

section

variable (h : OldAndNew ds hash nodes pods)
include h

theorem OldAndNew.surging_created (hcreated : ∀ n∈created,n∈(podsToSurge ds now hash pods maxSurge nodeNames).2)
    (hs : surging ds now hash pods created node) :
    surging ds now hash pods [] node ∨ node.name∈surgedNodes ds now hash pods maxSurge nodeNames := by
  simp only [surging,Bool.and_eq_true,Bool.or_eq_true,decide_eq_true_eq,not_mem_nil,
    decide_false,Bool.or_false] at hs ⊢
  obtain ⟨hserved,hn | hm⟩ := hs
  · exact .inl ⟨hserved,hn⟩
  · right
    have hl:=hcreated _ hm
    rw [podsToSurge_eq] at hl
    rcases mem_append.mp hl with ha | hsurged
    · -- the old pod of such a node is not available
      obtain ⟨p,hp,hpod⟩ := any_eq_true.mp hserved
      simp only [isServing,Bool.and_eq_true] at hpod
      have hr : nodeSurge ds now hash (podsOnNode pods node.name)=.replace := by
        have ht:=(mem_filter.mp ha).2
        unfold surgeAtOnce at ht
        split at ht
        · assumption
        · cases ht
      have hspec:=nodeSurge_spec ds now hash (podsOnNode pods node.name)
      rw [hr] at hspec
      obtain ⟨q,hf,hun⟩ := hspec
      obtain rfl := Option.some.inj (h.old_eq hf hp hpod.1)
      rw [hun] at hpod
      cases hpod.2.1
    · exact hsurged

theorem OldAndNew.mem_nodesToUpdate_of_surging {waiting : String}
    (hn : node∈nodes) (hs : surging ds now hash pods [] node) (hw : waiting∈nodesToUpdate ds nodes pods hash)
    (hcand : nodeSurge ds now hash (podsOnNode pods waiting)=.candidate) :
    node.name∈nodesToUpdate ds nodes pods hash := by
  have hspec:=nodeSurge_spec ds now hash (podsOnNode pods waiting)
  rw [hcand] at hspec
  obtain ⟨p,hf,hpre⟩ := hspec
  obtain ⟨q,hq,-⟩ := any_eq_true.mp (Bool.and_eq_true_iff.mp hs).1
  obtain ⟨hqpods,hqnode⟩ := mem_podsOnNode.mp hq
  unfold nodesToUpdate filterDaemonPodsToUpdate at hw ⊢
  rw [pods_desiredNodePods] at hw ⊢
  refine updated_mem_filter ?_ ((h.charge_of_surging hs).2 _) hw ?_
  · exact mem_filter.mpr ⟨mem_desiredNodePods hqpods hqnode,decide_eq_true (mem_map_of_mem hn)⟩
  · unfold nodeClass
    simp only [hf,isPodNilOrPreDeleting,Option.all_some,hpre,Bool.false_eq_true,if_false]
    cases ds.rolling.bind (·.selector) with
    | none => simp
    | some selector =>
      dsimp only
      split_ifs <;> simp

theorem OldAndNew.surgingNodes_created
    (hcreated : ∀ n∈created,n∈(podsToSurge ds now hash pods maxSurge nodeNames).2) :
    surgingNodes ds now hash nodes pods created ≤ surgingNodes ds now hash nodes pods [] +
      (surgedNodes ds now hash pods maxSurge nodeNames).length := by
  have hspl:=countP_split (surging ds now hash pods []) (surging ds now hash pods created) nodes
  have ho : nodes.countP (fun node => surging ds now hash pods [] node &&
      surging ds now hash pods created node) ≤ surgingNodes ds now hash nodes pods [] := by
    refine countP_mono_left ?_
    intro node _ hboth
    exact (Bool.and_eq_true_iff.mp hboth).1
  have hn : nodes.countP (fun node => !surging ds now hash pods [] node && surging ds now hash pods created node) ≤
      (surgedNodes ds now hash pods maxSurge nodeNames).length := by
    rw [← countP_true]
    refine countP_le_of_nodup_keys Node.name _ _ nodes _ h.nodeNames ?_
    intro node _ hboth
    simp only [Bool.and_eq_true,Bool.not_eq_true'] at hboth
    rcases h.surging_created hcreated hboth.2 with hbef | hsurged
    · rw [hboth.1] at hbef
      cases hbef
    · exact ⟨hsurged,rfl⟩
  change _=surgingNodes ds now hash nodes pods created at hspl
  omega

theorem OldAndNew.surgingNodes_charged
    (hperm : nodeNames.Perm (nodesToUpdate ds nodes pods hash)) {waiting : String} (hw : waiting∈nodeNames)
    (hcand : nodeSurge ds now hash (podsOnNode pods waiting)=.candidate) :
    surgingNodes ds now hash nodes pods [] ≤ (nodeNames.map (surgeCharge ds now hash pods)).sum := by
  refine le_trans ?_ (countP_le_sum nodeNames)
  refine countP_le_of_nodup_keys Node.name _ _ nodes nodeNames h.nodeNames ?_
  intro node hn hbef
  have hm:=h.mem_nodesToUpdate_of_surging hn hbef (hperm.mem_iff.mp hw) hcand
  refine ⟨hperm.mem_iff.mpr hm,?_⟩
  rw [(h.charge_of_surging hbef).1]
  rfl

theorem OldAndNew.surgingNodes_le (order : MapOrder)
    (hcreated : ∀ n∈created,n∈(podsToSurge ds now hash pods maxSurge
      (order.order (nodesToUpdate ds nodes pods hash))).2) :
    (surgingNodes ds now hash nodes pods created : Int) ≤
      max (surgingNodes ds now hash nodes pods [] : Int) maxSurge := by
  have hperm:=order.perm (nodesToUpdate ds nodes pods hash)
  generalize order.order (nodesToUpdate ds nodes pods hash)=nodeNames at hcreated hperm
  have ha:=h.surgingNodes_created hcreated
  have hl : (surgedNodes ds now hash pods maxSurge nodeNames).length ≤
      (maxSurge-((nodeNames.map (surgeCharge ds now hash pods)).sum : Nat)).toNat :=
    length_grantees_le nodeNames
  by_cases hn : surgedNodes ds now hash pods maxSurge nodeNames=[]
  · rw [hn,length_nil] at ha
    omega
  · obtain ⟨waiting,hw⟩ := exists_mem_of_ne_nil _ hn
    obtain ⟨s,hs⟩ := Option.isSome_iff_exists.mp (isSome_of_mem_grantees hw)
    have hcharged:=h.surgingNodes_charged hperm
      ((grantees_sublist nodeNames).subset hw) (surgeRequest_some ds now hash pods hs).1
    omega

theorem OldAndNew.new_of_podsToSurge {n : String} (hp : p∈podsOnNode pods n)
    (hd : p.name∈(podsToSurge ds now hash pods maxSurge nodeNames).1) :
    ∃ q∈podsOnNode pods n,isLiveNew hash q ∧ isServing ds now q := by
  rw [podsToSurge_eq] at hd
  obtain ⟨m,-,hf⟩ := mem_filterMap.mp hd
  obtain ⟨o,ho,hn⟩ : ∃ o,nodeSurge ds now hash (podsOnNode pods m)=.finished o ∧ o.name=p.name := by
    unfold surgeFinished at hf
    split at hf
    · exact ⟨_,by assumption,Option.some.inj hf⟩
    · cases hf
  have hspec:=nodeSurge_spec ds now hash (podsOnNode pods m)
  rw [ho] at hspec
  obtain ⟨q,hfind,hserv⟩ := hspec
  obtain ⟨-,rfl⟩ := h.same (old_of_findUpdated hfind rfl).1 hp hn
  obtain ⟨hq,hl,hu⟩ := new_of_findUpdated hfind rfl
  rw [isPodUpdated_eq h.generation,Bool.and_eq_true] at hu
  exact ⟨q,hq,by simp [isLiveNew,hl,of_decide_eq_true hu.2],hserv⟩

end

def runningOnNode (pods : List Pod) (n : String) : List Pod :=
  (podsOnNode pods n).filter fun p => !p.terminating&&!isPodPreDeleting p

theorem OldAndNew.running_once (h : OldAndNew ds hash nodes pods) (n : String) :
    ((runningOnNode pods n).filter fun p => decide (p.revisionHash=hash)).length≤1 ∧
      ((runningOnNode pods n).filter fun p => decide (p.revisionHash≠hash)).length≤1 := by
  unfold runningOnNode
  rw [filter_filter,filter_filter]
  constructor
  · refine le_trans (Sublist.length_le ?_) (h.newOnce n)
    exact monotone_filter_right _ fun p => by simp +contextual [isLiveNew]
  · refine le_trans (Sublist.length_le ?_) (h.oldOnce n)
    exact monotone_filter_right _ fun p => by simp +contextual [isLiveOld]

theorem OldAndNew.surplus_old (h : OldAndNew ds hash nodes pods) {n s : String}
    (hs : s∈surplusPods ds now hash (runningOnNode pods n)) :
    ∃ p∈podsOnNode pods n,p.name=s ∧ (isPodReady p=false ∨
      ∃ q∈podsOnNode pods n,isLiveNew hash q ∧ isServing ds now q) := by
  obtain ⟨p,hp,hn,-,hcases⟩ :=
    mem_surplusPods (h.running_once n).1 (h.running_once n).2 hs
  refine ⟨p,(mem_filter.mp hp).1,hn,?_⟩
  rcases hcases with hr | ⟨q,hq,hqhash,hav⟩
  · exact .inl hr
  · obtain ⟨hq,hqlive⟩ := mem_filter.mp hq
    simp only [Bool.and_eq_true,Bool.not_eq_true'] at hqlive
    exact .inr ⟨q,hq,by simp [isLiveNew,hqlive.1,hqhash],by simp [isServing,hav,hqlive.2]⟩

theorem name_of_mem_podsShouldBeOnNode (inBackoff : String → Bool) {s : String}
    (h : OldAndNew ds hash nodes pods) (hsur : allowSurge ds)
    (hs : s∈(podsShouldBeOnNode ds now inBackoff hash pods node).2) :
    ∃ p∈podsOnNode pods node.name,p.name=s ∧
      (shouldRun ds node → isPodPreDeleting p ∨ isPodReady p=false ∨
        ∃ q∈podsOnNode pods node.name,isLiveNew hash q ∧ isServing ds now q) := by
  have hfailed : ∀ p∈podsOnNode pods node.name,p.terminating=false → p.phase≠.failed :=
    fun p hp => h.notFailed p (mem_podsOnNode.mp hp).1
  have hg : ∀ {why : Pod → Prop},s∈((podsOnNode pods node.name).filter fun p =>
      !p.terminating&&isPodPreDeleting p).map (·.name) →
      ∃ p∈podsOnNode pods node.name,p.name=s ∧ (shouldRun ds node → isPodPreDeleting p ∨ why p) := by
    intro why hm
    obtain ⟨p,hp,hname⟩ := mem_map.mp hm
    obtain ⟨hp,hpre⟩ := mem_filter.mp hp
    exact ⟨p,hp,hname,fun _ => .inl (Bool.and_eq_true_iff.mp hpre).2⟩
  unfold podsShouldBeOnNode at hs
  dsimp only at hs
  rw [splitRunning_eq hfailed] at hs
  split_ifs at hs with he hcontinue hn hf hnone
  · cases hs
  · exact absurd hsur (by simpa using hn)
  · exact hg hs
  · exact hg hs
  · rcases mem_append.mp hs with hs | hs
    · exact hg hs
    · obtain ⟨p,hp,hname,hcases⟩ := h.surplus_old hs
      exact ⟨p,hp,hname,fun _ => .inr hcases⟩
  · obtain ⟨p,hp,rfl⟩ := mem_map.mp hs
    refine ⟨p,(mem_filter.mp hp).1,rfl,?_⟩
    intro hr
    exact absurd (shouldContinue_of_shouldRun hr) hcontinue

theorem OldAndNew.new_of_manage (h : OldAndNew ds hash nodes pods) (hsur : allowSurge ds)
    (inBackoff : String → Bool) (hn : node∈nodes) (hrun : shouldRun ds node)
    (hp : p∈podsOnNode pods node.name) (hserv : isServing ds now p)
    (hstops : (manage ds now inBackoff hash nodes pods).stops p.name) :
    ∃ q∈podsOnNode pods node.name,isLiveNew hash q ∧ isServing ds now q := by
  rcases mem_podsToDelete_of_stops hstops with ⟨m,hm,hs⟩ | hu
  · obtain ⟨o,ho,hname,hw⟩ := name_of_mem_podsShouldBeOnNode inBackoff h hsur hs
    obtain ⟨rfl,hsame⟩ := h.same ho hp hname
    obtain rfl := inj_on_of_nodup_map h.nodeNames hm hn hsame
    simp only [isServing,Bool.and_eq_true,Bool.not_eq_true'] at hserv
    rcases hw hrun with hpre | hr | hnew
    · rw [hserv.2] at hpre
      cases hpre
    · rw [isPodReady_of_isPodAvailable hserv.1] at hr
      cases hr
    · exact hnew
  · obtain ⟨o,ho,hname⟩ := mem_map.mp hu
    obtain ⟨ho,hl⟩ := mem_filter.mp ho
    obtain ⟨hpods,ht⟩ := mem_podsOnNode.mp hp
    obtain rfl := inj_on_of_nodup_map h.podNames ho hpods hname
    simp only [ht,Option.any_some,Bool.and_eq_true,decide_eq_true_eq] at hl
    exact absurd (mem_map_of_mem hn) hl.1

theorem rollingUpdate_surge (api : InPlaceApi) (order : MapOrder) {maxUnavailable : Int}
    (hcnts : updatedDesiredNodeCounts ds nodes=some (maxSurge,maxUnavailable)) (hsur : 1 ≤ maxSurge) :
    rollingUpdate api order ds now nodes pods hash =
      let surge:=podsToSurge ds now hash pods maxSurge (order.order (nodesToUpdate ds nodes pods hash))
      some (syncNodes ds pods surge.1 surge.2) := by
  unfold rollingUpdate
  rw [hcnts]
  dsimp only [Option.bind_some]
  rw [if_neg (by omega)]

theorem allowSurge_of_counts {maxUnavailable : Int}
    (hcnts : updatedDesiredNodeCounts ds nodes=some (maxSurge,maxUnavailable))
    (hsur : 1 ≤ maxSurge) : allowSurge ds := by
  obtain ⟨u,-,hm⟩ := Option.bind_eq_some_iff.mp hcnts
  obtain ⟨s,hs,heq⟩ := Option.map_eq_some_iff.mp hm
  have hmax : s=maxSurge := by
    split_ifs at heq <;> exact (Prod.mk.inj heq).1
  exact allowSurge_of_surgeCount (Int.natCast_nonneg _) (hmax ▸ hsur) hs

theorem length_requests_perm {order order' : MapOrder} (maxSurge : Int) :
    let surge:=podsToSurge ds now hash pods maxSurge (order.order (nodesToUpdate ds nodes pods hash))
    let surge' := podsToSurge ds now hash pods maxSurge (order'.order (nodesToUpdate ds nodes pods hash))
    surge.1.Perm surge'.1 ∧ surge.2.length=surge'.2.length := by
  have hperm : (order.order (nodesToUpdate ds nodes pods hash)).Perm
      (order'.order (nodesToUpdate ds nodes pods hash)) :=
    (order.perm _).trans (order'.perm _).symm
  rw [podsToSurge_eq,podsToSurge_eq]
  refine ⟨hperm.filterMap _,?_⟩
  rw [length_append,length_append,(hperm.filter _).length_eq]
  exact congrArg _ (length_grantees_perm hperm)

/-- With surge no function deletes an old pod that serves unless a new one does, the nodes that
surge stay within `maxSurge`, and how much is created and deleted does not depend on the order of
the node map. -/
theorem surge_keeps_old_until_new_serves (h : OldAndNew ds hash nodes pods) {maxSurge maxUnavailable : Int}
    (hcounts : updatedDesiredNodeCounts ds nodes=some (maxSurge,maxUnavailable))
    (hsurge : 1 ≤ maxSurge) (now : Int) (api : InPlaceApi) (inBackoff : String → Bool) :
    (∀ order : MapOrder,∃ r,rollingUpdate api order ds now nodes pods hash=some r ∧
      (∀ node∈nodes,shouldRun ds node → ∀ p∈podsOnNode pods node.name,
        isLiveOld hash p → isServing ds now p →
        r.stops p.name ∨ (manage ds now inBackoff hash nodes pods).stops p.name →
        ∃ q∈podsOnNode pods node.name,isLiveNew hash q ∧ isServing ds now q) ∧
      (surgingNodes ds now hash nodes pods r.created : Int) ≤
        max (surgingNodes ds now hash nodes pods [] : Int) maxSurge) ∧
    ∀ (order order' : MapOrder) (r r' : Requests), rollingUpdate api order ds now nodes pods hash=some r →
      rollingUpdate api order' ds now nodes pods hash=some r' →
      r.created.length=r'.created.length ∧ r.deleted.length=r'.deleted.length ∧
        r.preparingDelete.length=r'.preparingDelete.length := by
  constructor
  · intro order
    refine ⟨_,rollingUpdate_surge api order hcounts hsurge,?_,?_⟩
    · intro node hnode hrun p hp _ hserv hstops
      rcases hstops with hstops | hstops
      · exact h.new_of_podsToSurge hp (mem_syncNodes hstops)
      · exact h.new_of_manage (allowSurge_of_counts hcounts hsurge) inBackoff hnode hrun hp hserv hstops
    · refine h.surgingNodes_le order ?_
      intro n hn
      exact mem_of_mem_take hn
  · intro order order' r r' hr hr'
    rw [rollingUpdate_surge api order hcounts hsurge] at hr
    rw [rollingUpdate_surge api order' hcounts hsurge] at hr'
    cases hr
    cases hr'
    obtain ⟨hd,hcre⟩ := @length_requests_perm ds now hash nodes pods order order' maxSurge
    refine ⟨?_,?_,?_⟩
    · simp only [syncNodes,length_take,hcre]
    · simp only [syncNodes,length_take,(hd.filter _).length_eq]
    · simp only [syncNodes,(hd.filter _).length_eq]

def oneSurge : DaemonSetSpec := plainDaemonSet ⟨.standard,none,some (.int 1),none,none⟩

theorem surges_within_one :
    let nodes:=[plainNode "a",plainNode "b"]
    let pods:=[daemonPod "ds-a" "a" "old" true,daemonPod "ds-b" "b" "new" true]
    ∀ (api : InPlaceApi) (order : MapOrder),∃ r, rollingUpdate api order oneSurge 1 nodes pods "new" = some r ∧
        (surgingNodes oneSurge 1 "new" nodes pods r.created : Int)≤1 := by
  intro nodes pods api order
  have ho : ∀ (f : Pod → Bool) (n : String),(pods.filter f).length≤1 → ((podsOnNode pods n).filter f).length≤1 := by
    intro f n hl
    exact le_trans (filter_sublist.filter f).length_le hl
  have hpods : OldAndNew oneSurge "new" nodes pods :=
    { nodeNames := by decide +kernel
      podNames := by decide +kernel
      generation := rfl
      oldOnce := fun n => ho _ n (by decide +kernel)
      newOnce := fun n => ho _ n (by decide +kernel)
      notFailed := by decide +kernel}
  have hcnts : updatedDesiredNodeCounts oneSurge nodes=some (1,0) := by decide +kernel
  obtain ⟨r,hr,-,hle⟩ := (surge_keeps_old_until_new_serves hpods hcnts (by decide) 1 api fun _ => false).1 order
  exact ⟨r,hr,hle⟩

end Kruise.DaemonSet
