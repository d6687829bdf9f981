import Kruise.Util.Selector

/-!
# NodeImages and the jobs that use them

`GetNodeImagesForJob` and `GetActiveJobsForNodeImage` (`imagejob_reader.go` 67-236). A selector
without any requirement matches every NodeImage in the first function and none in the second. The
checks of the selectors are those of the webhook (`imagepulljob_create_update_handler.go` 67-88); a
selector that cannot be parsed is not modelled.
-/

namespace Kruise.ImagePullJob.Reader

open Util.Selector List

structure NodeImage where
  name : String
  labels : Labels

structure Pod where
  ns : String
  node : String
  active : Bool
  labels : Labels

structure NodeSelector where
  names : Option (List String)
  labelSelector : LabelSelector

structure Job where
  ns : String
  name : String
  selector : Option NodeSelector
  podSelector : Option LabelSelector
  deleting : Bool
  completed : Bool

def Job.validate (job : Job) : Option String :=
  if job.selector.any fun s => s.names.isSome&&!s.labelSelector.isEmpty then
    some "can not set both names and labelSelector in this spec.selector"
  else if job.selector.any fun s => s.names.any fun names => !decide names.Nodup then
    some "duplicated name in selector names"
  else if job.podSelector.isSome&&job.selector.isSome then
    some "can not set both selector and podSelector"
  else none

/-- `sortPods` returns some of its pods in any order. -/
structure Cluster where
  nodeImages : List NodeImage
  pods : List Pod
  jobs : List Job
  sortPods : Job → List Pod → List Pod
  sortPods_subset : ∀ job pods,sortPods job pods ⊆ pods

namespace Cluster

variable (c : Cluster)

def getNodeImage (name : String) : Option NodeImage := c.nodeImages.find? fun n => n.name=name

def getNodeImagesForJob (job : Job) : List NodeImage :=
  match job.podSelector with
  | some selector =>
    let pods:=c.pods.filter fun p => decide (p.ns=job.ns)&&selector.matches p.labels
    let pods:=c.sortPods job (pods.filter fun p => p.active&&decide (p.node ≠ ""))
    (pods.map Pod.node).eraseDups.filterMap c.getNodeImage
  | none =>
    match job.selector with
    | none => c.nodeImages
    | some ⟨some names,_⟩ => names.filterMap c.getNodeImage
    | some ⟨none,labelSelector⟩ => c.nodeImages.filter fun n => labelSelector.matches n.labels

def getPodsOnNode (nodeName : String) : List Pod :=
  c.pods.filter fun p => decide (p.node ≠ "")&&decide (p.node=nodeName)

/-- Whether a job matches the NodeImage, and whether it matched the old one. -/
def matched (nodeImage : NodeImage) (old : Option NodeImage) (job : Job) : Bool × Bool :=
  match job.podSelector with
  | some selector =>
    let found:=(c.getPodsOnNode nodeImage.name).any fun p => selector.matches p.labels
    (found,found)
  | none =>
    match job.selector with
    | none => (true,true)
    | some ⟨some names,_⟩ => (nodeImage.name∈names,nodeImage.name∈names)
    | some ⟨none,labelSelector⟩ =>
      if labelSelector.isEmpty then (false,false)
      else (labelSelector.matches nodeImage.labels,
        old.any fun n => labelSelector.matches n.labels)

def getActiveJobsForNodeImage (nodeImage : NodeImage) (old : Option NodeImage) : List Job × List Job :=
  let active:=c.jobs.filter fun job => !job.deleting&&!job.completed
  (active.filter fun job => (c.matched nodeImage old job).1,
    active.filter fun job => old.isSome&&(c.matched nodeImage old job).2)

end Cluster

/-- The job selects by labels and gives none. -/
def Job.selectsAll (job : Job) : Bool :=
  job.podSelector.isNone&&job.selector.any fun s => s.names.isNone&&s.labelSelector.isEmpty

variable {c : Cluster} {job : Job} {nodeImage : NodeImage} {old : Option NodeImage}

theorem name_of_getNodeImage {name : String} (h : c.getNodeImage name=some nodeImage) : nodeImage.name=name := by
  simpa using find?_some h

theorem matched_of_mem (h : nodeImage∈c.getNodeImagesForJob job) (hsel : job.selectsAll=false) :
    (c.matched nodeImage old job).1 := by
  unfold Cluster.getNodeImagesForJob at h
  unfold Cluster.matched
  unfold Job.selectsAll at hsel
  cases hp : job.podSelector with
  | some selector =>
    simp only [hp] at h
    obtain ⟨name,hn,hg⟩ := mem_filterMap.mp h
    obtain ⟨pod,hpod,rfl⟩ := mem_map.mp (mem_eraseDups.mp hn)
    have hm:=mem_filter.mp (c.sortPods_subset _ _ hpod)
    simp only [mem_filter,Bool.and_eq_true] at hm
    rw [any_eq_true]
    refine ⟨pod,mem_filter.mpr ⟨hm.1.1,?_⟩,hm.1.2.2⟩
    rw [hm.2.2,decide_eq_true (name_of_getNodeImage hg).symm]
    rfl
  | none =>
    simp only [hp] at h hsel
    cases hs : job.selector with
    | none => rfl
    | some s =>
      obtain ⟨_ | names,labelSelector⟩ := s
      · simp only [hs,Option.isNone_none,Option.any_some,Bool.true_and] at h hsel
        simpa [hsel] using (mem_filter.mp h).2
      · simp only [hs] at h
        obtain ⟨name,hn,hg⟩ := mem_filterMap.mp h
        simpa [name_of_getNodeImage hg] using hn

/-- Every NodeImage of an active job leads to the job exactly when the job does not select by an
empty selector, or there are no NodeImages. -/
theorem nodeImage_events_reach_iff (hjob : job∈c.jobs) (hdel : job.deleting=false) (hcomp : job.completed=false) :
    (∀ nodeImage∈c.getNodeImagesForJob job,∀ old, job∈(c.getActiveJobsForNodeImage nodeImage old).1) ↔
      (job.selectsAll → c.nodeImages=[]) := by
  have hi : ∀ nodeImage old,job∈(c.getActiveJobsForNodeImage nodeImage old).1 ↔
      (c.matched nodeImage old job).1 := by
    simp [Cluster.getActiveJobsForNodeImage,hjob,hdel,hcomp]
  simp only [hi]
  cases ha : job.selectsAll with
  | false => simpa using fun nodeImage h old => matched_of_mem h ha
  | true =>
    have ha':=ha
    simp only [Job.selectsAll,Bool.and_eq_true,Option.isNone_iff_eq_none,Option.any_eq_true] at ha'
    obtain ⟨hp,⟨names,labelSelector⟩,hs,hn,he⟩ := ha'
    obtain rfl := hn
    have hset : c.getNodeImagesForJob job=c.nodeImages := by
      simp only [LabelSelector.isEmpty,decide_eq_true_eq,Nat.add_eq_zero_iff, length_eq_zero_iff] at he
      simp [Cluster.getNodeImagesForJob,hp,hs,LabelSelector.matches,he]
    have hno : ∀ nodeImage old,(c.matched nodeImage old job).1=false := by
      simp [Cluster.matched,hp,hs,he]
    simp [hset,hno,eq_nil_iff_forall_not_mem]

def everyNode : Job :=
  ⟨"default", "pull",some ⟨none,⟨∅,[]⟩⟩,none,false,false⟩

def oneNode (job : Job) : Cluster where
  nodeImages := [⟨"node",fun _ => none⟩]
  pods := []
  jobs := [job]
  sortPods _ pods := pods
  sortPods_subset _ _ := Subset.refl _

/-- The empty selector takes in the node, whose events do not lead to the job. -/
theorem empty_selector_missed :
    everyNode.validate=none ∧
    ((oneNode everyNode).getNodeImagesForJob everyNode).map NodeImage.name=["node"] ∧
      ((oneNode everyNode).getActiveJobsForNodeImage ⟨"node",fun _ => none⟩ none).1.map Job.name = [] := by
  decide +kernel

theorem unselective_job_reached :
    ((oneNode {everyNode with selector := none}).getNodeImagesForJob
        {everyNode with selector := none}).map NodeImage.name=["node"] ∧
      ∀ nodeImage∈(oneNode {everyNode with selector := none}).getNodeImagesForJob
          {everyNode with selector := none},∀ old,
        {everyNode with selector := none} ∈
          ((oneNode {everyNode with selector := none}).getActiveJobsForNodeImage nodeImage old).1 :=
  ⟨by decide +kernel,(nodeImage_events_reach_iff mem_cons_self rfl rfl).mpr fun h => Bool.noConfusion h⟩

end Kruise.ImagePullJob.Reader
