import Kruise.Lib.Keyed
import Kruise.Lib.Transition
import Kruise.Util.IntStr
import Mathlib.Data.List.Sort

/-!
# Pulling an image on many nodes

`calculateStatus` and `syncNodeImages` (`imagepulljob_controller.go` 520-624 and 307-409), with the
part of `Reconcile` around them. A NodeImage is the spec and the status of the one image the job
pulls; by the webhook (`pkg/webhook/nodeimage/validating`) each tag is there once and no version is
negative.
-/

namespace Kruise.ImagePullJob

open Lib.Keyed Lib.Transition
open Util.IntStr

structure ReferenceObject where
  ns : String
  name : String
  deriving DecidableEq

/- `owners` are the UIDs of the owner references. -/
structure TagSpec where
  tag : String
  version : Int
  owners : List String
  deriving DecidableEq

def validTags (tags : List TagSpec) : Prop :=
  (tags.map TagSpec.tag).Nodup ∧ ∀ t∈tags,0≤t.version
  deriving Decidable

structure ImageSpec where
  pullSecrets : List ReferenceObject
  tags : List TagSpec
  valid : validTags tags

/- The webhook lets an update pass or not. -/
def admitImage (pullSecrets : List ReferenceObject) (tags : List TagSpec) : Option ImageSpec :=
  if h : validTags tags then some ⟨pullSecrets,tags,h⟩ else none

inductive PullPhase
  | waiting
  | pulling
  | succeeded
  | failed
  deriving DecidableEq

structure TagStatus where
  tag : String
  version : Int
  phase : PullPhase
  deriving DecidableEq

structure NodeImage where
  name : String
  image : Option ImageSpec
  status : Option (List TagStatus)

inductive CompletionPolicy
  | always
  | never
  deriving DecidableEq

/- `imageTag` is the tag of the image reference, `none` when the reference is invalid. -/
structure Job where
  uid : String
  imageTag : Option String
  parallelism : Option IntOrString
  completionPolicy : CompletionPolicy
  activeDeadlineSeconds : Option Int
  deleting : Bool

structure JobStatus where
  startTime : Option Int
  completionTime : Option Int
  desired : Nat
  active : Nat
  succeeded : Nat
  failed : Nat
  failedNodes : List String

/- The version of the tag if the job owns it, and `-1` otherwise. -/
def ownedVersion (uid tag : String) : List TagSpec → Int → Int
  | [],tagVersion => tagVersion
  | t::tags,tagVersion =>
    if t.tag≠tag then ownedVersion uid tag tags tagVersion
    else if uid∈t.owners then ownedVersion uid tag tags t.version
    else tagVersion

inductive PullClass
  | notSynced
  | pulling
  | succeeded
  | failed
  deriving DecidableEq

variable (uid tag : String) (secrets : List ReferenceObject) (ni : NodeImage) (job : Job)

def tagVersion : Int :=
  match ni.image with
  | none => -1
  | some image => ownedVersion uid tag image.tags (-1)

def secretsSynced : Bool :=
  ni.image.all fun image => secrets.all fun s => decide (s∈image.pullSecrets)

def classify : Option PullClass :=
  if !secretsSynced secrets ni then some .notSynced
  else if tagVersion uid tag ni<0 then some .notSynced
  else match ni.status with
    | none => some .pulling
    | some tags =>
      -- without an entry for the tag the loop ends and nothing is appended
      (tags.find? fun st => st.tag=tag).map fun st =>
        if st.version≠tagVersion uid tag ni then .pulling
        else match st.phase with
          | .succeeded => .succeeded
          | .failed => .failed
          | _ => .pulling

def namesOf (nodeImages : List NodeImage) (c : PullClass) : List String :=
  (nodeImages.filter fun ni => classify uid tag secrets ni=some c).map NodeImage.name

def calculateStatus (tag : String) (startTime now : Int)
    (nodeImages : List NodeImage) (secrets : List ReferenceObject) : JobStatus × List String :=
  let notSynced:=namesOf job.uid tag secrets nodeImages .notSynced
  let pulling:=namesOf job.uid tag secrets nodeImages .pulling
  let succeeded:=namesOf job.uid tag secrets nodeImages .succeeded
  let failed:=namesOf job.uid tag secrets nodeImages .failed
  let expired:=decide (job.completionPolicy≠.never) &&
    decide (nodeImages.length≠succeeded.length+failed.length) &&
    job.activeDeadlineSeconds.any fun deadline => decide (deadline≤now-startTime)
  if expired then
    let failed:=failed++pulling++notSynced
    (⟨some startTime,some now,nodeImages.length,0,succeeded.length,failed.length,failed⟩,[])
  else
    let done:=decide (job.completionPolicy≠.never) &&
      decide (nodeImages.length=succeeded.length+failed.length)
    (⟨some startTime,if done then some now else none,nodeImages.length,pulling.length,
      succeeded.length,failed.length,failed.insertionSort (· ≤ ·)⟩,notSynced)

inductive SyncResult
  | skip
  | rejected
  | updated (ni : NodeImage)

def addOwner (t : TagSpec) : TagSpec :=
  if t.tag=tag then {t with version := t.version+1,owners := t.owners++[uid]} else t

/- The version that the daemon has reported for the tag, `-1` without a report. -/
def foundVersion (tag : String) (ni : NodeImage) : Int :=
  ((ni.status.bind fun tags => tags.find? fun st => st.tag=tag).map TagStatus.version).getD (-1)

def syncNodeImage : SyncResult :=
  let pullSecrets:=(ni.image.map ImageSpec.pullSecrets).getD []
  let tags:=(ni.image.map ImageSpec.tags).getD []
  let pullSecrets:=secrets.foldl (fun l s => if s∈l then l else l++[s]) pullSecrets
  match tags.find? fun t => t.tag=tag with
  | some t =>
    if uid∈t.owners then .skip
    else match admitImage pullSecrets ((tags.map (addOwner uid tag)).insertionSort
        fun a b => a.tag≤b.tag) with
      | none => .rejected
      | some image => .updated {ni with image := some image}
  | none =>
    let added : TagSpec := ⟨tag,foundVersion tag ni+1,[uid]⟩
    match admitImage pullSecrets ((tags++[added]).insertionSort fun a b => a.tag≤b.tag) with
    | none => .rejected
    | some image => .updated {ni with image := some image}

/- `updates` says which updates the API server takes; the first error ends the loop. -/
def syncLoop (uid tag : String) (secrets : List ReferenceObject) (updates : String → Bool) :
    List String → List NodeImage → List NodeImage × Bool
  | [],nodeImages => (nodeImages,true)
  | n::names,nodeImages =>
    match findKey NodeImage.name n nodeImages with
    | none => (nodeImages,false)
    | some ni =>
      match syncNodeImage uid tag secrets ni with
      | .skip => syncLoop uid tag secrets updates names nodeImages
      | .rejected => (nodeImages,false)
      | .updated ni =>
        if updates n then
          syncLoop uid tag secrets updates names (replaceKey NodeImage.name ni nodeImages)
        else (nodeImages,false)

/- A string is no percentage here; one that is no number counts as zero, and one that is out of range
as the bound. -/
def intValue : IntOrString → Int
  | .int i => i
  | .str s => ((parseDecimal s).map fun i => max (-(2^63)) (min i (2^63-1))).getD 0

def parallelismLimit : Int := (job.parallelism.map intValue).getD 1

def syncNodeImages (tag : String) (secrets : List ReferenceObject)
    (updates : String → Bool) (active : Nat) (notSynced : List String)
    (nodeImages : List NodeImage) : List NodeImage × Bool :=
  syncLoop job.uid tag secrets updates (notSynced.take (int64 (parallelismLimit job-active)).toNat)
    nodeImages

structure World where
  nodeImages : List NodeImage
  status : JobStatus

/- A reconcile with the secrets it has synced before, and a progress report of the daemon on one
node. -/
inductive Label
  | reconcile (now : Int) (secrets : List ReferenceObject) (updates : String → Bool)
  | report (name : String) (status : Option (List TagStatus))

def reconcile (now : Int) (secrets : List ReferenceObject) (updates : String → Bool) (w : World) : World :=
  if job.deleting||w.status.completionTime.isSome then w
  else match job.imageTag with
    | none => w
    | some tag =>
      let (status,notSynced) := calculateStatus job tag (w.status.startTime.getD now) now
        w.nodeImages secrets
      let (nodeImages,ok) := syncNodeImages job tag secrets updates status.active notSynced
        w.nodeImages
      ⟨nodeImages,if ok then status else w.status⟩

def isFinished (tag : String) (version : Int) (status : Option (List TagStatus)) : Bool :=
  (status.bind fun tags => tags.find? fun st => st.tag=tag).any fun st =>
    decide (st.version=version)&&(decide (st.phase=.succeeded)||decide (st.phase=.failed))

def progresses (status : Option (List TagStatus)) : Prop :=
  ∀ image∈ni.image,∀ t∈image.tags,
    isFinished t.tag t.version ni.status → isFinished t.tag t.version status
  deriving Decidable

def next (w : World) : Label → Option World
  | .reconcile now secrets updates => some (reconcile job now secrets updates w)
  | .report name status =>
    (findKey NodeImage.name name w.nodeImages).bind fun ni =>
      if progresses ni status then
        let reported : NodeImage := {ni with status := status}
        some {w with nodeImages := replaceKey NodeImage.name reported w.nodeImages}
      else none

def step (w : World) (l : Label) (w' : World) : Prop := next job w l=some w'

end Kruise.ImagePullJob
