import Kruise.Sidecar.Injection

/-!
# Validation of SidecarSets

What the validating webhook asks of a SidecarSet
(`pkg/webhook/sidecarset/validating/sidecarset_create_update_handler.go` 83-409 and `utils.go`
48-66), and the SidecarSets after accepted requests. Of the core validation only the check of
names is here; the others reject more.
-/

namespace Kruise.Sidecar

open Lib.Keyed Util.Selector List

structure FieldError where
  path : String
  value : String
  detail : String
  deriving DecidableEq,Repr

def validateSelector (selector : LabelSelector) (path : String) : List FieldError :=
  if selector.isEmpty then [⟨path, "", "empty selector is not valid for sidecarset."⟩] else []

/- Names of a list of containers of the pod that the webhook makes up for the core validation. -/
def nameErrors (path : String) : List String → Nat → List String → List FieldError
  | _,_,[] => []
  | seen,i,name::names =>
    if name∈seen then
      ⟨path ++ "[" ++ toString i ++ "].name",name, "Duplicate value"⟩ ::
        nameErrors path seen (i+1) names
    else nameErrors path (name::seen) (i+1) names

def validateContainersForSidecarSet (initContainers containers : List SidecarContainer) : List FieldError :=
  let regular :=
    if containers.length=0 then ["test"] else containers.map SidecarContainer.name
  nameErrors "spec.containers" [] 0 regular ++
    nameErrors "spec.initContainers" regular 0 (initContainers.map SidecarContainer.name)

def patchErrors : List String → List PatchPodMetadata → List FieldError
  | _,[] => []
  | seen,patch::patches =>
    (if patch.annotations.length=0 then
      [⟨"spec.patchPodMetadata", "", "no annotations defined for SidecarSet"⟩] else []) ++
    (patch.annotations.filter (· ∈ seen)).map (fun key =>
      ⟨"spec.patchPodMetadata", "", "patch annotation[" ++ key ++ "] already exist"⟩) ++
    patchErrors (seen++patch.annotations) patches

def validateSidecarSetSpec (set : SidecarSet) : List FieldError :=
  validateSelector set.selector "spec.selector" ++
  (if set.namespaceName ≠ "" ∧ set.namespaceSelector.isSome then
    [⟨"spec.namespace, namespaceSelector", "",
      "namespace and namespaceSelector are mutually exclusive"⟩]
  else match set.namespaceSelector with
    | some selector => validateSelector selector "spec.namespaceSelector"
    | none => []) ++
  (if set.initContainers.length=0 ∧ set.containers.length=0 then
    [⟨"spec", "", "no initContainer or container defined for SidecarSet"⟩]
  else validateContainersForSidecarSet set.initContainers set.containers) ++
  patchErrors [] set.patchPodMetadata

def validateSidecarContainerConflict (newContainers oldContainers : List SidecarContainer) : List FieldError :=
  newContainers.flatMap fun c =>
    match oldContainers.reverse.find? fun old => old.name=c.name with
    | some old =>
      if c.hotUpgrade≠old.hotUpgrade then
        [⟨"spec.containers.upgradeStrategy.upgradeType",c.name,
          "container " ++ c.name ++ " upgradeType is immutable"⟩]
      else []
    | none => [⟨"spec.containers.name",c.name, "container " ++ c.name ++ " is not found"⟩]

/- The last test looks up the namespace of the other SidecarSet with the other's own selector. -/
def isSidecarSetNamespaceOverlapping (namespaces : Namespaces) (origin other : SidecarSet) : Bool :=
  let originNamespace:=origin.namespaceName
  let otherNamespace:=other.namespaceName
  let originSelector:=origin.namespaceSelector
  let otherSelector:=other.namespaceSelector
  if originNamespace ≠ "" ∧ otherNamespace ≠ "" ∧ originNamespace≠otherNamespace then false
  else if match originSelector,otherSelector with
      | some s,some t => !isSelectorOverlapping s t
      | _,_ => false then false
  else if originNamespace ≠ "" && otherSelector.isSome &&
      !isSelectorNamespace namespaces originNamespace otherSelector then false
  else if otherNamespace ≠ "" && originSelector.isSome &&
      !isSelectorNamespace namespaces otherNamespace otherSelector then false
  else true

def judgedOverlapping (namespaces : Namespaces) (set other : SidecarSet) : Bool :=
  isSidecarSetNamespaceOverlapping namespaces set other &&
    isSelectorOverlapping set.selector other.selector

/- The others the SidecarSet is compared with; of several the last one is named in an error. -/
def matchedList (namespaces : Namespaces) (sets : List SidecarSet) (set : SidecarSet) : List SidecarSet :=
  (sets.filter (judgedOverlapping namespaces set)).filter fun other => other.name≠set.name

variable (others : List SidecarSet)

/- One member of the family of name checks: `names` are those of one list of a SidecarSet. -/
def nameConflicts (names : SidecarSet → List String) (set : SidecarSet) : List FieldError :=
  (names set).flatMap fun name =>
    match others.reverse.find? fun other => name∈names other with
    | some other =>
      [⟨"spec.containers",name, "container " ++ name ++ " already exist in " ++ other.name⟩]
    | none => []

def SidecarSet.initNames (set : SidecarSet) : List String :=
  set.initContainers.map SidecarContainer.name

def SidecarSet.specNames (set : SidecarSet) : List String :=
  set.containers.map SidecarContainer.name

def volumeConflicts (set : SidecarSet) : List FieldError :=
  set.volumes.flatMap fun volume =>
    match others.reverse.find? fun other => volume.name∈other.volumes.map Volume.name with
    | some other =>
      if findKey Volume.name volume.name other.volumes≠some volume then
        [⟨"spec.volumes",volume.name,
          "volume " ++ volume.name ++ " is in conflict with sidecarset " ++ other.name⟩]
      else []
    | none => []

def SidecarSet.patchedKeys (set : SidecarSet) : List (String × PatchPolicy) :=
  (set.patchPodMetadata.filter fun patch => patch.patchPolicy≠.retain).flatMap fun patch =>
    patch.annotations.map fun key => (key,patch.patchPolicy)

def metadataConflicts (set : SidecarSet) : List FieldError :=
  let inOthers:=others.flatMap fun other => other.patchedKeys.map fun p => (p.1,other.name,p.2)
  set.patchedKeys.flatMap fun patch =>
    match inOthers.reverse.find? fun other => other.1=patch.1 with
    | some other =>
      if patch.2=.overwrite ∨ other.2.2=.overwrite then
        [⟨"spec.patchPodMetadata",patch.1,
          "annotation " ++ patch.1 ++ " is in conflict with sidecarset " ++ other.2.1⟩]
      else []
    | none => []

def validateSidecarConflict (namespaces : Namespaces) (sets : List SidecarSet) (set : SidecarSet) :
    List FieldError :=
  let others:=matchedList namespaces sets set
  nameConflicts others SidecarSet.initNames set++nameConflicts others SidecarSet.specNames set ++
    volumeConflicts others set++metadataConflicts others set

def validateSidecarSet (namespaces : Namespaces) (sets : List SidecarSet)
    (older : Option SidecarSet) (set : SidecarSet) : List FieldError :=
  validateSidecarSetSpec set ++
    (match older with
    | some old => validateSidecarContainerConflict set.containers old.containers
    | none => []) ++
    validateSidecarConflict namespaces sets set

/- The SidecarSets present after accepted requests, the one accepted last first. -/
inductive Accepted (namespaces : Namespaces) : List SidecarSet → Prop
  | empty : Accepted namespaces []
  | create {sets : List SidecarSet} {set : SidecarSet} : Accepted namespaces sets →
      set.name∉sets.map SidecarSet.name → validateSidecarSet namespaces sets none set=[] →
      Accepted namespaces (set::sets)
  | update {sets : List SidecarSet} {set older : SidecarSet} : Accepted namespaces sets →
      older∈sets → older.name=set.name →
      validateSidecarSet namespaces sets (some older) set=[] →
      Accepted namespaces (set::sets.filter fun other => other.name≠set.name)
  | delete {sets : List SidecarSet} (name : String) : Accepted namespaces sets →
      Accepted namespaces (sets.filter fun other => other.name≠name)

theorem nameErrors_eq_nil {path : String} {seen names : List String} {i : Nat}
    (h : nameErrors path seen i names=[]) : names.Nodup ∧ ∀ n∈names,n∉seen := by
  induction names generalizing seen i with
  | nil => exact ⟨nodup_nil,fun n hn => (by cases hn)⟩
  | cons name names ih =>
    rw [nameErrors] at h
    split_ifs at h with hseen
    obtain ⟨hnd,hnew⟩ := ih h
    refine ⟨nodup_cons.mpr ⟨fun hin => hnew name hin mem_cons_self,hnd⟩,?_⟩
    intro n hn
    rcases mem_cons.mp hn with rfl | hin
    · exact hseen
    · exact fun hs => hnew n hin (mem_cons_of_mem name hs)

structure OwnNames (set : SidecarSet) : Prop where
  init : set.initNames.Nodup
  spec : set.specNames.Nodup
  apart : ∀ n∈set.initNames,n∉set.specNames

variable {set : SidecarSet}

theorem ownNames_of_valid (h : validateSidecarSetSpec set=[]) : OwnNames set := by
  unfold validateSidecarSetSpec at h
  simp only [append_eq_nil_iff] at h
  obtain ⟨⟨-,hn⟩,-⟩ := h
  split_ifs at hn with hnone
  obtain ⟨hr,hi⟩ := append_eq_nil_iff.mp hn
  obtain ⟨hinit_nodup,hinit_new⟩ := nameErrors_eq_nil hi
  cases hc : set.containers with
  | nil =>
    refine ⟨hinit_nodup,?_,?_⟩
    · simp [SidecarSet.specNames,hc]
    · simp [SidecarSet.specNames,hc]
  | cons s ss =>
    have hpos : ¬set.containers.length=0 := by simp [hc]
    rw [if_neg hpos] at hr hinit_new
    exact ⟨hinit_nodup,(nameErrors_eq_nil hr).1,hinit_new⟩

theorem nameConflicts_eq_nil {others : List SidecarSet} {names : SidecarSet → List String}
    (h : nameConflicts others names set=[]) {other : SidecarSet} (ho : other∈others) :
    ∀ n∈names set,n∉names other := by
  intro n hn hin
  have hnone:=flatMap_eq_nil_iff.mp h n hn
  cases hf : others.reverse.find? fun other => decide (n∈names other) with
  | none =>
    have hno:=List.find?_eq_none.mp hf other (mem_reverse.mpr ho)
    exact hno (decide_eq_true hin)
  | some last =>
    rw [hf] at hnone
    cases hnone

def Compared (namespaces : Namespaces) (newer older : SidecarSet) : Prop :=
  judgedOverlapping namespaces newer older →
    (∀ n∈newer.initNames,n∉older.initNames) ∧ ∀ n∈newer.specNames,n∉older.specNames

variable {namespaces : Namespaces} {sets : List SidecarSet}

theorem compared_of_valid {set other : SidecarSet}
    (h : validateSidecarConflict namespaces sets set=[]) (ho : other∈sets)
    (hn : other.name≠set.name) : Compared namespaces set other := by
  intro hjudged
  have hm : other∈matchedList namespaces sets set :=
    mem_filter.mpr ⟨mem_filter.mpr ⟨ho,hjudged⟩,decide_eq_true hn⟩
  unfold validateSidecarConflict at h
  simp only [append_eq_nil_iff] at h
  exact ⟨nameConflicts_eq_nil h.1.1.1 hm,nameConflicts_eq_nil h.1.1.2 hm⟩

structure AcceptedNames (namespaces : Namespaces) (sets : List SidecarSet) : Prop where
  nodup : (sets.map SidecarSet.name).Nodup
  own : ∀ set∈sets,OwnNames set
  compared : sets.Pairwise (Compared namespaces)

theorem AcceptedNames.filter (h : AcceptedNames namespaces sets) (keep : SidecarSet → Bool) :
    AcceptedNames namespaces (sets.filter keep) where
  nodup := h.nodup.sublist (filter_sublist.map SidecarSet.name)
  own set hset := h.own set (mem_filter.mp hset).1
  compared := h.compared.sublist filter_sublist

theorem AcceptedNames.cons {sets present : List SidecarSet} {older : Option SidecarSet}
    (h : AcceptedNames namespaces sets) (hsub : ∀ other∈sets,other∈present ∧ other.name≠set.name)
    (hval : validateSidecarSet namespaces present older set=[]) : AcceptedNames namespaces (set::sets) := by
  unfold validateSidecarSet at hval
  simp only [append_eq_nil_iff] at hval
  obtain ⟨⟨hspec,-⟩,hconflict⟩ := hval
  refine ⟨?_,?_,?_⟩
  · refine nodup_cons.mpr ⟨?_,h.nodup⟩
    intro hin
    obtain ⟨other,ho,hn⟩ := mem_map.mp hin
    exact (hsub other ho).2 hn
  · intro other ho
    rcases mem_cons.mp ho with rfl | hin
    · exact ownNames_of_valid hspec
    · exact h.own other hin
  · refine pairwise_cons.mpr ⟨?_,h.compared⟩
    intro other ho
    exact compared_of_valid hconflict (hsub other ho).1 (hsub other ho).2

theorem Accepted.names (h : Accepted namespaces sets) : AcceptedNames namespaces sets := by
  induction h with
  | empty => exact ⟨nodup_nil,fun _ h => (by cases h),Pairwise.nil⟩
  | create _ hnew hval ih =>
    refine ih.cons ?_ hval
    intro other ho
    exact ⟨ho,fun hn => hnew (hn ▸ mem_map_of_mem ho)⟩
  | update _ _ _ hval ih =>
    refine (ih.filter _).cons ?_ hval
    intro other ho
    obtain ⟨hin,hn⟩ := mem_filter.mp ho
    exact ⟨hin,of_decide_eq_true hn⟩
  | delete name _ ih => exact ih.filter _

end Kruise.Sidecar
