import Kruise.Lib.Sorting
import Kruise.UnitedDeployment.Allocation

/-!
# The revisions of a UnitedDeployment

`constructUnitedDeploymentRevisions` with the clean-up
(`pkg/controller/uniteddeployment/revision.go` 79-238) and the helpers from
`k8s.io/kubernetes/pkg/controller/history`.
-/

namespace Kruise.UnitedDeployment

open Lib.Keyed Util.IntStr List

/- `hashLabel` is the label with the hash, `data` the serialised patch of the template. The
revisions that the UnitedDeployment owns or adopts are `controlled`. -/
structure ControllerRevision where
  name : String
  revision : Int
  creationTimestamp : Int
  hashLabel : Option String
  data : String
  controlled : Bool
  deriving DecidableEq,Repr

def controlledHistories (stored : List ControllerRevision) : List ControllerRevision :=
  stored.filter ControllerRevision.controlled

def ControllerRevision.Less (a b : ControllerRevision) : Prop :=
  if a.revision=b.revision then
    if b.creationTimestamp=a.creationTimestamp then a.name<b.name
    else b.creationTimestamp > a.creationTimestamp
  else a.revision<b.revision
  deriving Decidable

def sortControllerRevisions (revisions : List ControllerRevision) : List ControllerRevision :=
  revisions.insertionSort fun a b => ¬b.Less a

/- Only a hash that reads as a number counts. -/
def ControllerRevision.hashNumber (r : ControllerRevision) : Option Int :=
  r.hashLabel.bind fun label => (parseInt32 label).toOption

def sameHash : Option Int → Option Int → Bool
  | some lhsHash,some rhsHash => decide (lhsHash=rhsHash)
  | _,_ => true

def equalRevision (lhs rhs : ControllerRevision) : Bool :=
  sameHash lhs.hashNumber rhs.hashNumber&&decide (lhs.data=rhs.data)

def findEqualRevisions (revisions : List ControllerRevision) (needle : ControllerRevision) :
    List ControllerRevision :=
  revisions.filter fun r => equalRevision r needle

def nextRevision (revisions : List ControllerRevision) : Int :=
  match revisions.getLast? with
  | none => 1
  | some last => int64 (last.revision+1)

/- Names are ASCII, so that bytes are characters. -/
def controllerRevisionName (parent hash : String) : String :=
  String.ofList (parent.toList.take 223) ++ "-" ++ hash

/- Which requests the API server grants. It takes no negative revision number
(`k8s.io/kubernetes/pkg/apis/apps/validation/validation.go` 253-275). -/
structure RevisionApi where
  list : Bool
  delete : String → Bool
  update : ControllerRevision → Bool
  create : ControllerRevision → Bool
  get : String → Bool
  update_nonneg : ∀ r,update r → 0≤r.revision
  create_nonneg : ∀ r,create r → 0≤r.revision

/- What a call reads of the UnitedDeployment. `hash` is `HashControllerRevision`, by the data and
the collision count, and `now` the time of a creation. -/
structure RevisionCall where
  udName : String
  template : String
  revisionHistoryLimit : Nat
  currentRevision : String
  updatedRevision : Option String
  collisionCount : Option Int
  hash : String → Int → String
  now : Int
  api : RevisionApi

/- A request fails, or every name tried so far is taken. -/
inductive RevisionFailure
  | api
  | collisions
  deriving DecidableEq

/- What is returned, the names of the deleted revisions and what is stored afterwards. -/
structure RevisionOutcome where
  currentRevision : ControllerRevision
  updateRevision : ControllerRevision
  revisions : List ControllerRevision
  collisionCount : Int
  deleted : List String
  stored : List ControllerRevision

namespace RevisionCall

variable (c : RevisionCall)

def isLive (name : String) : Bool :=
  decide (name=c.currentRevision)||decide (c.updatedRevision=some name)

def cleanLoop (exceedNum : Nat) : Nat → List ControllerRevision → Option (List String)
  | _,[] => some []
  | i,revision::rest =>
    if c.isLive revision.name then cleanLoop exceedNum (i+1) rest
    else if i ≥ exceedNum then some []
    else if c.api.delete revision.name then
      (cleanLoop exceedNum (i+1) rest).map (revision.name :: ·)
    else none

def cleanExpiredRevision (sortedRevisions : List ControllerRevision) :
    Option (List String × List ControllerRevision) :=
  let exceedNum:=sortedRevisions.length-c.revisionHistoryLimit
  if exceedNum=0 then some ([],sortedRevisions)
  else (c.cleanLoop exceedNum 0 sortedRevisions).map fun deleted =>
    (deleted,sortedRevisions.drop exceedNum)

def newRevision (revision collisionCount : Int) : ControllerRevision :=
  let hash:=c.hash c.template collisionCount
  ⟨controllerRevisionName c.udName hash,revision,0,some hash,c.template,true⟩

def createControllerRevision (revision : ControllerRevision) (stored : List ControllerRevision) :
    Nat → Int → Except RevisionFailure (ControllerRevision × Int × List ControllerRevision)
  | 0,_ => .error .collisions
  | fuel+1,collisionCount =>
    let hash:=c.hash revision.data collisionCount
    let clone:={revision with
      name := controllerRevisionName c.udName hash
      hashLabel := some hash
      creationTimestamp := c.now}
    match findKey ControllerRevision.name clone.name stored with
    | none =>
      if c.api.create clone then .ok (clone,collisionCount,stored++[clone]) else .error .api
    | some found =>
      if !c.api.get clone.name then .error .api
      else if found.data=clone.data then .ok (found,collisionCount,stored)
      else createControllerRevision revision stored fuel (int32 (collisionCount+1))

def chooseUpdate (fuel : Nat) (revisions stored : List ControllerRevision) :
    Except RevisionFailure
      (ControllerRevision × List ControllerRevision × Int × List ControllerRevision) :=
  let collisionCount:=c.collisionCount.getD 0
  let updateRevision:=c.newRevision (nextRevision revisions) collisionCount
  match (findEqualRevisions revisions updateRevision).getLast?,revisions.getLast? with
  | some equal,some last =>
    if equalRevision last equal then .ok (last,revisions,collisionCount,stored)
    else
      -- the revision that is rolled back to is shared with the list
      let rolledBack:={equal with revision := updateRevision.revision}
      if c.api.update rolledBack then
        .ok (rolledBack,replaceKey ControllerRevision.name rolledBack revisions,collisionCount,
          replaceKey ControllerRevision.name rolledBack stored)
      else .error .api
  | _,_ =>
    (c.createControllerRevision updateRevision stored fuel collisionCount).map fun created =>
      (created.1,revisions,created.2.1,created.2.2)

def constructUnitedDeploymentRevisions (fuel : Nat) (stored : List ControllerRevision) :
    Except RevisionFailure RevisionOutcome :=
  if !c.api.list then .error .api
  else
    match c.cleanExpiredRevision (sortControllerRevisions (controlledHistories stored)) with
    | none => .error .api
    | some cleaned =>
      (c.chooseUpdate fuel cleaned.2 (stored.filter fun r => r.name∉cleaned.1)).map fun chosen =>
        { currentRevision :=
            (findKey ControllerRevision.name c.currentRevision chosen.2.1).getD chosen.1
          updateRevision := chosen.1
          revisions := chosen.2.1
          collisionCount := chosen.2.2.1
          deleted := cleaned.1
          stored := chosen.2.2.2}

section

variable (stored : List ControllerRevision)

def history : List ControllerRevision := sortControllerRevisions (controlledHistories stored)

def cutOff : List ControllerRevision :=
  (history stored).take ((history stored).length-c.revisionHistoryLimit)

def kept : List ControllerRevision :=
  (history stored).drop ((history stored).length-c.revisionHistoryLimit)

def expired : List String :=
  ((c.cutOff stored).filter fun r => !c.isLive r.name).map ControllerRevision.name

def remaining : List ControllerRevision := stored.filter fun r => r.name∉c.expired stored

variable {c stored} {revisions : List ControllerRevision}

theorem cleanLoop_some {exceedNum i : Nat} {deleted : List String}
    (h : c.cleanLoop exceedNum i revisions=some deleted) :
    deleted=((revisions.take (exceedNum-i)).filter fun r => !c.isLive r.name).map ControllerRevision.name := by
  induction revisions generalizing i deleted with
  | nil =>
    rw [← Option.some.inj h]
    simp
  | cons r rest ih =>
    unfold cleanLoop at h
    split_ifs at h with hl he hd
    · rw [ih h]
      cases hr : exceedNum-i with
      | zero =>
        have hn : exceedNum-(i+1)=0 := by omega
        rw [hn]
        simp
      | succ room =>
        have hn : exceedNum-(i+1)=room := by omega
        rw [hn,take_succ_cons,filter_cons_of_neg (by simp [hl])]
    · have hr : exceedNum-i=0 := by omega
      rw [← Option.some.inj h,hr]
      simp
    · obtain ⟨rest',hrest,rfl⟩ := Option.map_eq_some_iff.mp h
      have hr : exceedNum-i=exceedNum-(i+1)+1 := by omega
      rw [ih hrest,hr,take_succ_cons,filter_cons_of_pos (by simp [hl]),map_cons]

theorem cleanExpiredRevision_some {deleted : List String}
    (h : c.cleanExpiredRevision (history stored)=some (deleted,revisions)) :
    deleted=c.expired stored ∧ revisions=c.kept stored := by
  unfold cleanExpiredRevision at h
  unfold expired cutOff kept
  dsimp only at h
  split_ifs at h with ha
  · obtain ⟨rfl,rfl⟩ := Prod.mk.inj (Option.some.inj h)
    rw [ha]
    exact ⟨rfl,rfl⟩
  · obtain ⟨names,hnames,heq⟩ := Option.map_eq_some_iff.mp h
    obtain ⟨rfl,rfl⟩ := Prod.mk.inj heq
    have hd:=cleanLoop_some hnames
    exact ⟨hd,rfl⟩

theorem notMem_expired_of_isLive {name : String} (h : c.isLive name) : name∉c.expired stored := by
  intro hm
  obtain ⟨r,hr,rfl⟩ := mem_map.mp hm
  have hd:=(mem_filter.mp hr).2
  rw [h] at hd
  cases hd

variable {r : ControllerRevision}

theorem mem_history : r∈history stored ↔ r∈stored ∧ r.controlled := by
  unfold history sortControllerRevisions controlledHistories
  rw [mem_insertionSort,mem_filter]

theorem mem_history_iff : r∈history stored ↔ r∈c.cutOff stored ∨ r∈c.kept stored := by
  unfold cutOff kept
  rw [← mem_append,take_append_drop]

variable (hnames : (stored.map ControllerRevision.name).Nodup)
include hnames

theorem nodup_history : ((history stored).map ControllerRevision.name).Nodup := by
  have hperm : (history stored).Perm (controlledHistories stored) := perm_insertionSort _ _
  refine (hperm.map _).nodup_iff.mpr ?_
  exact hnames.sublist (filter_sublist.map _)

theorem name_ne_of_cutOff {r r' : ControllerRevision} (hr : r∈c.cutOff stored)
    (hr' : r'∈c.kept stored) : r'.name≠r.name := by
  intro hname
  have hnd:=nodup_history hnames
  obtain rfl := inj_on_of_nodup_map hnd (mem_history_iff.mpr (.inr hr')) (mem_history_iff.mpr (.inl hr)) hname
  exact disjoint_take_drop hnd.of_map (le_refl _) hr hr'

theorem mem_remaining_of_kept (hr : r∈c.kept stored) : r∈c.remaining stored := by
  have hmem:=(mem_history.mp (mem_history_iff.mpr (.inr hr))).1
  refine mem_filter.mpr ⟨hmem,decide_eq_true ?_⟩
  intro he
  obtain ⟨r',hr',hname⟩ := mem_map.mp he
  exact name_ne_of_cutOff hnames (mem_filter.mp hr').1 hr hname.symm

theorem nodup_remaining : ((c.remaining stored).map ControllerRevision.name).Nodup :=
  hnames.sublist (filter_sublist.map _)

end

section

variable {c} {stored : List ControllerRevision}

variable (stored) in
theorem pairwise_history : (history stored).Pairwise fun a b => a.revision≤b.revision := by
  refine Lib.Sorting.pairwise_insertionSort_of ?_ ?_ ?_ _
  · exact fun a b c hab hbc => hab.trans hbc
  · intro a b hl
    by_contra hgt
    refine hl ?_
    rw [ControllerRevision.Less,if_neg (by omega)]
    omega
  · intro a b hl
    rw [not_not,ControllerRevision.Less] at hl
    split_ifs at hl <;> omega

variable {last : ControllerRevision}

theorem revision_le_last (hlast : (c.kept stored).getLast?=some last) {r : ControllerRevision}
    (hr : r∈c.remaining stored) (hctl : r.controlled) : r.revision≤last.revision := by
  have hmem : r∈history stored := mem_history.mpr ⟨mem_of_mem_filter hr,hctl⟩
  have hsrt:=pairwise_history stored
  obtain ⟨before,hk⟩ := getLast?_eq_some_iff.mp hlast
  have hspl : history stored=(c.cutOff stored++before)++[last] := by
    rw [append_assoc,← hk]
    exact (take_append_drop _ _).symm
  rw [hspl] at hmem hsrt
  rcases mem_append.mp hmem with hmem | hmem
  · exact (pairwise_append.mp hsrt).2.2 r hmem last (mem_singleton_self last)
  · rw [mem_singleton.mp hmem]

theorem nextRevision_gt {revisions : List ControllerRevision} (hl : revisions.getLast?=some last)
    (hi : -(2^63)≤last.revision ∧ last.revision<2^63) (h : 0≤nextRevision revisions) :
    last.revision<nextRevision revisions := by
  unfold nextRevision int64 at *
  rw [hl] at h ⊢
  dsimp only at h ⊢
  by_cases hm : last.revision=2^63-1
  · rw [hm] at h
    exact absurd h (by decide)
  · rw [Int.bmod_eq_of_le (by omega) (by omega)]
    omega

end

section

def nameAt (collisionCount : Int) : String :=
  controllerRevisionName c.udName (c.hash c.template collisionCount)

def countAfter (collisionCount : Int) : Nat → Int
  | 0 => collisionCount
  | n+1 => countAfter (int32 (collisionCount+1)) n

/- It has the data of the template, and the names tried before are those of other data. -/
def Reuses (stored : List ControllerRevision) (collisionCount : Int) (found : ControllerRevision) : Prop :=
  found∈stored ∧ found.data=c.template ∧
    ∃ n,found.name=c.nameAt (countAfter collisionCount n) ∧
      ∀ m<n,∃ r∈stored,r.name=c.nameAt (countAfter collisionCount m) ∧
        r.data≠c.template

def FindsName (stored : List ControllerRevision) (collisionCount : Int) (fuel : Nat) : Prop :=
  ∃ n<fuel,∀ r∈stored,r.name=c.nameAt (countAfter collisionCount n) →
    r.data=c.template

variable {c} {stored : List ControllerRevision} {collisionCount : Int}

theorem Reuses.unique (hnames : (stored.map ControllerRevision.name).Nodup)
    {found found' : ControllerRevision} (h : c.Reuses stored collisionCount found)
    (h' : c.Reuses stored collisionCount found') : found=found' := by
  obtain ⟨hm,hd,n,hn,hbef⟩ := h
  obtain ⟨hm',hd',n',hn',hbef'⟩ := h'
  have hsame : n=n' := by
    rcases Nat.lt_trichotomy n n' with hlt | heq | hlt
    · obtain ⟨r,hr,hrname,hrdata⟩ := hbef' n hlt
      obtain rfl := inj_on_of_nodup_map hnames hm hr (hn.trans hrname.symm)
      exact absurd hd hrdata
    · exact heq
    · obtain ⟨r,hr,hrname,hrdata⟩ := hbef n' hlt
      obtain rfl := inj_on_of_nodup_map hnames hm' hr (hn'.trans hrname.symm)
      exact absurd hd' hrdata
  subst hsame
  exact inj_on_of_nodup_map hnames hm hm' (hn.trans hn'.symm)

theorem reuses_next (hnames : (stored.map ControllerRevision.name).Nodup)
    {other : ControllerRevision} (hmem : other∈stored)
    (hname : other.name=c.nameAt collisionCount) (hd : other.data≠c.template) (found : ControllerRevision) :
    c.Reuses stored collisionCount found ↔ c.Reuses stored (int32 (collisionCount+1)) found := by
  constructor
  · rintro ⟨hf,ht,n,hn,hbef⟩
    refine ⟨hf,ht,?_⟩
    cases n with
    | zero =>
      obtain rfl := inj_on_of_nodup_map hnames hf hmem (hn.trans hname.symm)
      exact absurd ht hd
    | succ n => exact ⟨n,hn,fun m hm => hbef (m+1) (by omega)⟩
  · rintro ⟨hf,ht,n,hn,hbef⟩
    refine ⟨hf,ht,n+1,hn,?_⟩
    intro m hm
    cases m with
    | zero => exact ⟨other,hmem,hname,hd⟩
    | succ m => exact hbef m (by omega)

/- It returns the revision that it runs into, or stores a new one. -/
inductive Created (c : RevisionCall) (revision : ControllerRevision)
    (stored : List ControllerRevision) (collisionCount : Int) (created : ControllerRevision) :
    List ControllerRevision → Prop
  | reused (h : c.Reuses stored collisionCount created) :
    Created c revision stored collisionCount created stored
  | fresh (h : ∀ found,¬c.Reuses stored collisionCount found)
    (hname : created.name∉stored.map ControllerRevision.name)
    (hdata : created.data=c.template) (hrevision : created.revision=revision.revision)
    (hnonneg : 0≤created.revision) :
    Created c revision stored collisionCount created (stored++[created])

variable {revision : ControllerRevision}

theorem createControllerRevision_created {fuel : Nat} (hnames : (stored.map ControllerRevision.name).Nodup)
    (hd : revision.data=c.template) (hf : c.FindsName stored collisionCount fuel)
    (ha : c.createControllerRevision revision stored fuel collisionCount≠.error .api) :
    ∃ created count stored',
      c.createControllerRevision revision stored fuel collisionCount=.ok (created,count,stored') ∧
        Created c revision stored collisionCount created stored' := by
  obtain ⟨n,hn,hfree⟩ := hf
  induction fuel generalizing collisionCount n with
  | zero => exact absurd hn (by omega)
  | succ fuel ih =>
    rw [createControllerRevision,hd,← nameAt] at ha ⊢
    dsimp only at ha ⊢
    cases hfnd : findKey ControllerRevision.name (c.nameAt collisionCount) stored with
    | none =>
      rw [hfnd] at ha
      dsimp only at ha ⊢
      split_ifs at ha ⊢ with hcre
      · have hnew : c.nameAt collisionCount∉stored.map ControllerRevision.name := by
          intro hmem
          obtain ⟨r,hr⟩ := findKey_isSome hmem
          rw [hr] at hfnd
          cases hfnd
        refine ⟨_,_,_,rfl,.fresh ?_ hnew rfl rfl (c.api.create_nonneg _ hcre)⟩
        rintro found ⟨hmem,-,n,hn,hbef⟩
        cases n with
        | zero => exact hnew (mem_map.mpr ⟨found,hmem,hn⟩)
        | succ n =>
          obtain ⟨r,hr,hname,-⟩ := hbef 0 (by omega)
          exact hnew (mem_map.mpr ⟨r,hr,hname⟩)
      · exact absurd rfl ha
    | some found =>
      obtain ⟨hmem,hname⟩ := findKey_some hfnd
      rw [hfnd] at ha
      dsimp only at ha ⊢
      split_ifs at ha ⊢ with hg hsame
      · exact absurd rfl ha
      · exact ⟨_,_,_,rfl,.reused ⟨hmem,hsame,0,hname,fun m hm => absurd hm (by omega)⟩⟩
      · cases n with
        | zero => exact absurd (hfree found hmem hname) hsame
        | succ n =>
          obtain ⟨created,count,stored',hok,hcreated⟩ := ih ha n (by omega) hfree
          refine ⟨created,count,stored',hok,?_⟩
          cases hcreated with
          | reused hreu => exact .reused ((reuses_next hnames hmem hname hsame _).mpr hreu)
          | fresh hreu hnew hd hrevision hnonneg =>
            refine .fresh (fun other ho => ?_) hnew hd hrevision hnonneg
            exact hreu other ((reuses_next hnames hmem hname hsame other).mp ho)

end

end RevisionCall

end Kruise.UnitedDeployment
