import Kruise.Util.Selector

/-!
# Claiming objects by their owner references

`ClaimOwnedObjects` with `claimObject`, `canAdopt`, `adopt` and `release` (`ref_manager.go` 69-104,
144-270), for a manager with a scheme. Each object comes with the error an update of it gets, if
any. The error is wrapped with `%v`, which keeps its text only, before `IsNotFound` looks at it.
-/

namespace Kruise.Util.RefManager

open Selector List

structure OwnerReference where
  uid : String
  controller : Bool

structure Object where
  ns : String
  name : String
  uid : String
  labels : Labels
  deleting : Bool
  ownerReferences : List OwnerReference

inductive Error
  | status (notFound : Bool) (message : String)
  | text (message : String)

def Error.message : Error → String
  | .status _ message => message
  | .text message => message

def isNotFound : Error → Bool
  | .status notFound _ => notFound
  | .text _ => false

structure FreshOwner where
  uid : String
  deletionTimestamp : Option String

/- The owner with its selector. `SetControllerReference` of the library is a parameter: the
references it gives an orphan. -/
structure Manager where
  selector : LabelSelector
  filters : List (Object → Bool)
  ns : String
  name : String
  uid : String
  deleting : Bool
  setControllerReference : Object → Except Error (List OwnerReference)

section

variable (mgr : Manager) (obj : Object)

def isMatch : Bool := mgr.selector.matches obj.labels&&mgr.filters.all fun filter => filter obj

def getControllerOf : Option OwnerReference := obj.ownerReferences.find? (·.controller)

def canAdopt (fresh : Except Error FreshOwner) : Option Error :=
  match fresh with
  | .error err => some err
  | .ok fresh =>
    if fresh.uid≠mgr.uid then
      some (.text (s!"original owner {mgr.ns}/{mgr.name} is gone: "++
        s!"got uid {fresh.uid}, wanted {mgr.uid}"))
    else
      fresh.deletionTimestamp.map fun time =>
        .text s!"{mgr.ns}/{mgr.name} has just been deleted at {time}"

/- `once` is the answer of an earlier call, which is kept. -/
def canAdoptOnce (fresh : Except Error FreshOwner) (once : Option (Option Error)) : Option Error :=
  once.getD (canAdopt mgr fresh)

variable (canAdoptErr answer : Option Error)

def adopt : Option Error × Option (List OwnerReference) :=
  let id:=s!"Object {obj.ns}/{obj.name} ({obj.uid})"
  match canAdoptErr,mgr.setControllerReference obj with
  | some err,_ => (some (.text s!"can't adopt {id}: {err.message}"),none)
  | none,.error err => (some (.text s!"can't set {id} owner reference: {err.message}"),none)
  | none,.ok refs =>
    (answer.map fun err => .text s!"can't update {id} owner reference: {err.message}",some refs)

def release : Option Error × Option (List OwnerReference) :=
  let isOwn:=fun ref : OwnerReference => decide (ref.uid=mgr.uid)
  let id:=s!"{obj.ns}/{obj.name}"
  if obj.ownerReferences.any isOwn then
    (answer.map fun err => .text
      s!"can't remove Pod {id} ({obj.uid}) owner reference {id} ({mgr.uid}): {err.message}",
      some (obj.ownerReferences.eraseP isOwn))
  else (none,none)

structure Claim where
  ok : Bool
  err : Option Error
  sent : Option (List OwnerReference)

def claimObject : Claim :=
  match getControllerOf obj with
  | some controllerRef =>
    if controllerRef.uid≠mgr.uid then ⟨false,none,none⟩
    else if isMatch mgr obj then ⟨true,none,none⟩
    else if mgr.deleting then ⟨false,none,none⟩
    else
      let r:=release mgr obj answer
      ⟨false,r.1.filter fun err => !isNotFound err,r.2⟩
  | none =>
    if mgr.deleting||!isMatch mgr obj then ⟨false,none,none⟩
    else if obj.deleting then ⟨false,none,none⟩
    else
      let r:=adopt mgr obj canAdoptErr answer
      ⟨r.1.isNone,r.1.filter fun err => !isNotFound err,r.2⟩

def adoptable : Bool :=
  (getControllerOf obj).isNone&&!(mgr.deleting||!isMatch mgr obj)&&!obj.deleting

def owned : Bool := (getControllerOf obj).any fun ref => decide (ref.uid=mgr.uid)

def releasable : Bool := owned mgr obj&&!isMatch mgr obj&&!mgr.deleting

end

structure Result where
  claimed : List Object
  errs : List Error
  sent : List (Object × List OwnerReference)

section

variable (mgr : Manager) (fresh : Except Error FreshOwner)

def claimOwnedObjects (once : Option (Option Error)) : List (Object × Option Error) → Result
  | [] => ⟨[],[],[]⟩
  | (obj,answer)::calls =>
    let canAdoptErr:=canAdoptOnce mgr fresh once
    let c:=claimObject mgr obj canAdoptErr answer
    let r:=claimOwnedObjects (if adoptable mgr obj then some canAdoptErr else once) calls
    { claimed :=
        if c.ok then {obj with ownerReferences := c.sent.getD obj.ownerReferences}::r.claimed
        else r.claimed
      errs := c.err.toList++r.errs
      sent := (c.sent.map fun refs => (obj,refs)).toList++r.sent}

variable (canAdoptErr : Option Error) (call : Object × Option Error)

def adopted : Option (List OwnerReference) :=
  if adoptable mgr call.1 ∧ canAdoptErr.isNone ∧ call.2.isNone then
    (mgr.setControllerReference call.1).toOption
  else none

def claimedOf : Option Object :=
  if owned mgr call.1&&isMatch mgr call.1 then some call.1
  else (adopted mgr canAdoptErr call).map fun refs => {call.1 with ownerReferences := refs}

/- Whether a failure is that of an update answered with `NotFound`. -/
def failure : Option Bool :=
  if releasable mgr call.1 then call.2.map isNotFound
  else if adoptable mgr call.1 then
    if canAdoptErr.isSome||(mgr.setControllerReference call.1).toOption.isNone then some false
    else call.2.map isNotFound
  else none

structure ClaimsExactly (calls : List (Object × Option Error)) (r : Result) : Prop where
  foreign : ∀ w∈r.sent,∀ ref,getControllerOf w.1=some ref → ref.uid=mgr.uid
  claimed : r.claimed=calls.filterMap (claimedOf mgr canAdoptErr)
  released : ∀ call∈calls,releasable mgr call.1 → ∃ refs,(call.1,refs)∈r.sent
  reference : ∀ w∈r.sent,owned mgr w.1 → ∃ before ref after,
    w.1.ownerReferences=before++ref::after ∧ ref.uid=mgr.uid ∧ w.2=before++after
  tolerant : (∀ call∈calls,failure mgr canAdoptErr call≠some false) → r.errs=[]

end

variable {mgr : Manager} {fresh : Except Error FreshOwner} {obj : Object}
  {canAdoptErr answer : Option Error} {refs : List OwnerReference}

theorem claimObject_of_releasable (canAdoptErr answer : Option Error) (h : releasable mgr obj) :
    ∃ before ref after,obj.ownerReferences=before++ref::after ∧ ref.uid=mgr.uid ∧
      (claimObject mgr obj canAdoptErr answer).ok=false ∧
      ((claimObject mgr obj canAdoptErr answer).err=none ↔ answer=none) ∧
      (claimObject mgr obj canAdoptErr answer).sent=some (before++after) := by
  simp only [releasable,owned,Bool.and_eq_true,Bool.not_eq_true'] at h
  obtain ⟨⟨ho,hm⟩,hd⟩ := h
  obtain ⟨ref,href,huid⟩ := (Option.any_eq_true _ _).mp ho
  have hmem:=mem_of_find?_eq_some href
  have hany : obj.ownerReferences.any (fun ref => decide (ref.uid=mgr.uid)) :=
    any_eq_true.mpr ⟨ref,hmem,huid⟩
  obtain ⟨own,before,after,-,hown,hrefs,herase⟩ :=
    exists_of_eraseP (p := fun ref => decide (ref.uid=mgr.uid)) hmem huid
  refine ⟨before,own,after,hrefs,of_decide_eq_true hown,?_⟩
  simp only [claimObject,href,not_not.mpr (of_decide_eq_true huid),if_false,hm,hd,release,hany,
    if_true,herase,Bool.false_eq_true]
  cases answer <;> simp [isNotFound]

theorem claimObject_of_adoptable (h : adoptable mgr obj) :
    claimObject mgr obj canAdoptErr answer=
      ⟨(adopt mgr obj canAdoptErr answer).1.isNone,(adopt mgr obj canAdoptErr answer).1,
        (adopt mgr obj canAdoptErr answer).2⟩ := by
  simp only [adoptable,Bool.and_eq_true,Option.isNone_iff_eq_none,Bool.not_eq_true'] at h
  -- the error of an adoption is a text in all three branches
  have htext : (adopt mgr obj canAdoptErr answer).1.filter (fun err => !isNotFound err)=
      (adopt mgr obj canAdoptErr answer).1 := by
    unfold adopt
    split
    · rfl
    · rfl
    · cases answer <;> rfl
  simp [claimObject,h,htext]

theorem claimObject_of_neither (hr : releasable mgr obj=false) (ha : adoptable mgr obj=false) :
    claimObject mgr obj canAdoptErr answer=⟨owned mgr obj&&isMatch mgr obj,none,none⟩ := by
  unfold releasable owned at hr
  unfold adoptable at ha
  unfold claimObject owned
  cases hc : getControllerOf obj with
  | none =>
    simp only [hc] at ha ⊢
    split_ifs with hd hdel
    · rfl
    · rfl
    · simp_all
  | some ref =>
    simp only [hc] at hr ⊢
    split_ifs with hu hm hd
    · simp [hu]
    · simp_all
    · simp_all
    · simp_all

theorem owned_of_adoptable (h : adoptable mgr obj) : owned mgr obj=false := by
  simp only [adoptable,Bool.and_eq_true,Option.isNone_iff_eq_none] at h
  simp [owned,h]

theorem claimed_claimObject :
    (if (claimObject mgr obj canAdoptErr answer).ok then
        some {obj with ownerReferences :=
          (claimObject mgr obj canAdoptErr answer).sent.getD obj.ownerReferences}
      else none)=claimedOf mgr canAdoptErr (obj,answer) := by
  unfold claimedOf adopted
  cases ha : adoptable mgr obj with
  | true =>
    rw [claimObject_of_adoptable ha,owned_of_adoptable ha]
    unfold adopt
    cases canAdoptErr with
    | some err => rfl
    | none => cases mgr.setControllerReference obj <;> cases answer <;> rfl
  | false =>
    cases hr : releasable mgr obj with
    | true =>
      obtain ⟨_,_,_,-,-,hok,-⟩ := claimObject_of_releasable canAdoptErr answer hr
      unfold releasable at hr
      simp_all
    | false => simp [claimObject_of_neither hr ha]

theorem err_claimObject_eq_none_iff :
    (claimObject mgr obj canAdoptErr answer).err=none ↔ failure mgr canAdoptErr (obj,answer)=none := by
  unfold failure
  cases hr : releasable mgr obj with
  | true =>
    obtain ⟨_,_,_,-,-,-,herr,-⟩ := claimObject_of_releasable canAdoptErr answer hr
    rw [herr,if_pos rfl,Option.map_eq_none_iff]
  | false =>
    rw [if_neg Bool.false_ne_true]
    cases ha : adoptable mgr obj with
    | true =>
      rw [claimObject_of_adoptable ha,if_pos rfl]
      unfold adopt
      cases canAdoptErr with
      | some err => simp
      | none => cases mgr.setControllerReference obj <;> simp [Except.toOption]
    | false => simp [claimObject_of_neither hr ha]

/- An object is written if it is adopted or released, and then the manager's own reference goes. -/
theorem sent_claimObject (h : (claimObject mgr obj canAdoptErr answer).sent=some refs) :
    (∀ ref,getControllerOf obj=some ref → ref.uid=mgr.uid) ∧ (owned mgr obj → ∃ before ref after,
        obj.ownerReferences=before++ref::after ∧ ref.uid=mgr.uid ∧ refs=before++after) := by
  cases ha : adoptable mgr obj with
  | true =>
    have hno:=owned_of_adoptable ha
    simp only [adoptable,Bool.and_eq_true,Option.isNone_iff_eq_none] at ha
    simp [ha,hno]
  | false =>
    cases hr : releasable mgr obj with
    | true =>
      obtain ⟨before,ref,after,hrefs,huid,-,-,hsent⟩ := claimObject_of_releasable canAdoptErr answer hr
      have heq : refs=before++after := Option.some.inj (h.symm.trans hsent)
      refine ⟨fun ref href => ?_,fun _ => ⟨before,ref,after,hrefs,huid,heq⟩⟩
      simp only [releasable,owned,href,Option.any_some,Bool.and_eq_true] at hr
      exact of_decide_eq_true hr.1.1
    | false =>
      rw [claimObject_of_neither hr ha] at h
      exact absurd h (Option.some_ne_none _).symm

theorem claimOwnedObjects_eq (once : Option (Option Error)) (calls : List (Object × Option Error)) :
    let canAdoptErr:=canAdoptOnce mgr fresh once
    claimOwnedObjects mgr fresh once calls= ⟨calls.filterMap (claimedOf mgr canAdoptErr),
        calls.filterMap fun call => (claimObject mgr call.1 canAdoptErr call.2).err,
        calls.filterMap fun call =>
          (claimObject mgr call.1 canAdoptErr call.2).sent.map fun refs => (call.1,refs)⟩ := by
  induction calls generalizing once with
  | nil => rfl
  | cons call calls ih =>
    -- the check of the owner has one answer in the whole loop
    have hkeep : canAdoptOnce mgr fresh (if adoptable mgr call.1 then some (canAdoptOnce mgr fresh once) else once)=
          canAdoptOnce mgr fresh once := by
      split_ifs <;> rfl
    have hc:=@claimed_claimObject mgr call.1 (canAdoptOnce mgr fresh once) call.2
    simp only [claimOwnedObjects,ih,hkeep,filterMap_cons,← hc]
    generalize claimObject mgr call.1 (canAdoptOnce mgr fresh once) call.2=c
    obtain ⟨ok,err,sent⟩ := c
    cases ok <;> cases err <;> cases sent <;> rfl

/-- The objects are claimed as they should be exactly if no update is answered with `NotFound`, or
something else fails as well. -/
theorem claimOwnedObjects_exact_iff (once : Option (Option Error)) (calls : List (Object × Option Error)) :
    let canAdoptErr:=canAdoptOnce mgr fresh once
    ClaimsExactly mgr canAdoptErr calls (claimOwnedObjects mgr fresh once calls) ↔
      (∃ call∈calls,failure mgr canAdoptErr call=some false) ∨
        ∀ call∈calls,failure mgr canAdoptErr call≠some true := by
  intro canAdoptErr
  rw [claimOwnedObjects_eq]
  constructor
  · intro h
    by_contra hno
    push Not at hno
    obtain ⟨hother,call,hc,hnf⟩ := hno
    have hnil:=filterMap_eq_nil_iff.mp (h.tolerant hother) call hc
    rw [err_claimObject_eq_none_iff,hnf] at hnil
    exact absurd hnil (Option.some_ne_none _)
  · intro h
    refine ⟨?_,rfl,?_,?_,?_⟩
    · intro w hw
      obtain ⟨call,-,hsent⟩ := mem_filterMap.mp hw
      obtain ⟨refs,hrefs,rfl⟩ := Option.map_eq_some_iff.mp hsent
      exact (sent_claimObject hrefs).1
    · intro call hc hr
      obtain ⟨before,_,after,-,-,-,-,hsent⟩ := claimObject_of_releasable canAdoptErr call.2 hr
      exact ⟨before++after,mem_filterMap.mpr ⟨call,hc,by rw [hsent]; rfl⟩⟩
    · intro w hw
      obtain ⟨call,-,hsent⟩ := mem_filterMap.mp hw
      obtain ⟨refs,hrefs,rfl⟩ := Option.map_eq_some_iff.mp hsent
      exact (sent_claimObject hrefs).2
    · intro hother
      refine filterMap_eq_nil_iff.mpr fun call hc => err_claimObject_eq_none_iff.mpr ?_
      obtain ⟨call',hc',hf⟩|h := h
      · exact absurd hf (hother call' hc')
      · have hf:=hother call hc
        have ht:=h call hc
        cases hfail : failure mgr canAdoptErr call with
        | none => rfl
        | some notFound =>
          cases notFound with
          | true => exact absurd hfail ht
          | false => exact absurd hfail hf

def webSet : Manager :=
  ⟨⟨∅,[]⟩,[], "default", "web", "u1",false,fun obj => .ok (obj.ownerReferences++[⟨"u1",true⟩])⟩

def orphan : Object := ⟨"default", "web-0", "p0",fun _ => none,false,[]⟩

/-- An orphan that has vanished makes the call fail. -/
theorem vanished_orphan_is_error :
    let calls:=[(orphan,some (.status true "pods \"web-0\" not found"))]
    (∀ call∈calls,failure webSet none call=some true) ∧
      ¬ClaimsExactly webSet none calls (claimOwnedObjects webSet (.ok ⟨"u1",none⟩) none calls) := by
  intro calls
  have hnf : ∀ call∈calls,failure webSet none call=some true := fun call hc => by
    obtain rfl := mem_singleton.mp hc
    decide +kernel
  refine ⟨hnf,fun h => ?_⟩
  have hnil:=h.tolerant fun call hc => by
    rw [hnf call hc]
    decide
  exact absurd (congrArg length hnil) (by decide +kernel)

end Kruise.Util.RefManager
