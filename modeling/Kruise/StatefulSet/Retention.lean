import Kruise.Lib.Keyed
import Kruise.StatefulSet.Control

/-!
# Owners of the claims of a set

`claimOwnerMatchesSetAndPod` checks the owners of a claim and `updateClaimOwnerRefForSetAndPod`
repairs them (`stateful_set_utils.go:127-305`); the pod control does so for all claims of a pod
(`stateful_pod_control.go:207-258`).
-/

namespace Kruise.StatefulSet

open List

structure OwnerReference where
  apiVersion : String
  kind : String
  name : String
  uid : String
  controller : Option Bool
  blockOwnerDeletion : Option Bool
  deriving DecidableEq,Repr

def OwnerReference.zero : OwnerReference := ⟨"", "", "", "",none,none⟩

structure TypeMeta where
  apiVersion : String
  kind : String

/- What `metav1.Object` gives of an owner. -/
structure Owner where
  name : String
  uid : String

structure SetObject where
  typeMeta : TypeMeta
  uid : String
  set : Sts

structure PodObject where
  typeMeta : TypeMeta
  uid : String
  pod : Pod

def SetObject.owner (set : SetObject) : Owner := ⟨set.set.objectMeta.name,set.uid⟩

def PodObject.owner (pod : PodObject) : Owner := ⟨pod.pod.name,pod.uid⟩

def hasOwnerRef (refs : List OwnerReference) (owner : Owner) : Bool :=
  refs.any fun ref => ref.uid=owner.uid

def setOwnerRef (refs : List OwnerReference) (owner : Owner) (ownerType : TypeMeta) :
    List OwnerReference × Bool :=
  if hasOwnerRef refs owner then (refs,false)
  else (refs++[⟨ownerType.apiVersion,ownerType.kind,owner.name,owner.uid,none,none⟩],true)

/- One turn over the old references: `skip` moves the later ones up. -/
def removeStep (uid : String) (state : List OwnerReference × Int) (old : OwnerReference × Nat) :
    List OwnerReference × Int :=
  if old.1.uid=uid then (state.1,-1) else (state.1.set (old.2+state.2).toNat old.1,state.2)

def removeOwnerRef (refs : List OwnerReference) (owner : Owner) : List OwnerReference × Bool :=
  if !hasOwnerRef refs owner then (refs,false)
  else ((refs.zipIdx.foldl (removeStep owner.uid)
    (replicate (refs.length-1) .zero,0)).1,true)

def retainPolicy : Apis.V1beta1.StatefulSetPersistentVolumeClaimRetentionPolicy where
  whenDeleted := .retain
  whenScaled := .retain

def getPersistentVolumeClaimRetentionPolicy (set : Sts) :
    Apis.V1beta1.StatefulSetPersistentVolumeClaimRetentionPolicy :=
  set.spec.persistentVolumeClaimRetentionPolicy.getD retainPolicy

def podScaledDown (set : Sts) (pod : Pod) : Bool :=
  getOrdinal pod ≥ replicaCountOf set||isReserved set (getOrdinal pod)

section

variable (set : SetObject) (pod : PodObject)

/- An unknown policy falls through to the first case. -/
def claimOwnerMatchesSetAndPod (refs : List OwnerReference) : Bool :=
  let policy:=getPersistentVolumeClaimRetentionPolicy set.set
  match policy.whenScaled,policy.whenDeleted with
  | .retain,.delete =>
    if !hasOwnerRef refs set.owner||hasOwnerRef refs pod.owner then false else true
  | .delete,.retain =>
    if hasOwnerRef refs set.owner then false
    else if podScaledDown set.set pod.pod≠hasOwnerRef refs pod.owner then false
    else true
  | .delete,.delete =>
    if podScaledDown set.set pod.pod=hasOwnerRef refs set.owner then false
    else if podScaledDown set.set pod.pod≠hasOwnerRef refs pod.owner then false
    else true
  | _,_ => if hasOwnerRef refs set.owner||hasOwnerRef refs pod.owner then false else true

def updateMeta (typeMeta : TypeMeta) (kind : String) : TypeMeta where
  apiVersion :=
    if typeMeta.apiVersion = "" then
      if kind = "StatefulSet" then "apps.kruise.io/v1beta1" else "v1"
    else typeMeta.apiVersion
  kind := if typeMeta.kind = "" then kind else typeMeta.kind

def podMeta : TypeMeta := updateMeta pod.typeMeta "Pod"

def setMeta : TypeMeta := updateMeta set.typeMeta "StatefulSet"

/- The second of two changes, with `needsUpdate` for both. -/
def thenUpdate (first : List OwnerReference × Bool)
    (second : List OwnerReference → List OwnerReference × Bool) : List OwnerReference × Bool :=
  ((second first.1).1,(second first.1).2||first.2)

def updateClaimOwnerRefForSetAndPod (refs : List OwnerReference) : List OwnerReference × Bool :=
  let policy:=getPersistentVolumeClaimRetentionPolicy set.set
  match policy.whenScaled,policy.whenDeleted with
  | .retain,.delete =>
    thenUpdate (setOwnerRef refs set.owner (setMeta set)) fun refs =>
      removeOwnerRef refs pod.owner
  | .delete,.retain =>
    thenUpdate (removeOwnerRef refs set.owner) fun refs =>
      if podScaledDown set.set pod.pod then setOwnerRef refs pod.owner (podMeta pod)
      else removeOwnerRef refs pod.owner
  | .delete,.delete =>
    if podScaledDown set.set pod.pod then
      thenUpdate (removeOwnerRef refs set.owner) fun refs =>
        setOwnerRef refs pod.owner (podMeta pod)
    else
      thenUpdate (setOwnerRef refs set.owner (setMeta set)) fun refs =>
        removeOwnerRef refs pod.owner
  | _,_ =>
    thenUpdate (removeOwnerRef refs set.owner) fun refs => removeOwnerRef refs pod.owner

end

variable {uid : String}

theorem foldl_removeStep {run : List OwnerReference} (hk : ∀ ref∈run,ref.uid≠uid)
    (skip : Int) (k j : Nat) (hj : (k : Int)+skip=j) (written rest : List OwnerReference)
    (hwr : written.length=j) (hrest : run.length≤rest.length) :
    (run.zipIdx k).foldl (removeStep uid) (written++rest,skip) = (written++run++rest.drop run.length,skip) := by
  induction run generalizing k j written rest with
  | nil => simp
  | cons ref run ih =>
    obtain ⟨ho,rest,rfl⟩ : ∃ r rs,rest=r::rs := by
      cases rest with
      | nil => simp at hrest
      | cons r rs => exact ⟨r,rs,rfl⟩
    have hi : ((k : Int)+skip).toNat=written.length := by omega
    have hset : (written++ho::rest).set written.length ref=(written++[ref])++rest := by
      rw [set_append_right _ _ (Nat.le_refl _),Nat.sub_self,set_cons_zero,append_assoc]
      rfl
    rw [zipIdx_cons,foldl_cons,removeStep,if_neg (hk ref mem_cons_self)]
    rw [hi,hset,ih (fun r hr => hk r (mem_cons_of_mem ref hr)) (k+1) (j+1)
      (by omega) (written++[ref]) rest (by simp [hwr]) (by simpa using hrest)]
    simp

variable {refs : List OwnerReference} {owner : Owner}

theorem hasOwnerRef_iff : hasOwnerRef refs owner ↔ owner.uid∈refs.map (·.uid) := by
  rw [hasOwnerRef,any_eq_true,mem_map]
  refine exists_congr fun ref => and_congr_right fun _ => ?_
  rw [decide_eq_true_iff]

theorem notMem_of_hasOwnerRef (h : hasOwnerRef refs owner=false) : owner.uid∉refs.map (·.uid) := by
  rw [← hasOwnerRef_iff,h]
  simp

def otherRefs (uid : String) (refs : List OwnerReference) : List OwnerReference :=
  refs.filter fun ref => ref.uid≠uid

theorem otherRefs_of_notMem (h : uid∉refs.map (·.uid)) : otherRefs uid refs=refs := by
  refine filter_eq_self.mpr fun ref hr => ?_
  simp only [ne_eq,decide_not,Bool.not_eq_true',decide_eq_false_iff_not]
  rintro rfl
  exact h (mem_map_of_mem hr)

theorem removeOwnerRef_eq (hnd : (refs.map (·.uid)).Nodup) (owner : Owner) :
    removeOwnerRef refs owner=(otherRefs owner.uid refs,hasOwnerRef refs owner) := by
  unfold removeOwnerRef
  cases hh : hasOwnerRef refs owner with
  | false =>
    rw [otherRefs_of_notMem (notMem_of_hasOwnerRef hh)]
    rfl
  | true =>
    obtain ⟨ref,href,hu⟩ := mem_map.mp (hasOwnerRef_iff.mp hh)
    obtain ⟨before,after,rfl⟩ := append_of_mem href
    rw [map_append,map_cons,hu,nodup_middle,nodup_cons,← map_append] at hnd
    have hk : ∀ r∈before++after,r.uid≠owner.uid := by
      rintro r hr heq
      exact hnd.1 (heq ▸ mem_map_of_mem hr)
    have ho : otherRefs owner.uid (before++ref::after)=before++after := by
      rw [otherRefs,filter_append,filter_cons_of_neg (by simp [hu]),← filter_append]
      exact otherRefs_of_notMem hnd.1
    have hl : (before++ref::after).length-1=before.length+after.length := by
      rw [length_append,length_cons]
      omega
    -- the references before the gap keep their places, those after it move up by one
    have hbef:=foldl_removeStep (fun r hr => hk r (mem_append_left after hr)) 0 0 0
      rfl [] (replicate (before.length+after.length) .zero) rfl
      (by rw [length_replicate]; omega)
    have ha:=foldl_removeStep (fun r hr => hk r (mem_append_right before hr)) (-1)
      (before.length+1) before.length (by omega) before (replicate after.length .zero) rfl
      (length_replicate).ge
    rw [nil_append,nil_append,drop_replicate,Nat.add_sub_cancel_left] at hbef
    rw [ho,hl,zipIdx_append,zipIdx_cons,foldl_append,hbef,
      foldl_cons,removeStep,if_pos hu,Nat.zero_add,ha,drop_replicate]
    simp

theorem hasOwnerRef_otherRefs (hne : owner.uid≠uid) (refs : List OwnerReference) :
    hasOwnerRef (otherRefs uid refs) owner=hasOwnerRef refs owner := by
  rw [Bool.eq_iff_iff,hasOwnerRef,hasOwnerRef,any_eq_true,any_eq_true]
  refine exists_congr fun ref => ?_
  rw [otherRefs,mem_filter,and_assoc]
  refine and_congr_right fun _ => and_iff_right_of_imp fun hu => ?_
  rw [of_decide_eq_true hu]
  exact decide_eq_true hne

theorem otherRefs_comm (uid uid' : String) (refs : List OwnerReference) :
    otherRefs uid (otherRefs uid' refs)=otherRefs uid' (otherRefs uid refs) := by
  rw [otherRefs,otherRefs,otherRefs,otherRefs,filter_filter,filter_filter]
  apply filter_congr
  intro ref _
  rw [Bool.and_comm]

def assignRef (want : Bool) (owner : Owner) (ownerType : TypeMeta) (refs : List OwnerReference) :
    List OwnerReference × Bool :=
  if want then setOwnerRef refs owner ownerType else removeOwnerRef refs owner

theorem assignRef_settled {want : Bool} (h : hasOwnerRef refs owner=want) (ownerType : TypeMeta) :
    assignRef want owner ownerType refs=(refs,false) := by
  unfold assignRef setOwnerRef removeOwnerRef
  rw [h]
  cases want <;> rfl

structure Assigned (want : Bool) (owner : Owner) (refs : List OwnerReference)
    (r : List OwnerReference × Bool) : Prop where
  has : hasOwnerRef r.1 owner=want
  changed : r.2=(hasOwnerRef refs owner != want)
  others : otherRefs owner.uid r.1=otherRefs owner.uid refs
  nodup : (r.1.map (·.uid)).Nodup

theorem assigned_assignRef (want : Bool) (owner : Owner) (ownerType : TypeMeta) (hnd : (refs.map (·.uid)).Nodup) :
    Assigned want owner refs (assignRef want owner ownerType refs) := by
  by_cases hh : hasOwnerRef refs owner=want
  · rw [assignRef_settled hh]
    exact ⟨hh,by rw [hh,bne_self_eq_false],rfl,hnd⟩
  · cases want with
    | true =>
      rw [Bool.not_eq_true] at hh
      rw [assignRef,if_pos rfl,setOwnerRef,hh,if_neg Bool.false_ne_true]
      refine ⟨by simp [hasOwnerRef],by rw [hh]; rfl,by simp [otherRefs],?_⟩
      rw [map_append,nodup_append]
      refine ⟨hnd,nodup_singleton _,?_⟩
      intro uid hu other ho
      rw [map_singleton,mem_singleton] at ho
      rw [ho]
      exact ne_of_mem_of_not_mem hu (notMem_of_hasOwnerRef hh)
    | false =>
      rw [Bool.not_eq_false] at hh
      rw [assignRef,if_neg Bool.false_ne_true,removeOwnerRef_eq hnd,hh]
      refine ⟨by simp [hasOwnerRef,otherRefs],by rw [hh]; rfl,by simp [otherRefs],?_⟩
      exact hnd.sublist (filter_sublist.map _)

section

variable (set : SetObject) (pod : PodObject)

/- Whether the claims of the pod should be owned by the set, and by the pod. -/
def wantedRefs : Bool × Bool :=
  let policy:=getPersistentVolumeClaimRetentionPolicy set.set
  match policy.whenScaled,policy.whenDeleted with
  | .retain,.delete => (true,false)
  | .delete,.retain => (false,podScaledDown set.set pod.pod)
  | .delete,.delete => (!podScaledDown set.set pod.pod,podScaledDown set.set pod.pod)
  | _,_ => (false,false)

theorem claimOwnerMatches_iff (refs : List OwnerReference) :
    claimOwnerMatchesSetAndPod set pod refs ↔ hasOwnerRef refs set.owner=(wantedRefs set pod).1 ∧
        hasOwnerRef refs pod.owner=(wantedRefs set pod).2 := by
  unfold claimOwnerMatchesSetAndPod wantedRefs
  dsimp only
  generalize hasOwnerRef refs set.owner=a
  generalize hasOwnerRef refs pod.owner=b
  generalize podScaledDown set.set pod.pod=down
  split <;> revert a b down <;> decide

theorem updateClaimOwnerRef_eq :
    updateClaimOwnerRefForSetAndPod set pod refs =
      thenUpdate (assignRef (wantedRefs set pod).1 set.owner (setMeta set) refs)
        (assignRef (wantedRefs set pod).2 pod.owner (podMeta pod)) := by
  unfold updateClaimOwnerRefForSetAndPod wantedRefs
  dsimp only
  cases podScaledDown set.set pod.pod <;> split <;> rfl

end

section

variable {set : SetObject} {pod : PodObject}

theorem updateClaimOwnerRef_of_matches (h : claimOwnerMatchesSetAndPod set pod refs) :
    updateClaimOwnerRefForSetAndPod set pod refs=(refs,false) := by
  obtain ⟨hset,hpod⟩ := (claimOwnerMatches_iff set pod refs).mp h
  rw [updateClaimOwnerRef_eq,assignRef_settled hset,thenUpdate,assignRef_settled hpod]
  rfl

structure Repaired (set : SetObject) (pod : PodObject) (refs : List OwnerReference)
    (r : List OwnerReference × Bool) : Prop where
  setRef : hasOwnerRef r.1 set.owner=(wantedRefs set pod).1
  podRef : hasOwnerRef r.1 pod.owner=(wantedRefs set pod).2
  changed : r.2=((hasOwnerRef refs pod.owner != (wantedRefs set pod).2) ||
    (hasOwnerRef refs set.owner != (wantedRefs set pod).1))
  others : otherRefs set.uid (otherRefs pod.uid r.1)=otherRefs set.uid (otherRefs pod.uid refs)
  nodup : (r.1.map (·.uid)).Nodup

variable {r : List OwnerReference × Bool}

theorem Repaired.matches (h : Repaired set pod refs r) : claimOwnerMatchesSetAndPod set pod r.1 :=
  (claimOwnerMatches_iff set pod r.1).mpr ⟨h.setRef,h.podRef⟩

theorem Repaired.changed_iff (h : Repaired set pod refs r) :
    r.2 ↔ claimOwnerMatchesSetAndPod set pod refs=false := by
  rw [h.changed,← Bool.not_eq_true,claimOwnerMatches_iff,Bool.or_eq_true,bne_iff_ne, bne_iff_ne,not_and_or,or_comm]

theorem repaired_updateClaimOwnerRef (hnd : (refs.map (·.uid)).Nodup) (hne : pod.uid≠set.uid) :
    Repaired set pod refs (updateClaimOwnerRefForSetAndPod set pod refs) := by
  have hf:=assigned_assignRef (wantedRefs set pod).1 set.owner (setMeta set) hnd
  have hsnd:=assigned_assignRef (wantedRefs set pod).2 pod.owner (podMeta pod) hf.nodup
  rw [updateClaimOwnerRef_eq,thenUpdate]
  generalize assignRef (wantedRefs set pod).1 set.owner (setMeta set) refs=first at hf hsnd ⊢
  generalize assignRef (wantedRefs set pod).2 pod.owner (podMeta pod) first.1=second at hsnd ⊢
  -- neither change reaches the reference of the other owner
  have hpod : hasOwnerRef first.1 pod.owner=hasOwnerRef refs pod.owner := by
    rw [← hasOwnerRef_otherRefs hne first.1,← hasOwnerRef_otherRefs hne refs]
    exact congrArg (hasOwnerRef · pod.owner) hf.others
  have hset : hasOwnerRef second.1 set.owner=hasOwnerRef first.1 set.owner := by
    rw [← hasOwnerRef_otherRefs hne.symm second.1,← hasOwnerRef_otherRefs hne.symm first.1]
    exact congrArg (hasOwnerRef · set.owner) hsnd.others
  constructor
  · rw [hset,hf.has]
  · exact hsnd.has
  · rw [hsnd.changed,hf.changed,hpod]
  · calc otherRefs set.uid (otherRefs pod.uid second.1) = otherRefs set.uid (otherRefs pod.uid first.1) :=
          congrArg (otherRefs set.uid) hsnd.others
      _=otherRefs pod.uid (otherRefs set.uid first.1) := otherRefs_comm _ _ _
      _=otherRefs pod.uid (otherRefs set.uid refs) := congrArg (otherRefs pod.uid) hf.others
      _=otherRefs set.uid (otherRefs pod.uid refs) := otherRefs_comm _ _ _
  · exact hsnd.nodup

end

section

variable (getErr updateErr : String → Bool) (set : SetObject) (pod : PodObject)

/- The owners of the claims, by name. -/
abbrev Claims := String → Option (List OwnerReference)

def claimNameOf (template : ClaimTemplate) : String :=
  getPersistentVolumeClaimName set.set template (getOrdinal pod.pod)

/- `none` is an error; a missing claim is passed over. -/
def claimsMatchLoop (claims : Claims) : List ClaimTemplate → Option Bool
  | [] => some true
  | template::templates =>
    if getErr (claimNameOf set pod template) then none
    else match claims (claimNameOf set pod template) with
      | none => claimsMatchLoop claims templates
      | some refs =>
        if !claimOwnerMatchesSetAndPod set pod refs then some false
        else claimsMatchLoop claims templates

def claimsMatchRetentionPolicy (claims : Claims) : Option Bool :=
  claimsMatchLoop getErr set pod claims set.set.spec.volumeClaimTemplates

/- The claims afterwards, and whether there was an error. -/
def updatePodClaimLoop (claims : Claims) : List ClaimTemplate → Claims × Bool
  | [] => (claims,false)
  | template::templates =>
    let name:=claimNameOf set pod template
    if getErr name then (claims,true)
    else match claims name with
      | none => updatePodClaimLoop claims templates
      | some refs =>
        if !claimOwnerMatchesSetAndPod set pod refs then
          let updated:=updateClaimOwnerRefForSetAndPod set pod refs
          if updated.2 then
            if updateErr name then (claims,true)
            else updatePodClaimLoop (Function.update claims name (some updated.1)) templates
          else updatePodClaimLoop claims templates
        else updatePodClaimLoop claims templates

def updatePodClaimForRetentionPolicy (claims : Claims) : Claims × Bool :=
  updatePodClaimLoop getErr updateErr set pod claims set.set.spec.volumeClaimTemplates

/- A name without a claim, or with one that passes the check. -/
def ClaimFits (claims : Claims) (name : String) : Prop :=
  ∀ refs,claims name=some refs → claimOwnerMatchesSetAndPod set pod refs

variable {getErr updateErr set pod}

variable {claims : Claims} {templates : List ClaimTemplate}

theorem claimsMatchLoop_of_fits (h : ∀ template∈templates,getErr (claimNameOf set pod template)=false ∧
      ClaimFits set pod claims (claimNameOf set pod template)) :
    claimsMatchLoop getErr set pod claims templates=some true := by
  induction templates with
  | nil => rfl
  | cons template templates ih =>
    obtain ⟨⟨hg,hf⟩,hr⟩ := forall_mem_cons.mp h
    rw [claimsMatchLoop,hg,if_neg Bool.false_ne_true]
    split
    · exact ih hr
    · next refs hrefs =>
      rw [hf refs hrefs]
      exact ih hr

theorem claimFits_update {name : String} {refs : List OwnerReference}
    (hm : claimOwnerMatchesSetAndPod set pod refs) {other : String}
    (h : other=name ∨ ClaimFits set pod claims other) :
    ClaimFits set pod (Function.update claims name (some refs)) other := by
  intro refs' hr'
  by_cases hn : other=name
  · rw [hn,Function.update_self,Option.some.injEq] at hr'
    rw [← hr']
    exact hm
  · rw [Function.update_of_ne hn] at hr'
    exact h.resolve_left hn refs' hr'

section

variable (hne : pod.uid≠set.uid) (hnd : ∀ name refs,claims name=some refs → (refs.map (·.uid)).Nodup)
include hne hnd

theorem updatePodClaimLoop_cons {template : ClaimTemplate}
    (hok : (updatePodClaimLoop getErr updateErr set pod claims (template::templates)).2=false) :
    getErr (claimNameOf set pod template)=false ∧
      ∃ claims',updatePodClaimLoop getErr updateErr set pod claims (template::templates) =
          updatePodClaimLoop getErr updateErr set pod claims' templates ∧
        (∀ name refs,claims' name=some refs → (refs.map (·.uid)).Nodup) ∧
        (∀ name,ClaimFits set pod claims name → ClaimFits set pod claims' name) ∧
        ClaimFits set pod claims' (claimNameOf set pod template) := by
  rw [updatePodClaimLoop] at hok ⊢
  cases hg : getErr (claimNameOf set pod template) with
  | true =>
    rw [hg] at hok
    cases hok
  | false =>
    rw [hg] at hok
    simp only [Bool.false_eq_true,if_false,true_and] at hok ⊢
    cases hcl : claims (claimNameOf set pod template) with
    | none =>
      refine ⟨claims,rfl,hnd,fun _ h => h,?_⟩
      intro refs hr
      rw [hcl] at hr
      cases hr
    | some refs =>
      rw [hcl] at hok
      dsimp only at hok ⊢
      cases hm : claimOwnerMatchesSetAndPod set pod refs with
      | true =>
        refine ⟨claims,rfl,hnd,fun _ h => h,?_⟩
        intro refs' hr'
        rw [hcl,Option.some.injEq] at hr'
        rw [← hr',hm]
      | false =>
        have hrep:=repaired_updateClaimOwnerRef (hnd _ refs hcl) hne
        rw [hm,hrep.changed_iff.mpr hm] at hok
        rw [hrep.changed_iff.mpr hm]
        cases hu : updateErr (claimNameOf set pod template) with
        | true =>
          rw [hu] at hok
          cases hok
        | false =>
          refine ⟨_,rfl,?_,fun _ h => claimFits_update hrep.matches (.inr h),
            claimFits_update hrep.matches (.inl rfl)⟩
          refine Lib.Keyed.forall_update hnd ?_
          intro refs' hr'
          rw [← Option.some.inj hr']
          exact hrep.nodup

theorem updatePodClaimLoop_fits
    (hok : (updatePodClaimLoop getErr updateErr set pod claims templates).2=false) :
    (∀ name,ClaimFits set pod claims name → ClaimFits set pod
        (updatePodClaimLoop getErr updateErr set pod claims templates).1 name) ∧
      ∀ template∈templates,getErr (claimNameOf set pod template)=false ∧
        ClaimFits set pod (updatePodClaimLoop getErr updateErr set pod claims templates).1
          (claimNameOf set pod template) := by
  induction templates generalizing claims with
  | nil => exact ⟨fun _ h => h,fun _ h => absurd h not_mem_nil⟩
  | cons template templates ih =>
    obtain ⟨hg,claims',hturn,hnd',hkp,hf⟩ := updatePodClaimLoop_cons hne hnd hok
    rw [hturn] at hok ⊢
    obtain ⟨hl,ht⟩ := ih hnd' hok
    exact ⟨fun name h => hl name (hkp name h),forall_mem_cons.mpr ⟨⟨hg,hl _ hf⟩,ht⟩⟩

theorem claimsMatch_of_updatePodClaim
    (hok : (updatePodClaimForRetentionPolicy getErr updateErr set pod claims).2=false) :
    claimsMatchRetentionPolicy getErr set pod
      (updatePodClaimForRetentionPolicy getErr updateErr set pod claims).1=some true :=
  claimsMatchLoop_of_fits (updatePodClaimLoop_fits hne hnd hok).2

end

end

/-- For references with distinct owners and a pod that is not the set: the repair makes the check
pass, reports a change exactly if it did not pass before, changes nothing a second time, and keeps
the references to other owners. -/
theorem updateClaimOwnerRef_repairs (set : SetObject) (pod : PodObject) (refs : List OwnerReference)
    (hnodup : (refs.map (·.uid)).Nodup) (hne : pod.uid≠set.uid) :
    claimOwnerMatchesSetAndPod set pod (updateClaimOwnerRefForSetAndPod set pod refs).1 ∧
      ((updateClaimOwnerRefForSetAndPod set pod refs).2 ↔ claimOwnerMatchesSetAndPod set pod refs=false) ∧
      updateClaimOwnerRefForSetAndPod set pod (updateClaimOwnerRefForSetAndPod set pod refs).1 =
        ((updateClaimOwnerRefForSetAndPod set pod refs).1,false) ∧
      otherRefs set.uid (otherRefs pod.uid (updateClaimOwnerRefForSetAndPod set pod refs).1) =
        otherRefs set.uid (otherRefs pod.uid refs) := by
  have hr:=repaired_updateClaimOwnerRef hnodup hne
  exact ⟨hr.matches,hr.changed_iff,updateClaimOwnerRef_of_matches hr.matches,hr.others⟩

def ownedSet (policy : Apis.V1beta1.StatefulSetPersistentVolumeClaimRetentionPolicy) : SetObject :=
  let set:=plainSet 1 [] .orderedReady none none
  ⟨⟨"", ""⟩, "set-uid",
    {set with spec := {set.spec with persistentVolumeClaimRetentionPolicy := some policy}}⟩

def ownedPod (name : String) : PodObject := ⟨⟨"", ""⟩, "pod-uid",plainPod name "web-a"⟩

def backupRef : OwnerReference := ⟨"v1", "Backup", "daily", "backup-uid",none,none⟩

def setRef : OwnerReference := ⟨"apps.kruise.io/v1beta1", "StatefulSet", "web", "set-uid",none,none⟩

/- The claim of a pod that has been scaled down goes over from the set to the pod. -/
theorem scaled_down_claim_repaired :
    updateClaimOwnerRefForSetAndPod (ownedSet ⟨.delete,.delete⟩) (ownedPod "web-1") [backupRef,setRef] =
        ([backupRef,⟨"v1", "Pod", "web-1", "pod-uid",none,none⟩],true) ∧
      claimOwnerMatchesSetAndPod (ownedSet ⟨.delete,.delete⟩) (ownedPod "web-1")
        (updateClaimOwnerRefForSetAndPod (ownedSet ⟨.delete,.delete⟩) (ownedPod "web-1") [backupRef,setRef]).1 :=
  ⟨by decide +kernel,(updateClaimOwnerRef_repairs (ownedSet ⟨.delete,.delete⟩)
    (ownedPod "web-1") _ (by decide) (by decide)).1⟩

def templateSet : SetObject :=
  let owned:=ownedSet ⟨.delete,.delete⟩
  {owned with set := {owned.set with spec := {owned.set.spec with volumeClaimTemplates := [⟨"data"⟩,⟨"logs"⟩]}}}

def setClaim (name : String) : Option (List OwnerReference) :=
  if name = "data-web-1" then some [setRef]
  else if name = "logs-web-1" then some [backupRef,setRef]
  else none

theorem scaled_down_claims_match :
    claimsMatchRetentionPolicy (fun _ => false) templateSet (ownedPod "web-1") setClaim=some false ∧
      claimsMatchRetentionPolicy (fun _ => false) templateSet (ownedPod "web-1")
        (updatePodClaimForRetentionPolicy (fun _ => false) (fun _ => false) templateSet (ownedPod "web-1")
          setClaim).1=some true := by
  refine ⟨by decide +kernel,claimsMatch_of_updatePodClaim (by decide) ?_ (by decide +kernel)⟩
  intro name refs h
  unfold setClaim at h
  split_ifs at h <;> rw [← Option.some.inj h] <;> decide

end Kruise.StatefulSet
