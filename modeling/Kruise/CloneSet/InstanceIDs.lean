import Kruise.CloneSet.ScaleBudget
import Kruise.Lib.Sorting

/-!
# Instance ids of new pods

`getOrGenAvailableIDs` (`cloneset_scale.go:328-369`) takes ids of claims whose pod is gone and
draws the rest. A draw is compared with the ids of pods and claims, but not with the ids drawn
before it, and the result is a set.
-/

namespace Kruise.CloneSet

open Lib.Sorting List

structure PersistentVolumeClaim where
  labels : String → Option String

def instanceIDOf (labels : String → Option String) : String := (labels cloneSetInstanceID).getD ""

def getInstanceID (pod : Pod) : String := instanceIDOf pod.labels

def claimIDs (pvcs : List PersistentVolumeClaim) : List String :=
  ((pvcs.map fun c => instanceIDOf c.labels).filter (· ≠ "")).dedup

def podIDs (pods : List Pod) : List String := ((pods.map getInstanceID).filter (· ≠ "")).dedup

def existingIDs (pods : List Pod) (pvcs : List PersistentVolumeClaim) : List String :=
  (claimIDs pvcs++podIDs pods).dedup

def availableIDs (pods : List Pod) (pvcs : List PersistentVolumeClaim) : List String :=
  (claimIDs pvcs).filter (· ∉ podIDs pods)

/- Any element of a set of strings; `PopAny` also takes it out. -/
structure PopAny where
  pick : List String → Option String
  pick_mem : ∀ ids id,pick ids=some id → id∈ids
  pick_none : ∀ ids,pick ids=none → ids=[]

/- What it takes one after the other. -/
def PopAny.taken (pop : PopAny) : Nat → List String → List String
  | 0,_ => []
  | num+1,ids => (pop.pick ids).elim [] fun id => id::pop.taken num (ids.erase id)

def lengthOfInstanceID : Nat := 5

/- A result of `rand.String(LengthOfInstanceID)`. -/
structure RandomID where
  text : String
  length : text.length=lengthOfInstanceID

/- Draws until an id is new; `none` when the draws run out before. -/
def genInstanceID (existing : List String) : List RandomID → Option (String × List RandomID)
  | [] => none
  | draw::draws =>
    if draw.text∈existing then genInstanceID existing draws else some (draw.text,draws)

def getOrGenInstanceID (pop : PopAny) (existing available : List String) (draws : List RandomID) :
    Option (String × List String × List RandomID) :=
  let popped:=pop.pick available
  let left:=popped.elim available available.erase
  let id:=popped.getD ""
  if id = "" then (genInstanceID existing draws).map fun r => (r.1,left,r.2)
  else some (id,left,draws)

def getOrGenIDs (pop : PopAny) (existing : List String) :
    Nat → List String → List RandomID → Option (List String)
  | 0,_,_ => some []
  | num+1,available,draws =>
    (getOrGenInstanceID pop existing available draws).bind fun r =>
      (getOrGenIDs pop existing num r.2.1 r.2.2).map (r.1 :: ·)

/- `sets.String.List`. -/
def setList (ids : List String) : List String := stableSort (fun a b => a<b) ids.dedup

def getOrGenAvailableIDs (pop : PopAny) (draws : List RandomID) (num : Nat) (pods : List Pod)
    (pvcs : List PersistentVolumeClaim) : Option (List String) :=
  (getOrGenIDs pop (existingIDs pods pvcs) num (availableIDs pods pvcs) draws).map setList

def acceptedDraws (existing : List String) (draws : List RandomID) : List String :=
  (draws.map (·.text)).filter (· ∉ existing)

variable {draws rest : List RandomID} {ids : List String}

theorem genInstanceID_some {existing : List String} {id : String}
    (h : genInstanceID existing draws=some (id,rest)) :
    acceptedDraws existing draws=id::acceptedDraws existing rest := by
  induction draws with
  | nil => cases h
  | cons draw draws ih =>
    unfold genInstanceID at h
    unfold acceptedDraws
    split_ifs at h with hm
    · rw [map_cons,filter_cons_of_neg (by simpa using hm)]
      exact ih h
    · obtain ⟨rfl,rfl⟩ := Prod.mk.inj (Option.some.inj h)
      rw [map_cons,filter_cons_of_pos (by simpa using hm)]

theorem getOrGenInstanceID_some {pop : PopAny} {existing available left : List String}
    {id : String} (he : "" ∉ available)
    (h : getOrGenInstanceID pop existing available draws=some (id,left,rest)) :
    (pop.pick available=some id ∧ left=available.erase id ∧ rest=draws) ∨
      (pop.pick available=none ∧ available=[] ∧ left=[] ∧
        acceptedDraws existing draws=id::acceptedDraws existing rest) := by
  unfold getOrGenInstanceID at h
  cases hpick : pop.pick available with
  | none =>
    have hn:=pop.pick_none available hpick
    simp only [hpick,Option.getD_none,if_true,Option.map_eq_some_iff,Prod.mk.injEq] at h
    obtain ⟨⟨drawn,others⟩,hg,rfl,rfl,rfl⟩ := h
    exact .inr ⟨rfl,hn,hn,genInstanceID_some hg⟩
  | some popped =>
    have hm:=pop.pick_mem available popped hpick
    have hne : popped ≠ "" := fun heq => he (heq ▸ hm)
    simp only [hpick,Option.getD_some,if_neg hne,Option.some.injEq,Prod.mk.injEq] at h
    obtain ⟨rfl,rfl,rfl⟩ := h
    exact .inl ⟨rfl,rfl,rfl⟩

theorem taken_spec (pop : PopAny) (num : Nat) (available : List String) :
    (pop.taken num available).Subperm available ∧ (pop.taken num available).length=min num available.length := by
  induction num generalizing available with
  | zero => exact ⟨nil_subperm,by simp [PopAny.taken]⟩
  | succ num ih =>
    unfold PopAny.taken
    cases hpick : pop.pick available with
    | none =>
      rw [pop.pick_none available hpick]
      exact ⟨nil_subperm,by simp⟩
    | some id =>
      have hm:=pop.pick_mem available id hpick
      obtain ⟨hsub,hl⟩ := ih (available.erase id)
      have he:=length_erase_of_mem hm
      have hpos:=length_pos_of_mem hm
      refine ⟨((subperm_cons id).mpr hsub).trans (perm_cons_erase hm).symm.subperm,?_⟩
      rw [Option.elim_some,length_cons]
      omega

/- The draws that are used when the free ids do not suffice. -/
def usedDraws (existing available : List String) (draws : List RandomID) (num : Nat) : List String :=
  (acceptedDraws existing draws).take (num-available.length)

theorem getOrGenIDs_eq {pop : PopAny} {existing : List String} {num : Nat}
    {available : List String} {draws : List RandomID} (he : "" ∉ available)
    (h : getOrGenIDs pop existing num available draws=some ids) :
    ids=pop.taken num available++usedDraws existing available draws num ∧ ids.length=num := by
  unfold usedDraws
  induction num generalizing available draws ids with
  | zero =>
    obtain rfl : []=ids := Option.some.inj h
    exact ⟨by simp [PopAny.taken],rfl⟩
  | succ num ih =>
    simp only [getOrGenIDs,Option.bind_eq_some_iff,Option.map_eq_some_iff] at h
    obtain ⟨⟨id,left,rest⟩,hstep,ids',hr,rfl⟩ := h
    rcases getOrGenInstanceID_some he hstep with ⟨hpick,rfl,rfl⟩ | ⟨hn,rfl,rfl,hd⟩
    · have hm:=pop.pick_mem available id hpick
      obtain ⟨rfl,hl⟩ := ih (fun hin => he (mem_of_mem_erase hin)) hr
      have hlen:=length_erase_of_mem hm
      have hpos:=length_pos_of_mem hm
      refine ⟨?_,by rw [length_cons,hl]⟩
      rw [PopAny.taken,hpick,Option.elim_some,cons_append,hlen]
      congr 3
      omega
    · obtain ⟨rfl,hl⟩ := ih he hr
      have hnone : pop.taken num []=[] := subperm_nil.mp (taken_spec pop num []).1
      refine ⟨?_,by rw [length_cons,hl]⟩
      rw [PopAny.taken,hn,hnone,hd]
      rfl

theorem doItSlowly_of_ok (ok : Pod → Bool) (hok : ∀ p,ok p) (fuel size : Nat)
    (pods : List Pod) (hf : pods.length≤fuel) (hsize : 0<size) : doItSlowly ok fuel size pods=(pods,false) := by
  induction fuel generalizing size pods with
  | zero =>
    have hn : pods=[] := length_eq_zero_iff.mp (by omega)
    rw [hn]
    rfl
  | succ fuel ih =>
    unfold doItSlowly
    dsimp only
    by_cases hn : pods=[]
    · subst hn
      simp
    · have hl : 0<pods.length := length_pos_iff.mpr hn
      have ha : (pods.take (min size pods.length)).all ok :=
        all_eq_true.mpr fun p _ => hok p
      have hr:=ih (2*min size pods.length) (pods.drop (min size pods.length))
        (by rw [length_drop]; omega) (by omega)
      rw [if_neg (by omega),if_pos ha,hr,take_append_drop]

variable (env : Env)

theorem createPods_of_accepts (api : ScaleApi) (currentCS updateCS : CloneSetSpec)
    (currentRevision updateRevision : String) (creations current : Int) (ids : List String)
    (hcre : ∀ p,api.createOk p) :
    let newPods:=newVersionedPods env currentCS updateCS currentRevision updateRevision creations current ids
    createPods env api currentCS updateCS currentRevision updateRevision creations current ids =
      ⟨!newPods.isEmpty,false,newPods,[],[]⟩ := by
  intro newPods
  have ha:=doItSlowly_of_ok api.createOk hcre newPods.length initialBatchSize newPods le_rfl (by decide)
  unfold createPods
  simp only [newPods] at ha ⊢
  rw [ha]

theorem newVersionedPods_eq (currentCS updateCS : CloneSetSpec)
    (currentRevision updateRevision : String) (creations current : Int) (ids : List String)
    (hl : (ids.length : Int)≤creations) :
    newVersionedPods env currentCS updateCS currentRevision updateRevision creations current ids =
      (ids.take current.toNat).map (newPod env currentCS currentRevision) ++
        (ids.drop current.toNat).map (newPod env updateCS updateRevision) := by
  unfold newVersionedPods
  split_ifs with h
  · rw [take_of_length_le (by omega),take_of_length_le (by omega), drop_of_length_le (by omega),map_nil,append_nil]
  · congr 2
    rw [take_of_length_le]
    rw [length_drop]
    omega

theorem name_newPod (cs : CloneSetSpec) (revision id : String) :
    (newPod env cs revision id).name=cs.name ++ "-" ++ id := rfl

variable {currentCS updateCS : CloneSetSpec}

theorem names_newPods {name : String} (hcur : currentCS.name=name) (hu : updateCS.name=name)
    (currentRevision updateRevision : String) (k : Nat) (ids : List String) :
    ((ids.take k).map (newPod env currentCS currentRevision) ++
      (ids.drop k).map (newPod env updateCS updateRevision)).map (·.name) =
      ids.map (name ++ "-" ++ ·) := by
  simp only [map_append,map_map,Function.comp_def,name_newPod,hcur,hu]
  rw [← map_append,take_append_drop]

theorem newVersionedPods_names {name : String} (hcur : currentCS.name=name)
    (hu : updateCS.name=name) (currentRevision updateRevision : String)
    (creations current : Int) (ids : List String) (hl : (ids.length : Int)≤creations) :
    (newVersionedPods env currentCS updateCS currentRevision updateRevision creations current
      ids).map (·.name)=ids.map (name ++ "-" ++ ·) := by
  rw [newVersionedPods_eq env currentCS updateCS currentRevision updateRevision creations current ids hl]
  exact names_newPods env hcur hu currentRevision updateRevision current.toNat ids

section

variable {pods : List Pod} {pvcs : List PersistentVolumeClaim} {id : String}

theorem mem_claimIDs : id∈claimIDs pvcs ↔ id ≠ "" ∧ ∃ c∈pvcs,instanceIDOf c.labels=id := by
  simp [claimIDs,and_comm]

theorem mem_podIDs : id∈podIDs pods ↔ id ≠ "" ∧ ∃ p∈pods,getInstanceID p=id := by
  simp [podIDs,and_comm]

theorem mem_availableIDs : id∈availableIDs pods pvcs ↔ id∈claimIDs pvcs ∧ id∉podIDs pods := by
  simp [availableIDs]

theorem mem_existingIDs : id∈existingIDs pods pvcs ↔ id∈claimIDs pvcs ∨ id∈podIDs pods := by
  simp [existingIDs]

theorem availableIDs_nodup : (availableIDs pods pvcs).Nodup := (nodup_dedup _).filter _

theorem empty_notMem_availableIDs : "" ∉ availableIDs pods pvcs := by
  simp [mem_availableIDs,mem_claimIDs]

theorem getInstanceID_ne (hid : id ≠ "") (h : id∉podIDs pods) : ∀ p∈pods,getInstanceID p≠id :=
  fun p hp heq => h (mem_podIDs.mpr ⟨hid,p,hp,heq⟩)

theorem instanceIDOf_ne (hid : id ≠ "") (h : id∉claimIDs pvcs) : ∀ c∈pvcs,instanceIDOf c.labels≠id :=
  fun c hc heq => h (mem_claimIDs.mpr ⟨hid,c,hc,heq⟩)

theorem mem_acceptedDraws {draws : List RandomID} (h : id∈acceptedDraws (existingIDs pods pvcs) draws) :
    id ≠ "" ∧ id∉claimIDs pvcs ∧ id∉podIDs pods := by
  obtain ⟨hd,hn⟩ := mem_filter.mp h
  obtain ⟨draw,-,rfl⟩ := mem_map.mp hd
  have hl:=draw.length
  refine ⟨?_,?_⟩
  · intro he
    rw [he] at hl
    exact absurd hl (by decide)
  · simpa [mem_existingIDs] using hn

theorem setList_perm (ids : List String) : (setList ids).Perm ids.dedup := stableSort_perm _ _

theorem length_setList_iff : (setList ids).length=ids.length ↔ ids.Nodup := by
  rw [(setList_perm ids).length_eq]
  constructor
  · intro h
    exact dedup_eq_self.mp ((dedup_sublist ids).eq_of_length h)
  · intro h
    rw [dedup_eq_self.mpr h]

theorem nodup_ids_iff (pop : PopAny) (draws : List RandomID) (num : Nat) :
    (pop.taken num (availableIDs pods pvcs) ++
        usedDraws (existingIDs pods pvcs) (availableIDs pods pvcs) draws num).Nodup ↔
      (usedDraws (existingIDs pods pvcs) (availableIDs pods pvcs) draws num).Nodup := by
  rw [nodup_append']
  refine ⟨fun h => h.2.1,fun h => ?_⟩
  have hsub:=(taken_spec pop num (availableIDs pods pvcs)).1
  obtain ⟨taken,htk,hsublist⟩ := hsub
  refine ⟨htk.nodup_iff.mp (availableIDs_nodup.sublist hsublist),h,?_⟩
  intro id hr hd
  have hcl:=(mem_availableIDs.mp (hsublist.subset (htk.mem_iff.mpr hr))).1
  exact (mem_acceptedDraws (mem_of_mem_take hd)).2.1 hcl

end

structure SoundIDs (num : Nat) (pods : List Pod) (pvcs : List PersistentVolumeClaim)
    (ids : List String) : Prop where
  length : ids.length=num
  nodup : ids.Nodup
  notInUse : ∀ id∈ids,∀ p∈pods,getInstanceID p≠id
  reuse : ∃ reused generated,ids.Perm (reused++generated) ∧
    (∀ id∈reused,id∈availableIDs pods pvcs) ∧
    reused.length=min num (availableIDs pods pvcs).length ∧
    ∀ id∈generated,(∀ c∈pvcs,instanceIDOf c.labels≠id) ∧ ∀ p∈pods,getInstanceID p≠id

variable {pvcs : List PersistentVolumeClaim}

theorem sound_of_nodup {pop : PopAny} {draws : List RandomID} {num : Nat} {pods : List Pod}
    (heq : ids=pop.taken num (availableIDs pods pvcs) ++
      usedDraws (existingIDs pods pvcs) (availableIDs pods pvcs) draws num)
    (hl : ids.length=num) (hnd : ids.Nodup) : SoundIDs num pods pvcs (setList ids) := by
  have hperm : (setList ids).Perm ids := by
    have h:=setList_perm ids
    rwa [dedup_eq_self.mpr hnd] at h
  obtain ⟨hsub,hlen⟩ := taken_spec pop num (availableIDs pods pvcs)
  refine ⟨hperm.length_eq.trans hl,hperm.nodup_iff.mpr hnd,?_,pop.taken num (availableIDs pods pvcs),
    usedDraws (existingIDs pods pvcs) (availableIDs pods pvcs) draws num,
    hperm.trans (Perm.of_eq heq),hsub.subset,hlen,?_⟩
  · intro id hid
    have hm:=hperm.mem_iff.mp hid
    rw [heq] at hm
    rcases mem_append.mp hm with ho | hd
    · obtain ⟨hcl,hpod⟩ := mem_availableIDs.mp (hsub.subset ho)
      exact getInstanceID_ne (mem_claimIDs.mp hcl).1 hpod
    · obtain ⟨hne,-,hpod⟩ := mem_acceptedDraws (mem_of_mem_take hd)
      exact getInstanceID_ne hne hpod
  · intro id hd
    obtain ⟨hne,hcl,hpod⟩ := mem_acceptedDraws (mem_of_mem_take hd)
    exact ⟨instanceIDOf_ne hne hcl,getInstanceID_ne hne hpod⟩

theorem append_dash_injective (name : String) : Function.Injective fun id : String => name ++ "-" ++ id := by
  intro a b h
  exact String.append_right_inj _ |>.mp h

section

variable (env : Env) (api : ScaleApi) (currentCS updateCS : CloneSetSpec)
  (currentRevision updateRevision : String) (current : Int)

def newNames (num : Nat) (ids : List String) : List String :=
  (createPods env api currentCS updateCS currentRevision updateRevision num current
    ids).created.map (·.name)

variable (hcreate : ∀ p,api.createOk p) (hname : updateCS.name=currentCS.name)
include hcreate hname

theorem newNames_eq {num : Nat} (hl : ids.length=num) :
    newNames env api currentCS updateCS currentRevision updateRevision current num ids =
      ids.map (currentCS.name ++ "-" ++ ·) := by
  unfold newNames
  rw [createPods_of_accepts env api currentCS updateCS currentRevision updateRevision num current ids hcreate]
  exact newVersionedPods_names env rfl hname currentRevision updateRevision num current ids (by rw [hl])

/-- When the draws suffice, the ids are as many as asked for and the names of the new pods are new
exactly when the draws that are used are distinct and no listed pod has the name that goes with an
id that is taken from the free ones or drawn. -/
theorem getOrGenAvailableIDs_sound_iff (pop : PopAny) (draws : List RandomID) (num : Nat)
    (pods : List Pod) (pvcs : List PersistentVolumeClaim) (ids : List String)
    (h : getOrGenAvailableIDs pop draws num pods pvcs=some ids) :
    (SoundIDs num pods pvcs ids ∧
      (newNames env api currentCS updateCS currentRevision updateRevision current num ids).length=num ∧
      (newNames env api currentCS updateCS currentRevision updateRevision current num ids).Nodup ∧
      ∀ p∈pods,p.name∉newNames env api currentCS updateCS currentRevision updateRevision current num ids) ↔
    (usedDraws (existingIDs pods pvcs) (availableIDs pods pvcs) draws num).Nodup ∧
      ∀ p∈pods,∀ id∈pop.taken num (availableIDs pods pvcs) ++
          usedDraws (existingIDs pods pvcs) (availableIDs pods pvcs) draws num,
        p.name≠currentCS.name ++ "-" ++ id := by
  obtain ⟨raw,hr,rfl⟩ := Option.map_eq_some_iff.mp h
  obtain ⟨heq,hl⟩ := getOrGenIDs_eq empty_notMem_availableIDs hr
  have hm : ∀ id,id∈setList raw ↔ id∈raw := fun id => by rw [(setList_perm raw).mem_iff,mem_dedup]
  rw [← nodup_ids_iff pop,← heq]
  constructor
  · rintro ⟨hsou,-,-,hnew⟩
    refine ⟨length_setList_iff.mp (hsou.length.trans hl.symm),fun p hp id hid hn => hnew p hp ?_⟩
    rw [newNames_eq env api currentCS updateCS currentRevision updateRevision current hcreate hname hsou.length,hn]
    exact mem_map_of_mem ((hm id).mpr hid)
  · rintro ⟨hnd,hfree⟩
    have hsou:=sound_of_nodup heq hl hnd
    rw [newNames_eq env api currentCS updateCS currentRevision updateRevision current hcreate hname hsou.length]
    refine ⟨hsou,by rw [length_map,hsou.length],hsou.nodup.map (append_dash_injective _),fun p hp hin => ?_⟩
    obtain ⟨id,hid,hn⟩ := mem_map.mp hin
    exact hfree p hp id ((hm id).mp hid) hn.symm

end

def firstOf : PopAny where
  pick := List.head?
  pick_mem := fun _ _ h => mem_of_head? h
  pick_none := fun _ h => List.head?_eq_none_iff.mp h

def claimOf (id : String) : PersistentVolumeClaim :=
  ⟨fun key => if key=cloneSetInstanceID then some id else none⟩

/-- Three pods are asked for, one claim is free and the same id is drawn twice: two ids. -/
theorem repeated_draw_loses_pod :
    getOrGenAvailableIDs firstOf [⟨"bcdfg",rfl⟩,⟨"bcdfg",rfl⟩] 3 [] [claimOf "a"] = some ["a", "bcdfg"] ∧
      ¬SoundIDs 3 [] [claimOf "a"] ["a", "bcdfg"] :=
  ⟨by decide +kernel,fun h => absurd h.length (by decide)⟩

def listedPod : Pod := newPod quietEnv (plainSpec 4) "web-1" "vwxyz"

/- The id of the listed pod is drawn and passed over, and so is its claim. -/
theorem distinct_draws_sound : SoundIDs 3 [listedPod] [claimOf "vwxyz",claimOf "a"] ["a", "bcdfg", "hjklm"] ∧
    listedPod.name∉newNames quietEnv acceptingApi (plainSpec 4) (plainSpec 4) "web-1" "web-1" 0 3
      ["a", "bcdfg", "hjklm"] := by
  obtain ⟨hsou,-,-,hnew⟩ := (getOrGenAvailableIDs_sound_iff quietEnv acceptingApi (plainSpec 4)
    (plainSpec 4) "web-1" "web-1" 0 (fun _ => rfl) rfl firstOf [⟨"vwxyz",rfl⟩,⟨"bcdfg",rfl⟩,⟨"hjklm",rfl⟩] 3
    [listedPod] [claimOf "vwxyz",claimOf "a"] ["a", "bcdfg", "hjklm"] (by decide +kernel)).mpr (by decide +kernel)
  exact ⟨hsou,hnew listedPod mem_cons_self⟩

end Kruise.CloneSet
