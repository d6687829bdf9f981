import Kruise.Util.IntStr
import Mathlib.Data.List.Basic

/-!
# Launch priorities of containers

The webhook that injects the barrier variables (`container_launch_priority_initialization.go` 18-97)
and the keys they refer to (`container_launch_priority.go` 32-56).
-/

namespace Kruise.ContainerLaunchPriority

open Util.IntStr List Option

/- `priorities` are the values of the variables `KRUISE_CONTAINER_PRIORITY`, `barrierKey` is the key
that the variable `KRUISE_CONTAINER_BARRIER` refers to. -/
structure Container where
  name : String
  priorities : List String
  barrierKey : Option String
  deriving DecidableEq

def getKey (priority : Int) : String := "p_" ++ toString priority

/- `GetContainerPriority`, which drops the error of `Atoi`. -/
def getContainerPriority (c : Container) : Option Int :=
  c.barrierKey.map fun key => (atoi (String.ofList (key.toList.drop 2))).getD 0

/- The value of the last variable counts, and all of them have to parse. -/
def priorityOf (c : Container) : Option Int := c.priorities.foldlM (fun _ v => atoi v) 0

def getPriority (containers : List Container) : Option (List Int × Bool) :=
  (containers.mapM priorityOf).map fun priority =>
    let flag:=containers.any fun c => c.priorities.any fun v => atoi v≠some 0
    (priority,flag&&priority.any fun p => p≠priority.headD 0)

def setPodEnv (priority : List Int) (containers : List Container) : List Container :=
  containers.zipWith (fun c p => {c with barrierKey := some (getKey p)}) priority

/- `none` is an error. -/
def containerLaunchPriorityInitialization (ordered : Bool) (containers : List Container) :
    Option (List Container) :=
  if containers.length=1 then some containers
  else if ordered then
    some (setPodEnv ((range containers.length).map fun i : Nat => 0-(i : Int)) containers)
  else (getPriority containers).map fun (priority,flag) =>
    if flag then setPodEnv priority containers else containers

/- The range of `int`. -/
def IsInt (p : Int) : Prop := -(2^63)≤p ∧ p<2^63
  deriving Decidable

def Keyed (c : Container) : Prop := ∀ key,c.barrierKey=some key → ∃ p,IsInt p ∧ key=getKey p

theorem atoi_getKey {p : Int} (h : IsInt p) : atoi (String.ofList ((getKey p).toList.drop 2))=some p := by
  have ht : (getKey p).toList.drop 2=(toString p).toList := by
    unfold getKey
    rw [String.toList_append]
    rfl
  rw [ht,String.ofList_toList]
  exact atoi_toString h.1 h.2

theorem getKey_inj {p q : Int} (hp : IsInt p) (hq : IsInt q) (h : getKey p=getKey q) : p=q := by
  have hr:=atoi_getKey hp
  rw [h,atoi_getKey hq] at hr
  exact (some.inj hr).symm

theorem getContainerPriority_of_keyed {c : Container} {q : Int} (hk : Keyed c)
    (h : getContainerPriority c=some q) : IsInt q ∧ c.barrierKey=some (getKey q) := by
  obtain ⟨key,hkey,hq⟩ := map_eq_some_iff.mp h
  obtain ⟨p,hp,rfl⟩ := hk key hkey
  rw [atoi_getKey hp,getD_some] at hq
  exact hq ▸ ⟨hp,hkey⟩

theorem isInt_of_foldlM {vs : List String} {p q : Int} (hp : IsInt p)
    (h : vs.foldlM (fun _ v => atoi v) p=some q) : IsInt q := by
  induction vs generalizing p with
  | nil =>
    exact some.inj h ▸ hp
  | cons v vs ih =>
    obtain ⟨r,hr,hrest⟩ := bind_eq_some_iff.mp h
    exact ih (atoi_range hr) hrest

theorem isInt_of_mapM {containers : List Container} {values : List Int}
    (h : containers.mapM priorityOf=some values) : ∀ p∈values,IsInt p := by
  induction containers generalizing values with
  | nil =>
    exact some.inj h ▸ nofun
  | cons c containers ih =>
    rw [mapM_cons] at h
    obtain ⟨q,hq,hr⟩ := bind_eq_some_iff.mp h
    obtain ⟨rest,hvals,hcons⟩ := bind_eq_some_iff.mp hr
    cases hcons
    intro p hp
    rcases mem_cons.mp hp with rfl | hm
    · exact isInt_of_foldlM (by decide) hq
    · exact ih hvals p hm

theorem setPodEnv_spec {priority : List Int} (hprio : ∀ p∈priority,IsInt p) (containers : List Container) :
    (∀ c∈setPodEnv priority containers,Keyed c) ∧ ((setPodEnv priority containers).map Container.name).Sublist
        (containers.map Container.name) := by
  induction containers generalizing priority with
  | nil => exact ⟨nofun,.refl _⟩
  | cons c containers ih =>
    cases priority with
    | nil => exact ⟨nofun,nil_sublist _⟩
    | cons p priority =>
      obtain ⟨hk,hn⟩ := ih fun q hq => hprio q (mem_cons_of_mem p hq)
      refine ⟨?_,hn.cons_cons c.name⟩
      intro d hd
      rcases mem_cons.mp hd with rfl | hr
      · intro key hkey
        exact ⟨p,hprio p mem_cons_self,(some.inj hkey).symm⟩
      · exact hk d hr

theorem containerLaunchPriorityInitialization_spec {ordered : Bool}
    {containers containers' : List Container} (hl : containers.length<2^63)
    (hpl : ∀ c∈containers,c.barrierKey=none)
    (h : containerLaunchPriorityInitialization ordered containers=some containers') :
    (∀ c∈containers',Keyed c) ∧ (containers'.map Container.name).Sublist (containers.map Container.name) := by
  have hsame : (∀ c∈containers,Keyed c) ∧
      (containers.map Container.name).Sublist (containers.map Container.name) := by
    refine ⟨?_,.refl _⟩
    intro c hc key hk
    rw [hpl c hc] at hk
    cases hk
  unfold containerLaunchPriorityInitialization at h
  split_ifs at h with hone ho
  · exact some.inj h ▸ hsame
  · refine some.inj h ▸ setPodEnv_spec ?_ containers
    intro p hp
    obtain ⟨i,hi,rfl⟩ := mem_map.mp hp
    have hlt:=mem_range.mp hi
    unfold IsInt
    omega
  · obtain ⟨⟨priority,flag⟩,hprio,hr⟩ := map_eq_some_iff.mp h
    obtain ⟨values,hvals,hpair⟩ := map_eq_some_iff.mp hprio
    obtain ⟨rfl,-⟩ := Prod.mk.inj hpair
    have hints:=isInt_of_mapM hvals
    cases flag with
    | false => exact hr ▸ hsame
    | true => exact hr ▸ setPodEnv_spec hints containers

end Kruise.ContainerLaunchPriority
