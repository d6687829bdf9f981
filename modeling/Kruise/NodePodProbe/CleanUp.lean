import Kruise.Lib.Keyed
import Kruise.Lib.Transition
import Kruise.Lib.Versioned
import Kruise.PodProbeMarker.Sync

/-!
# Cleaning up a NodePodProbe while markers add probes

`syncPodFromNodePodProbe` (`node_pod_probe_controller.go` 174-218) removes the entries of pods that
are gone, and `updateNodePodProbes` adds probes. The clean-up computes the new spec from the copy it
was given; when its update is refused it reads the object again and puts the same spec over it. A
read may give any version; a pod is read as it is at that moment.
-/

namespace Kruise.NodePodProbe

open Lib.Keyed Lib.Transition Lib.Versioned PodProbeMarker Option

/- The clean-up looks at the pods of its copy one after the other, then reads and updates in turn
with the same new spec; a marker writes what it has computed from `base`. -/
inductive Call
  | scanning (npp : Stored NodePodProbe) (rest : List PodProbe) (matched : List String)
  | retrying (npp : Stored NodePodProbe) (newSpec : List PodProbe)
  | updating (npp : Stored NodePodProbe) (newSpec : List PodProbe) (clone : Stored NodePodProbe)
  | marking (base : Stored NodePodProbe) (out : NodePodProbe)

structure World where
  store : Store NodePodProbe
  pods : String × String → Option Pod
  calls : Nat → Option Call

def World.setCall (w : World) (a : Nat) (call : Option Call) : World :=
  {w with calls := Function.update w.calls a call}

def World.setPod (w : World) (key : String × String) (pod : Option Pod) : World :=
  {w with pods := Function.update w.pods key pod}

/- The pod of the entry is found, active and still the same one. -/
def podMatches (pods : String × String → Option Pod) (entry : PodProbe) : Bool :=
  (pods (entry.ns,entry.name)).any fun pod => isPodActive pod&&decide (pod.uid=entry.uid)

/- `status` is a write to the status. -/
inductive Label
  | setPod (key : String × String) (pod : Option Pod)
  | cleanStart (a i : Nat)
  | scan (a : Nat)
  | cleanGet (a i : Nat)
  | cleanUpdate (a : Nat)
  | mark (a i : Nat) (m : Marker) (probes : List PodContainerProbe) (pods : List Pod)
  | markUpdate (a : Nat)
  | fail (a : Nat)
  | status

def scanNext (pods : String × String → Option Pod) (npp : Stored NodePodProbe)
    (rest : List PodProbe) (matched : List String) : Option Call :=
  match rest with
  | entry::rest =>
    some (.scanning npp rest (if podMatches pods entry then entry.uid::matched else matched))
  | [] =>
    let newSpec:=npp.obj.podProbes.filter fun entry => entry.uid∈matched
    if newSpec=npp.obj.podProbes then none else some (.retrying npp newSpec)

def next (convert : Pod → PodContainerProbe → Option String) (w : World) : Label → Option World
  | .setPod key pod => some (w.setPod key pod)
  | .cleanStart a i =>
    match w.calls a,w.store.at i with
    | none,some npp => some (w.setCall a (some (.scanning npp npp.obj.podProbes [])))
    | _,_ => none
  | .scan a =>
    match w.calls a with
    | some (.scanning npp rest matched) => some (w.setCall a (scanNext w.pods npp rest matched))
    | _ => none
  | .cleanGet a i =>
    match w.calls a,w.store.at i with
    | some (.retrying npp newSpec),some clone =>
      if clone.obj.podProbes=newSpec then some (w.setCall a none)
      else some (w.setCall a (some (.updating npp newSpec clone)))
    | _,_ => none
  | .cleanUpdate a =>
    match w.calls a with
    | some (.updating npp newSpec clone) =>
      match w.store.update clone {clone.obj with podProbes := newSpec} with
      | some store => some {w.setCall a none with store := store}
      | none => some (w.setCall a (some (.retrying npp newSpec)))
    | _ => none
  | .mark a i m probes pods =>
    match w.calls a,w.store.at i with
    | none,some base =>
      some (w.setCall a (some (.marking base (updateNodePodProbes convert m probes pods base.obj))))
    | _,_ => none
  | .markUpdate a =>
    match w.calls a with
    | some (.marking base out) =>
      match w.store.update base out with
      | some store => some {w.setCall a none with store := store}
      | none => some (w.setCall a none)
    | _ => none
  | .fail a => (w.calls a).map fun _ => w.setCall a none
  | .status => some {w with store := w.store.put w.store.current.obj}

def Step (convert : Pod → PodContainerProbe → Option String) (w : World) (l : Label) (w' : World) : Prop :=
  next convert w l=some w'

structure PodId where
  ns : String
  name : String
  uid : String

def PodId.Owns (p : PodId) (entry : PodProbe) : Prop :=
  entry.ns=p.ns ∧ entry.name=p.name ∧ entry.uid=p.uid
  deriving Decidable

def PodId.HasProbe (p : PodId) (entries : List PodProbe) (probe : ContainerProbe) : Prop :=
  ∃ entry∈entries,p.Owns entry ∧ probe∈entry.probes
  deriving Decidable

def PodId.isActive (p : PodId) (pods : String × String → Option Pod) : Bool :=
  (pods (p.ns,p.name)).any fun pod => isPodActive pod&&decide (pod.uid=p.uid)

def Init (p : PodId) (w : World) : Prop :=
  (∃ npp,w.store=Store.start npp) ∧ (∀ a,w.calls a=none) ∧ p.isActive w.pods

def StaysActive (p : PodId) (w : World) : Label → Prop
  | .setPod key pod => p.isActive (w.setPod key pod).pods
  | _ => True

instance (p : PodId) (w : World) : ∀ l,Decidable (StaysActive p w l)
  | .setPod key pod => inferInstanceAs (Decidable (p.isActive (w.setPod key pod).pods))
  | .cleanStart _ _ | .scan _ | .cleanGet _ _ | .cleanUpdate _ | .mark _ _ _ _ _ | .markUpdate _
  | .fail _ | .status => isTrue trivial

/- What an accepted clean-up writes over has no probe of the pod that its own copy did not have. -/
def SeesProbes (p : PodId) (w : World) (a : Nat) : Prop :=
  ∀ npp newSpec clone,w.calls a=some (.updating npp newSpec clone) →
    clone.rv=w.store.current.rv → ∀ probe,p.HasProbe clone.obj.podProbes probe →
      p.HasProbe npp.obj.podProbes probe

abbrev Run (convert : Pod → PodContainerProbe → Option String) (p : PodId) : World → Prop :=
  Reachable (Init p) (Restricted (Step convert) (StaysActive p))

def CallOk (p : PodId) (store : Store NodePodProbe) : Call → Prop
  | .scanning npp rest matched =>
    ∀ entry∈npp.obj.podProbes,p.Owns entry → entry∈rest ∨ entry.uid∈matched
  | .retrying npp newSpec => ∀ entry∈npp.obj.podProbes,p.Owns entry → entry∈newSpec
  | .updating npp newSpec clone =>
    store.Copy clone ∧ ∀ entry∈npp.obj.podProbes,p.Owns entry → entry∈newSpec
  | .marking _ _ => True

structure Inv (p : PodId) (w : World) : Prop where
  active : p.isActive w.pods
  calls : ∀ a call,w.calls a=some call → CallOk p w.store call

section

variable {convert : Pod → PodContainerProbe → Option String} {p : PodId} {w w' : World}

theorem CallOk.put {store : Store NodePodProbe} {call : Call} (h : CallOk p store call)
    (npp : NodePodProbe) : CallOk p (store.put npp) call := by
  cases call with
  | scanning copy rest matched => exact h
  | retrying copy newSpec => exact h
  | updating copy newSpec clone => exact ⟨h.1.put npp,h.2⟩
  | marking base out => exact h

theorem Inv.setCall (h : Inv p w) (a : Nat) {call : Option Call}
    (hcall : ∀ c,call=some c → CallOk p w.store c) : Inv p (w.setCall a call) :=
  ⟨h.active,forall_update h.calls hcall⟩

theorem Inv.clearCall (h : Inv p w) (a : Nat) : Inv p (w.setCall a none) :=
  h.setCall a fun _ hc => by cases hc

theorem Inv.put (h : Inv p w) (npp : NodePodProbe) : Inv p {w with store := w.store.put npp} :=
  ⟨h.active,fun a call hcall => (h.calls a call hcall).put npp⟩

theorem podMatches_of_owns {pods : String × String → Option Pod} (ha : p.isActive pods)
    {entry : PodProbe} (ho : p.Owns entry) : podMatches pods entry := by
  obtain ⟨hns,hn,hu⟩ := ho
  unfold podMatches
  rw [hns,hn,hu]
  exact ha

theorem callOk_scanNext (h : Inv p w) {npp : Stored NodePodProbe} {rest : List PodProbe}
    {matched : List String} (hscan : CallOk p w.store (.scanning npp rest matched)) {call : Call}
    (hcall : scanNext w.pods npp rest matched=some call) : CallOk p w.store call := by
  cases rest with
  | nil =>
    simp only [scanNext] at hcall
    split_ifs at hcall
    cases hcall
    intro entry he ho
    have hu:=(hscan entry he ho).resolve_left (List.not_mem_nil)
    exact List.mem_filter.mpr ⟨he,decide_eq_true hu⟩
  | cons first rest =>
    cases hcall
    intro entry he ho
    rcases hscan entry he ho with hm | hu
    · rcases List.mem_cons.mp hm with rfl | hm
      · rw [if_pos (podMatches_of_owns h.active ho)]
        exact .inr List.mem_cons_self
      · exact .inl hm
    · right
      split_ifs
      · exact List.mem_cons_of_mem _ hu
      · exact hu

theorem cleanStart_cases {a i : Nat} (h : Step convert w (.cleanStart a i) w') :
    ∃ npp,w.store.at i=some npp ∧ w'=w.setCall a (some (.scanning npp npp.obj.podProbes [])) := by
  rw [Step,next] at h
  split at h
  · rename_i npp _ hn
    exact ⟨npp,hn,(some.inj h).symm⟩
  · cases h

theorem scan_cases {a : Nat} (h : Step convert w (.scan a) w') :
    ∃ npp rest matched,w.calls a=some (.scanning npp rest matched) ∧
      w'=w.setCall a (scanNext w.pods npp rest matched) := by
  rw [Step,next] at h
  split at h
  · rename_i npp rest matched hcall
    exact ⟨npp,rest,matched,hcall,(some.inj h).symm⟩
  · cases h

theorem cleanGet_cases {a i : Nat} (h : Step convert w (.cleanGet a i) w') :
    ∃ npp newSpec clone,w.calls a=some (.retrying npp newSpec) ∧ w.store.at i=some clone ∧
      (w'=w.setCall a none ∨ w'=w.setCall a (some (.updating npp newSpec clone))) := by
  rw [Step,next] at h
  split at h
  · rename_i npp newSpec clone hcall hcln
    refine ⟨npp,newSpec,clone,hcall,hcln,?_⟩
    split_ifs at h
    · exact .inl (some.inj h).symm
    · exact .inr (some.inj h).symm
  · cases h

theorem cleanUpdate_cases {a : Nat} (h : Step convert w (.cleanUpdate a) w') :
    ∃ npp newSpec clone,w.calls a=some (.updating npp newSpec clone) ∧
      (w'=w.setCall a (some (.retrying npp newSpec)) ∨ clone.rv=w.store.current.rv ∧ w'={w.setCall a none with
          store := w.store.put {clone.obj with podProbes := newSpec}}) := by
  rw [Step,next] at h
  split at h
  · rename_i npp newSpec clone hcall
    refine ⟨npp,newSpec,clone,hcall,?_⟩
    by_cases hrv : clone.rv=w.store.current.rv
    · rw [Store.update,if_pos hrv] at h
      exact .inr ⟨hrv,(some.inj h).symm⟩
    · rw [Store.update,if_neg hrv] at h
      exact .inl (some.inj h).symm
  · cases h

theorem mark_cases {a i : Nat} {m : Marker} {probes : List PodContainerProbe} {pods : List Pod}
    (h : Step convert w (.mark a i m probes pods) w') : ∃ base out,w'=w.setCall a (some (.marking base out)) := by
  rw [Step,next] at h
  split at h
  · exact ⟨_,_,(some.inj h).symm⟩
  · cases h

theorem markUpdate_cases {a : Nat} (h : Step convert w (.markUpdate a) w') :
    w'=w.setCall a none ∨ ∃ out,w'={w.setCall a none with store := w.store.put out} := by
  rw [Step,next] at h
  split at h
  · rename_i base out _
    by_cases hrv : base.rv=w.store.current.rv
    · rw [Store.update,if_pos hrv] at h
      exact .inr ⟨out,(some.inj h).symm⟩
    · rw [Store.update,if_neg hrv] at h
      exact .inl (some.inj h).symm
  · cases h

theorem inv_step {l : Label} (h : Inv p w) (hl : StaysActive p w l) (hstep : Step convert w l w') : Inv p w' := by
  cases l with
  | setPod key pod =>
    cases hstep
    exact ⟨hl,h.calls⟩
  | cleanStart a i =>
    obtain ⟨npp,-,rfl⟩ := cleanStart_cases hstep
    refine h.setCall a ?_
    rintro c ⟨⟩
    exact fun entry he _ => .inl he
  | scan a =>
    obtain ⟨npp,rest,matched,hcall,rfl⟩ := scan_cases hstep
    exact h.setCall a fun c hc => callOk_scanNext h (h.calls a _ hcall) hc
  | cleanGet a i =>
    obtain ⟨npp,newSpec,clone,hcall,hcln,rfl | rfl⟩ := cleanGet_cases hstep
    · exact h.clearCall a
    · refine h.setCall a ?_
      rintro c ⟨⟩
      exact ⟨Store.copy_at hcln,h.calls a _ hcall⟩
  | cleanUpdate a =>
    obtain ⟨npp,newSpec,clone,hcall,rfl | ⟨-,rfl⟩⟩ := cleanUpdate_cases hstep
    · refine h.setCall a ?_
      rintro c ⟨⟩
      exact (h.calls a _ hcall).2
    · exact (h.clearCall a).put _
  | mark a i m probes pods =>
    obtain ⟨base,out,rfl⟩ := mark_cases hstep
    refine h.setCall a ?_
    rintro c ⟨⟩
    trivial
  | markUpdate a =>
    obtain rfl | ⟨out,rfl⟩ := markUpdate_cases hstep
    · exact h.clearCall a
    · exact (h.clearCall a).put out
  | fail a =>
    obtain ⟨call,-,rfl⟩ := map_eq_some_iff.mp hstep
    exact h.clearCall a
  | status =>
    cases hstep
    exact h.put _

theorem inv_run (h : Run convert p w) : Inv p w := by
  refine h.invariant ?_ ?_
  · intro w hi
    refine ⟨hi.2.2,?_⟩
    intro a call hcall
    rw [hi.2.1 a] at hcall
    cases hcall
  · intro w l w' hinv hstep
    exact inv_step hinv hstep.2 hstep.1

end

/-- A clean-up keeps the probes of a pod that is active throughout, if its copy had those that the
write goes over. -/
theorem cleanUp_keeps_probes (convert : Pod → PodContainerProbe → Option String) (p : PodId)
    (w w' : World) (h : Run convert p w) (a : Nat) (hstep : Step convert w (.cleanUpdate a) w')
    (hsees : SeesProbes p w a) (probe : ContainerProbe)
    (hprobe : p.HasProbe w.store.current.obj.podProbes probe) :
    p.HasProbe w'.store.current.obj.podProbes probe := by
  obtain ⟨npp,newSpec,clone,hcall,rfl | ⟨hrv,rfl⟩⟩ := cleanUpdate_cases hstep
  · exact hprobe
  · obtain ⟨hcopy,hk⟩ := (inv_run h).calls a _ hcall
    obtain rfl := w.store.eq_current_of_rv hcopy hrv
    obtain ⟨entry,he,ho,hm⟩ := hsees npp newSpec _ hcall rfl probe hprobe
    exact ⟨entry,hk entry he ho,ho,hm⟩

def gonePod : PodProbe :=
  ⟨"web-0", "default", "uid-0", "10.0.0.1",[⟨['m','#','p'], "web", "exec"⟩]⟩

def livePod : Pod where
  name := "web-1"
  ns := "default"
  uid := "uid-1"
  labels := fun _ => none
  nodeName := "node-a"
  podIP := "10.0.0.2"
  phase := .running
  deleting := false
  initialized := true

def liveId : PodId := ⟨"default", "web-1", "uid-1"⟩

def marker : Marker := ⟨"default",['m']⟩

def markerProbes : List PodContainerProbe := [⟨['p'], "web", "exec"⟩]

def liveProbe : ContainerProbe := ⟨['m','#','p'], "web", "exec"⟩

def asWritten (_ : Pod) (probe : PodContainerProbe) : Option String := some probe.probe

/- The NodePodProbe has an entry of a pod that is gone. -/
def startWorld : World where
  store := Store.start ⟨"node-a",[gonePod]⟩
  pods := fun key => if key=("default", "web-1") then some livePod else none
  calls := fun _ => none

theorem startWorld_init : Init liveId startWorld := ⟨⟨_,rfl⟩,fun _ => rfl,by decide⟩

/- The marker adds the probe of the new pod after the clean-up has looked at its own copy. -/
def addedMeanwhile : List Label :=
  [.cleanStart 0 0,.scan 0,.scan 0,.mark 1 0 marker markerProbes [livePod],.markUpdate 1,
    .cleanGet 0 0]

def addedBefore : List Label :=
  [.mark 1 0 marker markerProbes [livePod],.markUpdate 1,.cleanStart 0 0,.scan 0,.scan 0,
    .scan 0,.cleanGet 0 0]

theorem run_of_labels {ls : List Label} {w : World}
    (h : runLabels (restrict (next asWritten) (StaysActive liveId)) ls startWorld=some w) :
    Run asWritten liveId w :=
  reachable_of_restrict (fun _ _ _ hn => hn) ls (.start startWorld_init) h

/-- The spec that was computed before is put over the new one. -/
theorem addedMeanwhile_loses_probe :
    ∃ w w',Run asWritten liveId w ∧ Step asWritten w (.cleanUpdate 0) w' ∧
      liveId.HasProbe w.store.current.obj.podProbes liveProbe ∧
      ¬liveId.HasProbe w'.store.current.obj.podProbes liveProbe := by
  have he : ((runLabels (restrict (next asWritten) (StaysActive liveId)) addedMeanwhile
      startWorld).any fun w => (next asWritten w (.cleanUpdate 0)).any fun w' =>
        decide (liveId.HasProbe w.store.current.obj.podProbes liveProbe ∧
          ¬liveId.HasProbe w'.store.current.obj.podProbes liveProbe)) := by decide +kernel
  obtain ⟨w,hw,hn⟩ := (any_eq_true _ _).mp he
  obtain ⟨w',hw',hf⟩ := (any_eq_true _ _).mp hn
  exact ⟨w,w',run_of_labels hw,hw',of_decide_eq_true hf⟩

def Call.overOwnCopy : Call → Bool
  | .updating npp _ clone => decide (npp.obj=clone.obj)
  | _ => false

theorem addedBefore_keeps_probe :
    ∃ w w',Run asWritten liveId w ∧ Step asWritten w (.cleanUpdate 0) w' ∧
      gonePod∈w.store.current.obj.podProbes ∧ gonePod∉w'.store.current.obj.podProbes ∧
      liveId.HasProbe w'.store.current.obj.podProbes liveProbe := by
  have he : ((runLabels (restrict (next asWritten) (StaysActive liveId)) addedBefore
      startWorld).any fun w => (next asWritten w (.cleanUpdate 0)).any fun w' =>
        decide (liveId.HasProbe w.store.current.obj.podProbes liveProbe ∧
          gonePod∈w.store.current.obj.podProbes ∧ gonePod∉w'.store.current.obj.podProbes) &&
        (w.calls 0).any Call.overOwnCopy) := by decide +kernel
  obtain ⟨w,hw,hn⟩ := (any_eq_true _ _).mp he
  obtain ⟨w',hw',hf⟩ := (any_eq_true _ _).mp hn
  rw [Bool.and_eq_true,decide_eq_true_iff] at hf
  obtain ⟨⟨hprb,hg,hr⟩,hcopy⟩ := hf
  have hsees : SeesProbes liveId w 0 := by
    intro npp newSpec clone hcall _ probe hh
    rw [hcall] at hcopy
    have hsame : npp.obj=clone.obj := of_decide_eq_true hcopy
    rw [hsame]
    exact hh
  exact ⟨w,w',run_of_labels hw,hw',hg,hr,cleanUp_keeps_probes asWritten liveId w w'
    (run_of_labels hw) 0 hw' hsees liveProbe hprb⟩

end Kruise.NodePodProbe
