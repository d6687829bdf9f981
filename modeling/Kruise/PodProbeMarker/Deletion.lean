import Kruise.PodProbeMarker.Sync

/-!
# What the deletion of a PodProbeMarker removes

It is to remove the probes of the marker from all nodes, and nothing else. What it does remove, on
the nodes of the pods that match at that time, is every probe whose name contains the name of the
marker with a `#` behind it, and with them the IP of the entries that stay.
-/

namespace Kruise.PodProbeMarker

open Util.Selector List

variable {m : Marker}

def markerName (probe : ContainerProbe) : List Char := probe.name.takeWhile (· ≠ '#')

def isFor (m : Marker) (entry : PodProbe) (probe : ContainerProbe) : Bool :=
  decide (entry.ns=m.ns)&&decide (markerName probe=m.name)

def others (m : Marker) (entry : PodProbe) : List ContainerProbe :=
  entry.probes.filter fun probe => !isFor m entry probe

/- Every entry keeps its fields and all probes of other markers; an entry that has no such probe may
go. -/
def removesOwn (m : Marker) : List PodProbe → List PodProbe → Bool
  | [],after => after.isEmpty
  | entry::entries,after =>
    (others m entry).isEmpty&&removesOwn m entries after ||
      match after with
      | [] => false
      | entry'::after =>
        decide (entry'={entry with probes := others m entry})&&removesOwn m entries after

def RemovesExactly (m : Marker) (before after : List NodePodProbe) : Prop :=
  Forall₂ (fun npp npp' => npp'.name=npp.name ∧
    removesOwn m npp.podProbes npp'.podProbes) before after
  deriving Decidable

/- All probes were written by markers whose names and probes have no `#`. -/
def WrittenProbe (probe : ContainerProbe) : Prop :=
  ∃ marker name : List Char,'#'∉marker ∧ '#'∉name ∧ probe.name=probeName marker name

def Written (entries : List PodProbe) : Prop :=
  ∀ entry∈entries,∀ probe∈entry.probes,WrittenProbe probe

variable {probe : ContainerProbe}

theorem markerName_of_written {marker name : List Char} (hm : '#'∉marker) (h : probe.name=probeName marker name) :
    markerName probe=marker := by
  unfold markerName probeName at *
  rw [h,takeWhile_append_of_pos]
  · simp
  · intro c hc
    simp only [decide_eq_true_eq]
    rintro rfl
    exact hm hc

/-- The name of a probe contains the name of a marker with a `#` behind it exactly if the name of
its own marker ends so. -/
theorem contains_iff (h : WrittenProbe probe) (sub : List Char) :
    contains probe.name (sub++['#']) ↔ sub <:+ markerName probe := by
  obtain ⟨marker,name,hm,hn,heq⟩ := h
  rw [markerName_of_written hm heq]
  unfold contains
  rw [decide_eq_true_eq,heq]
  unfold probeName
  constructor
  · rintro ⟨before,after,hspl⟩
    have hspl' : marker ++ '#'::name=(before++sub) ++ '#'::after := by
      rw [← hspl]
      simp
    exact ⟨before,((append_cons_inj_of_notMem hm hn).mp hspl').1.symm⟩
  · rintro ⟨before,rfl⟩
    exact ⟨before,name,by simp⟩

theorem contains_of_isFor {entry : PodProbe} (h : WrittenProbe probe)
    (hf : isFor m entry probe) : contains probe.name (m.name++['#']) := by
  rw [contains_iff h]
  unfold isFor at hf
  rw [Bool.and_eq_true,decide_eq_true_eq,decide_eq_true_eq] at hf
  rewrite [hf.2]
  exact suffix_refl _

def kept (m : Marker) (entry : PodProbe) : List ContainerProbe :=
  entry.probes.filter fun probe => !contains probe.name (m.name++['#'])

theorem removePodProbe_eq (m : Marker) (entry : PodProbe) :
    removePodProbe m entry=if kept m entry=[] then none
      else some ⟨entry.name,entry.ns,entry.uid, "",kept m entry⟩ := by
  unfold removePodProbe kept
  simp only [ne_eq,ite_not]

def Spared (m : Marker) (entry : PodProbe) : Prop :=
  ∀ probe∈entry.probes,
    (contains probe.name (m.name++['#']) → isFor m entry probe) ∧
      (isFor m entry probe=false → entry.ip = "")

section

variable {entry : PodProbe} {entries : List PodProbe}

theorem kept_subset_others (h : ∀ probe∈entry.probes,WrittenProbe probe) : kept m entry ⊆ others m entry := by
  intro probe hprb
  obtain ⟨hm,hn⟩ := mem_filter.mp hprb
  refine mem_filter.mpr ⟨hm,?_⟩
  rw [Bool.not_eq_true'] at hn ⊢
  rw [← Bool.not_eq_true]
  intro hf
  rw [contains_of_isFor (h probe hm) hf] at hn
  cases hn

theorem spared_iff (h : ∀ probe∈entry.probes,WrittenProbe probe) :
    Spared m entry ↔ kept m entry=others m entry ∧ (others m entry≠[] → entry.ip = "") := by
  constructor
  · intro hspr
    refine ⟨filter_congr ?_,?_⟩
    · intro probe hprb
      rw [Bool.not_eq_eq_eq_not,Bool.not_not,Bool.eq_iff_iff]
      exact ⟨(hspr probe hprb).1,contains_of_isFor (h probe hprb)⟩
    · intro hne
      obtain ⟨probe,hprb⟩ := exists_mem_of_ne_nil _ hne
      obtain ⟨hm,hn⟩ := mem_filter.mp hprb
      exact (hspr probe hm).2 (by simpa using hn)
  · rintro ⟨heq,hip⟩ probe hprb
    have ho : isFor m entry probe=false → probe∈others m entry := by
      intro hn
      exact mem_filter.mpr ⟨hprb,by simp [hn]⟩
    refine ⟨?_,fun hn => hip (ne_nil_of_mem (ho hn))⟩
    intro hcon
    by_contra hn
    have hk : probe∈kept m entry := heq ▸ ho (by simpa using hn)
    have hf:=(mem_filter.mp hk).2
    rw [hcon] at hf
    cases hf

theorem mem_filterMap_removePodProbe {left : PodProbe} (h : left∈entries.filterMap (removePodProbe m)) :
    left.ip = "" ∧ left.probes≠[] ∧ ∀ probe∈left.probes,contains probe.name (m.name++['#'])=false := by
  obtain ⟨entry,-,hl⟩ := mem_filterMap.mp h
  rw [removePodProbe_eq] at hl
  split_ifs at hl with hk
  cases hl
  refine ⟨rfl,hk,?_⟩
  intro probe hprb
  simpa using (mem_filter.mp hprb).2

/- No entry behind a dropped one can stand for it, since it has probes of another kind. -/
theorem removesOwn_dropped_iff (hk : kept m entry=[]) :
    removesOwn m (entry::entries) (entries.filterMap (removePodProbe m)) ↔
      others m entry=[] ∧ removesOwn m entries (entries.filterMap (removePodProbe m)) := by
  simp only [removesOwn,Bool.or_eq_true,Bool.and_eq_true,List.isEmpty_iff]
  constructor
  · rintro (hd | hm)
    · exact hd
    · cases hl : entries.filterMap (removePodProbe m) with
      | nil =>
        rw [hl] at hm
        cases hm
      | cons left rest =>
        rw [hl] at hm
        simp only [Bool.and_eq_true,decide_eq_true_eq] at hm
        obtain ⟨-,hne,hn⟩ := mem_filterMap_removePodProbe (hl ▸ mem_cons_self)
        rw [hm.1] at hne hn
        obtain ⟨probe,hprb⟩ := exists_mem_of_ne_nil _ hne
        have hmem : probe∈kept m entry :=
          mem_filter.mpr ⟨mem_of_mem_filter hprb,by simp [hn probe hprb]⟩
        rw [hk] at hmem
        cases hmem
  · exact .inl

theorem removesOwn_left_iff (h : ∀ probe∈entry.probes,WrittenProbe probe)
    (hk : kept m entry≠[]) {after : List PodProbe} :
    removesOwn m (entry::entries) (⟨entry.name,entry.ns,entry.uid, "",kept m entry⟩::after) ↔
      (kept m entry=others m entry ∧ entry.ip = "") ∧ removesOwn m entries after := by
  simp only [removesOwn,Bool.or_eq_true,Bool.and_eq_true,List.isEmpty_iff,decide_eq_true_eq]
  constructor
  · rintro (⟨ho,-⟩ | ⟨heq,ht⟩)
    · obtain ⟨probe,hprb⟩ := List.exists_mem_of_ne_nil _ hk
      have hm:=kept_subset_others h hprb
      rw [ho] at hm
      cases hm
    · have hip : "" = entry.ip := congrArg PodProbe.ip heq
      exact ⟨⟨congrArg PodProbe.probes heq,hip.symm⟩,ht⟩
  · rintro ⟨⟨hprbs,hip⟩,ht⟩
    refine .inr ⟨?_,ht⟩
    rw [hprbs,hip]

theorem removesOwn_removed_iff (h : Written entries) :
    removesOwn m entries (entries.filterMap (removePodProbe m)) ↔ ∀ entry∈entries,Spared m entry := by
  induction entries with
  | nil => simp [removesOwn]
  | cons entry entries ih =>
    have hent:=h entry mem_cons_self
    have hr:=ih fun e he => h e (mem_cons_of_mem entry he)
    rw [forall_mem_cons,← hr,spared_iff hent,filterMap_cons,removePodProbe_eq]
    split_ifs with hk
    · rw [removesOwn_dropped_iff hk,hk]
      refine and_congr_left fun _ => ⟨fun ho => ?_,fun hspr => hspr.1.symm⟩
      exact ⟨ho.symm,fun hne => absurd ho hne⟩
    · rw [removesOwn_left_iff hent hk]
      refine and_congr_left fun _ => and_congr_right fun hprbs => ?_
      exact ⟨fun hip _ => hip,fun hip => hip (hprbs ▸ hk)⟩

theorem length_le_of_removesOwn {after : List PodProbe} (h : removesOwn m entries after) :
    after.length≤entries.length := by
  induction entries generalizing after with
  | nil =>
    simp only [removesOwn,List.isEmpty_iff] at h
    rw [h]
  | cons entry entries ih =>
    simp only [removesOwn,Bool.or_eq_true,Bool.and_eq_true] at h
    rcases h with ⟨-,ht⟩ | hm
    · exact Nat.le_succ_of_le (ih ht)
    · cases after with
      | nil => exact Nat.zero_le _
      | cons entry' after =>
        simp only [Bool.and_eq_true] at hm
        exact Nat.succ_le_succ (ih hm.2)

theorem removesOwn_self_iff : removesOwn m entries entries ↔
    ∀ entry∈entries,∀ probe∈entry.probes,isFor m entry probe=false := by
  induction entries with
  | nil => simp [removesOwn]
  | cons entry entries ih =>
    rw [forall_mem_cons,← ih]
    constructor
    · intro hr
      simp only [removesOwn,Bool.or_eq_true,Bool.and_eq_true,decide_eq_true_eq] at hr
      rcases hr with ⟨-,ht⟩ | ⟨heq,ht⟩
      · exact absurd (length_le_of_removesOwn ht) (Nat.not_succ_le_self _)
      · refine ⟨?_,ht⟩
        have ho : others m entry=entry.probes := (congrArg PodProbe.probes heq).symm
        intro probe hprb
        simpa using filter_eq_self.mp ho probe hprb
    · rintro ⟨hn,ht⟩
      have ho : others m entry=entry.probes :=
        filter_eq_self.mpr fun probe hprb => by simp [hn probe hprb]
      simp only [removesOwn,Bool.or_eq_true,Bool.and_eq_true,decide_eq_true_eq,ho]
      exact .inr ⟨trivial,ht⟩

theorem filterMap_removePodProbe_idem :
    (entries.filterMap (removePodProbe m)).filterMap (removePodProbe m) = entries.filterMap (removePodProbe m) := by
  refine (filterMap_congr ?_).trans filterMap_some
  intro left hl
  obtain ⟨hip,hne,hn⟩ := mem_filterMap_removePodProbe hl
  have hk : kept m left=left.probes :=
    filter_eq_self.mpr fun probe hprb => by simp [hn probe hprb]
  rw [removePodProbe_eq,if_neg (hk ▸ hne),hk,← hip]

end

def removed (m : Marker) (nodes : List String) (npp : NodePodProbe) : NodePodProbe :=
  if npp.name∈nodes then {npp with podProbes := npp.podProbes.filterMap (removePodProbe m)}
  else npp

theorem foldl_removePodProbeFromNodePodProbe (nodes : List String) (npps : List NodePodProbe) :
    nodes.foldl (removePodProbeFromNodePodProbe m) npps=npps.map (removed m nodes) := by
  induction nodes generalizing npps with
  | nil =>
    refine (map_id npps).symm.trans (map_congr_left ?_)
    intro npp _
    rfl
  | cons node nodes ih =>
    rw [foldl_cons,ih,removePodProbeFromNodePodProbe,map_map]
    refine map_congr_left ?_
    intro npp _
    rw [Function.comp_apply]
    by_cases hn : npp.name=node
    · have hin : npp.name∈node::nodes := by
        rw [hn]
        exact mem_cons_self
      rw [if_pos hn]
      unfold removed
      rw [if_pos hin]
      by_cases hm : npp.name∈nodes
      · rw [if_pos hm,filterMap_removePodProbe_idem]
      · rw [if_neg hm]
    · rw [if_neg hn]
      unfold removed
      simp only [mem_cons,hn,false_or]

def visited (m : Marker) : List Attempt → List String
  | [] => []
  | a::attempts => a.nodes m++if a.failsAt.isSome then visited m attempts else []

theorem foldl_handler_of_removed {s : State} (h : podProbeMarkerFinalizer∉s.finalizers)
    (attempts : List Attempt) : attempts.foldl (handlerPodProbeMarkerFinalizer m) s=s := by
  induction attempts with
  | nil => rfl
  | cons a attempts ih =>
    rw [foldl_cons,handlerPodProbeMarkerFinalizer,if_pos h]
    exact ih

theorem npps_foldl_handler {s : State} (h : podProbeMarkerFinalizer∈s.finalizers) (attempts : List Attempt) :
    (attempts.foldl (handlerPodProbeMarkerFinalizer m) s).npps =
      (visited m attempts).foldl (removePodProbeFromNodePodProbe m) s.npps := by
  induction attempts generalizing s with
  | nil => rfl
  | cons a attempts ih =>
    have hh : handlerPodProbeMarkerFinalizer m s a=_ := if_neg (not_not.mpr h)
    rw [foldl_cons,visited,foldl_append,hh]
    cases hfl : a.failsAt with
    | some k => exact ih h
    | none =>
      rw [foldl_handler_of_removed (by simp)]
      rfl

/- On the nodes that are visited, no other marker with a name that ends in its own, and no IP in an
entry that stays; on the others, no probe of its own. -/
def Suits (m : Marker) (nodes : List String) (npp : NodePodProbe) : Prop :=
  ∀ entry∈npp.podProbes,∀ probe∈entry.probes,
    if npp.name∈nodes then
      (m.name <:+ markerName probe → isFor m entry probe) ∧
        (isFor m entry probe=false → entry.ip = "")
    else isFor m entry probe=false

theorem removesOwn_removed_iff_suits {nodes : List String} {npp : NodePodProbe} (h : Written npp.podProbes) :
    removesOwn m npp.podProbes (removed m nodes npp).podProbes ↔ Suits m nodes npp := by
  unfold removed Suits
  by_cases hn : npp.name∈nodes
  · simp only [if_pos hn]
    rw [removesOwn_removed_iff h]
    refine forall₂_congr fun entry he => forall₂_congr fun probe hprb => ?_
    rw [contains_iff (h entry he probe hprb)]
  · simp only [if_neg hn]
    exact removesOwn_self_iff

/-- The deletion of a marker, in as many attempts as it takes, removes its probes and nothing else
exactly if every NodePodProbe suits the marker and the nodes that are visited. -/
theorem deletion_removes_own_iff {npps : List NodePodProbe} {finalizers : List String}
    (attempts : List Attempt) (hwritten : ∀ npp∈npps,Written npp.podProbes)
    (hfinalizer : podProbeMarkerFinalizer∈finalizers) :
    RemovesExactly m npps (attempts.foldl (handlerPodProbeMarkerFinalizer m) ⟨npps,finalizers⟩).npps ↔
      ∀ npp∈npps,Suits m (visited m attempts) npp := by
  unfold RemovesExactly
  rw [npps_foldl_handler hfinalizer,foldl_removePodProbeFromNodePodProbe,
    List.forall₂_map_right_iff,List.forall₂_same]
  refine forall₂_congr fun npp hn => ?_
  have hname : (removed m (visited m attempts) npp).name=npp.name := by
    unfold removed
    split_ifs <;> rfl
  rw [removesOwn_removed_iff_suits (hwritten npp hn)]
  exact and_iff_right hname

def anySelector : LabelSelector := ⟨∅,[]⟩

def runningPod (node : String) : Pod :=
  ⟨"pod", "default", "uid",fun _ => none,node, "10.0.0.1",.running,false,true⟩

def oneAttempt (pods : List Pod) : Attempt := ⟨anySelector,pods,false,none⟩

def probeOf (marker : String) : ContainerProbe :=
  ⟨probeName marker.toList "check".toList, "app", "exec"⟩

def entryOf (ns ip : String) (markers : List String) : PodProbe :=
  ⟨"pod",ns, "uid",ip,markers.map probeOf⟩

def deletedMarker : Marker := ⟨"default", "web".toList⟩

def deletion (pods : List Pod) (entry : PodProbe) : State :=
  [oneAttempt pods].foldl (handlerPodProbeMarkerFinalizer deletedMarker)
    ⟨[⟨"node-1",[entry]⟩],[podProbeMarkerFinalizer]⟩

def LeavesWrong (pods : List Pod) (entry : PodProbe) : Prop :=
  (deletion pods entry).finalizers=[] ∧
    ¬RemovesExactly deletedMarker [⟨"node-1",[entry]⟩] (deletion pods entry).npps

/-- The finalizer is gone and the probes are not right: those of a marker with a longer name are
gone, or of one of the same name elsewhere, or the IP of a shared entry, or its own are still there
because no pod matches any more. -/
theorem deletion_leaves_wrong_probes :
    LeavesWrong [runningPod "node-1"] (entryOf "default" "" ["myweb"]) ∧
      LeavesWrong [runningPod "node-1"] (entryOf "other" "" ["web"]) ∧
      LeavesWrong [runningPod "node-1"] (entryOf "default" "10.0.0.1" ["web", "db"]) ∧
      LeavesWrong [] (entryOf "default" "10.0.0.1" ["web"]) := by
  refine ⟨⟨?_,?_⟩,⟨?_,?_⟩,⟨?_,?_⟩,?_,?_⟩
  all_goals decide +kernel

/- The probe of the other marker stays. -/
theorem deletion_removes_only_probe :
    (deletion [runningPod "node-1"] (entryOf "default" "" ["web", "db"])).npps =
        [⟨"node-1",[entryOf "default" "" ["db"]]⟩] ∧
      RemovesExactly deletedMarker [⟨"node-1",[entryOf "default" "" ["web", "db"]]⟩]
        (deletion [runningPod "node-1"] (entryOf "default" "" ["web", "db"])).npps := by
  refine ⟨by decide +kernel,(deletion_removes_own_iff _ ?_ mem_cons_self).mpr ?_⟩
  · intro npp hn entry he probe hprb
    obtain rfl := mem_singleton.mp hn
    obtain rfl := mem_singleton.mp he
    obtain ⟨marker,hm,rfl⟩ := mem_map.mp hprb
    refine ⟨marker.toList, "check".toList,?_,by decide,rfl⟩
    revert marker
    decide
  · intro npp hn entry he
    obtain rfl := mem_singleton.mp hn
    obtain rfl := mem_singleton.mp he
    decide +kernel

end Kruise.PodProbeMarker
