import Kruise.DaemonSet.Types

/-!
# The histories of a DaemonSet

`dedupCurHistories` (`daemonset_history.go` 235-283). All but one of the histories with the current
template are deleted, after the pods have been relabelled to that one, whichever history they come
from: a pod of an older template gets the current hash as well and is never updated.
-/

namespace Kruise.DaemonSet

open List

/- `hashLabel` is the unique label, `data` the serialised patch of the pod template. -/
structure ControllerRevision where
  name : String
  revision : Int
  hashLabel : Option String
  data : String
  deriving DecidableEq

def ControllerRevision.hash (history : ControllerRevision) : String := history.hashLabel.getD ""

structure HistoryStore where
  histories : List ControllerRevision
  pods : List Pod

/- Which requests the API server grants. -/
structure HistoryApi where
  createHistory : Bool
  updateHistory : String → Bool
  deleteHistory : String → Bool
  listPods : Bool
  patchPod : String → Bool

def matchesTemplate (patch : String) (history : ControllerRevision) : Bool :=
  decide (history.data=patch)

/- The last history with the highest revision. Revisions are not negative; if all were, the result
would be a nil pointer. -/
def keepCur : List ControllerRevision → Int → Option ControllerRevision → Option ControllerRevision
  | [],_,keep => keep
  | cur::histories,maxRevision,keep =>
    if cur.revision ≥ maxRevision then keepCur histories cur.revision (some cur)
    else keepCur histories maxRevision keep

def relabelPods (api : HistoryApi) (hash : String) : List Pod → Option (List Pod)
  | [] => some []
  | pod::pods =>
    if pod.revisionHash≠hash then
      if api.patchPod pod.name then
        (relabelPods api hash pods).map ({pod with revisionHash := hash} :: ·)
      else none
    else (relabelPods api hash pods).map (pod :: ·)

def removeDuplicates (api : HistoryApi) (keepName : String) :
    List ControllerRevision → List ControllerRevision → Option (List ControllerRevision)
  | [],stored => some stored
  | cur::histories,stored =>
    if cur.name=keepName then removeDuplicates api keepName histories stored
    else if api.deleteHistory cur.name then
      removeDuplicates api keepName histories (stored.filter fun h => h.name≠cur.name)
    else none

/- `none` when a request fails. -/
def dedupCurHistories (api : HistoryApi) (store : HistoryStore) :
    List ControllerRevision → Option (ControllerRevision × HistoryStore)
  | [cur] => some (cur,store)
  | curHistories =>
    (keepCur curHistories 0 none).bind fun keep =>
      if !api.listPods then none
      else (relabelPods api keep.hash store.pods).bind fun pods =>
        (removeDuplicates api keep.name curHistories store.histories).map fun histories =>
          (keep,⟨histories,pods⟩)

def maxRevision (histories : List ControllerRevision) : Int :=
  histories.foldl (fun m history => if history.revision > m then history.revision else m) 0

variable {api : HistoryApi} {histories : List ControllerRevision} {keep : ControllerRevision}

theorem mem_of_keepCur {m : Int} {start : Option ControllerRevision}
    (h : keepCur histories m start=some keep) : keep∈histories ∨ start=some keep := by
  induction histories generalizing m start with
  | nil => exact .inr h
  | cons cur histories ih =>
    unfold keepCur at h
    split_ifs at h
    · rcases ih h with hm | hcur
      · exact .inl (mem_cons_of_mem _ hm)
      · exact .inl (Option.some.inj hcur ▸ mem_cons_self)
    · rcases ih h with hm | hsta
      · exact .inl (mem_cons_of_mem _ hm)
      · exact .inr hsta

theorem relabelPods_eq {hash : String} {pods pods' : List Pod} (h : relabelPods api hash pods=some pods') :
    pods'=pods.map fun p => {p with revisionHash := hash} := by
  induction pods generalizing pods' with
  | nil => exact (Option.some.inj h).symm
  | cons pod pods ih =>
    unfold relabelPods at h
    split_ifs at h with hd hpat
    · obtain ⟨rest,hr,rfl⟩ := Option.map_eq_some_iff.mp h
      rw [ih hr,map_cons]
    · obtain ⟨rest,hr,rfl⟩ := Option.map_eq_some_iff.mp h
      rw [ih hr,map_cons]
      obtain rfl := not_ne_iff.mp hd
      rfl

theorem removeDuplicates_eq {keepName : String} {stored stored' : List ControllerRevision}
    (h : removeDuplicates api keepName histories stored=some stored') :
    stored'=stored.filter fun s =>
      decide (s.name=keepName)||decide (s.name∉histories.map ControllerRevision.name) := by
  induction histories generalizing stored with
  | nil =>
    rw [← Option.some.inj h]
    simp
  | cons cur histories ih =>
    unfold removeDuplicates at h
    split_ifs at h with hk hd
    · rw [ih h]
      refine filter_congr fun s _ => ?_
      by_cases hs : s.name=keepName
      · simp [hs]
      · have hne : s.name≠cur.name := fun heq => hs (heq.trans hk)
        simp [hs,hne]
    · rw [ih h,filter_filter]
      refine filter_congr fun s _ => ?_
      by_cases hs : s.name=cur.name
      · simp [hs,hk]
      · simp [hs]

def IsCurrent (patch : String) (histories : List ControllerRevision) (p : Pod) : Prop :=
  ∃ history∈histories,matchesTemplate patch history ∧ p.revisionHash=history.hash

/- No outdated pod gets the hash that is kept or loses its own, and only duplicates are deleted. -/
structure KeepsOutdated (patch : String) (keep : ControllerRevision) (store store' : HistoryStore) : Prop where
  pods : Forall₂ (fun p p' =>
    (p'.revisionHash=keep.hash → IsCurrent patch store.histories p) ∧
      (¬IsCurrent patch store.histories p → p'=p)) store.pods store'.pods
  histories : store'.histories =
    store.histories.filter fun h => !matchesTemplate patch h||decide (h.name=keep.name)

theorem dedupCurHistories_single {api : HistoryApi} {store : HistoryStore}
    {curHistories : List ControllerRevision} (h : curHistories.length=1) :
    ∃ keep,curHistories=[keep] ∧ dedupCurHistories api store curHistories=some (keep,store) := by
  obtain ⟨keep,rfl⟩ := length_eq_one_iff.mp h
  exact ⟨keep,rfl,rfl⟩

variable {store store' : HistoryStore}

theorem dedupCurHistories_several {curHistories : List ControllerRevision} (hl : curHistories.length≠1)
    (h : dedupCurHistories api store curHistories=some (keep,store')) :
    keep∈curHistories ∧ store'.pods=store.pods.map (fun p => {p with revisionHash := keep.hash}) ∧
      store'.histories=store.histories.filter fun s =>
        decide (s.name=keep.name) ||
          decide (s.name∉curHistories.map ControllerRevision.name) := by
  unfold dedupCurHistories at h
  split at h
  · exact absurd rfl hl
  · obtain ⟨kept,hk,h⟩ := Option.bind_eq_some_iff.mp h
    split_ifs at h
    obtain ⟨pods,hpods,h⟩ := Option.bind_eq_some_iff.mp h
    obtain ⟨histories,hh,h⟩ := Option.map_eq_some_iff.mp h
    obtain ⟨rfl,rfl⟩ := Prod.mk.inj h
    refine ⟨?_,relabelPods_eq hpods,removeDuplicates_eq hh⟩
    rcases mem_of_keepCur hk with hm | hn
    · exact hm
    · cases hn

theorem filter_duplicates {patch : String} (hn : (histories.map ControllerRevision.name).Nodup) :
    (histories.filter fun s => decide (s.name=keep.name)||decide (s.name ∉
        (histories.filter (matchesTemplate patch)).map ControllerRevision.name)) =
      histories.filter fun h => !matchesTemplate patch h||decide (h.name=keep.name) := by
  refine filter_congr fun s hs => ?_
  have hi : s.name∈(histories.filter (matchesTemplate patch)).map ControllerRevision.name ↔
      matchesTemplate patch s := by
    constructor
    · intro hmem
      obtain ⟨t,ht,hname⟩ := mem_map.mp hmem
      obtain ⟨ht,hm⟩ := mem_filter.mp ht
      obtain rfl := inj_on_of_nodup_map hn ht hs hname
      exact hm
    · intro hm
      exact mem_map_of_mem (mem_filter.mpr ⟨hs,hm⟩)
  cases hm : matchesTemplate patch s <;> simp [hi,hm]

/-- A successful deduplication leaves outdated pods alone exactly when there was nothing to
deduplicate or no pod was outdated. -/
theorem dedupCurHistories_keeps_outdated_iff {api : HistoryApi} {patch : String}
    {store store' : HistoryStore} {keep : ControllerRevision}
    (hnames : (store.histories.map ControllerRevision.name).Nodup)
    (h : dedupCurHistories api store (store.histories.filter (matchesTemplate patch)) = some (keep,store')) :
    KeepsOutdated patch keep store store' ↔ (store.histories.filter (matchesTemplate patch)).length=1 ∨
        ∀ p∈store.pods,IsCurrent patch store.histories p := by
  by_cases hl : (store.histories.filter (matchesTemplate patch)).length=1
  · simp only [hl,true_or,iff_true]
    obtain ⟨kept,hcur,hd⟩ := @dedupCurHistories_single api store _ hl
    obtain ⟨rfl,rfl⟩ := Prod.mk.inj (Option.some.inj (hd.symm.trans h))
    have hk : kept∈store.histories ∧ matchesTemplate patch kept := by
      refine mem_filter.mp ?_
      rw [hcur]
      exact mem_cons_self
    refine ⟨List.forall₂_same.mpr ?_,?_⟩
    · intro p _
      exact ⟨fun hp => ⟨kept,hk.1,hk.2,hp⟩,fun _ => rfl⟩
    · rw [← filter_duplicates hnames,hcur]
      refine (filter_eq_self.mpr ?_).symm
      intro s _
      by_cases hs : s.name=kept.name <;> simp [hs]
  · simp only [hl,false_or]
    obtain ⟨hm,hpods,hh⟩ := dedupCurHistories_several hl h
    constructor
    · intro hkp p hp
      have ha:=hkp.pods
      rw [hpods,List.forall₂_map_right_iff,List.forall₂_same] at ha
      exact (ha p hp).1 rfl
    · intro hcurr
      refine ⟨?_,hh.trans (filter_duplicates hnames)⟩
      rw [hpods,List.forall₂_map_right_iff,List.forall₂_same]
      intro p hp
      exact ⟨fun _ => hcurr p hp,fun hn => absurd (hcurr p hp) hn⟩

def grantAll : HistoryApi where
  createHistory := true
  updateHistory _ := true
  deleteHistory _ := true
  listPods := true
  patchPod _ := true

def twoCurrent (podHash : String) : HistoryStore where
  histories := [⟨"ds-a",1,some "a", "v1"⟩,⟨"ds-b",2,some "b", "v2"⟩,
    ⟨"ds-c",3,some "c", "v2"⟩]
  pods := [daemonPod "ds-x" "node" podHash true]

/-- The pod still runs the first template; afterwards the rolling update takes it for updated. -/
theorem outdated_pod_looks_updated :
    ∃ store',dedupCurHistories grantAll (twoCurrent "a")
        ((twoCurrent "a").histories.filter (matchesTemplate "v2")) = some (⟨"ds-c",3,some "c", "v2"⟩,store') ∧
      (twoCurrent "a").pods.map (fun p => p.revisionHash)=["a"] ∧
      store'.pods.map (fun p => p.revisionHash)=["c"] ∧
      ∀ ds,store'.pods.all (isPodUpdated ds "c") := by
  refine ⟨_,rfl,rfl,rfl,?_⟩
  intro ds
  rfl

theorem current_pod_is_relabelled :
    ∃ store',dedupCurHistories grantAll (twoCurrent "b")
        ((twoCurrent "b").histories.filter (matchesTemplate "v2")) = some (⟨"ds-c",3,some "c", "v2"⟩,store') ∧
      KeepsOutdated "v2" ⟨"ds-c",3,some "c", "v2"⟩ (twoCurrent "b") store' := by
  have hn : ((twoCurrent "b").histories.map ControllerRevision.name).Nodup := by decide +kernel
  obtain ⟨store',hd⟩ : ∃ store',dedupCurHistories grantAll (twoCurrent "b")
      ((twoCurrent "b").histories.filter (matchesTemplate "v2")) =
        some (⟨"ds-c",3,some "c", "v2"⟩,store') := ⟨_,rfl⟩
  refine ⟨store',hd,(dedupCurHistories_keeps_outdated_iff hn hd).mpr (.inr ?_)⟩
  intro p hp
  refine ⟨⟨"ds-b",2,some "b", "v2"⟩,by decide +kernel,rfl,?_⟩
  rw [mem_singleton.mp hp]
  rfl

end Kruise.DaemonSet
