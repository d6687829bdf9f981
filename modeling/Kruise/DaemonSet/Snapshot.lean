import Kruise.DaemonSet.History

/-!
# The current history of a DaemonSet

`constructHistory` and `snapshot` (`daemonset_history.go` 39-94 and 176-233), and repeated reconciles
after the claiming of `controlledHistories`. On a name collision the collision count of the native
DaemonSet with the same name is read and bumped, and the count that the hash is computed from stays.
-/

namespace Kruise.DaemonSet

open List

/-- `owner` is the controller; `selected` says that the selector matches the labels. -/
structure OwnedRevision extends ControllerRevision where
  owner : Option String
  selected : Bool
  deleting : Bool
  deriving DecidableEq

/-- `computeHash` is that of the template with a collision count. -/
structure HistoryOwner where
  name : String
  uid : String
  patch : String
  computeHash : Option Int → String

/-- `native` is the collision count of the native DaemonSet, if there is one. -/
structure Histories where
  revisions : List OwnedRevision
  collisionCount : Option Int
  native : Option (Option Int)

namespace HistoryOwner

variable (ds : HistoryOwner)

def claims (r : OwnedRevision) : Bool :=
  r.selected&&(decide (r.owner=some ds.uid)||r.owner.isNone&&!r.deleting)

/-- `ClaimObject`: adopts, releases or leaves alone. -/
def claim (r : OwnedRevision) : OwnedRevision :=
  if ds.claims r then {r with owner := some ds.uid}
  else if r.owner=some ds.uid then {r with owner := none}
  else r

def historyName (w : Histories) : String := ds.name ++ "-" ++ ds.computeHash w.collisionCount

/-- Returns the history that it has created or found. -/
def snapshot (revision : Int) (w : Histories) : Option ControllerRevision × Histories :=
  let hash:=ds.computeHash w.collisionCount
  let history : ControllerRevision := ⟨ds.historyName w,revision,some hash,ds.patch⟩
  match w.revisions.find? fun r => r.name=ds.historyName w with
  | none => (some history,{w with revisions := w.revisions++[⟨history,some ds.uid,true,false⟩]})
  | some existed =>
    if matchesTemplate ds.patch existed.toControllerRevision then (some existed.toControllerRevision,w)
    else (none,match w.native with
      | none => w
      | some count =>
        if count≠w.collisionCount then w else {w with native := some (some (count.getD 0+1))})

def isCurrent (r : OwnedRevision) : Bool :=
  decide (r.owner=some ds.uid)&&matchesTemplate ds.patch r.toControllerRevision

def isClaimable (r : OwnedRevision) : Bool :=
  ds.claims r&&matchesTemplate ds.patch r.toControllerRevision

def attempt (w : Histories) : Histories :=
  let w:={w with revisions := w.revisions.map ds.claim}
  if w.revisions.any ds.isCurrent then w
  else (ds.snapshot (maxRevision ((w.revisions.filter fun r => r.owner=some ds.uid).map
    (·.toControllerRevision))+1) w).2

def Recovers (w : Histories) : Prop :=
  (∀ n,(ds.attempt^[n] w).native=w.native) ∧
    ∃ n,∀ m ≥ n,(ds.attempt^[m] w).revisions.any ds.isCurrent

variable {ds} {w : Histories} (r : OwnedRevision)

theorem claims_claim : ds.claims (ds.claim r)=ds.claims r := by
  unfold claim claims
  split_ifs <;> simp_all

theorem isCurrent_claim : ds.isCurrent (ds.claim r)=ds.isClaimable r := by
  unfold isCurrent isClaimable claim
  split_ifs <;> simp_all

theorem isClaimable_claim : ds.isClaimable (ds.claim r)=ds.isClaimable r := by
  unfold isClaimable
  rw [claims_claim]
  unfold claim
  split_ifs <;> rfl

theorem name_claim : (ds.claim r).name=r.name := by
  unfold claim
  split_ifs <;> rfl

def Taken (ds : HistoryOwner) (w : Histories) : Prop :=
  ∃ r∈w.revisions,r.name=ds.historyName w

theorem snapshot_of_taken (h : ds.Taken w) (revision : Int) :
    (ds.snapshot revision w).2.revisions=w.revisions ∧
      (ds.snapshot revision w).2.collisionCount=w.collisionCount := by
  obtain ⟨r,hr,hname⟩ := h
  unfold snapshot
  split
  · rename_i hn
    exact absurd (decide_eq_true hname) (find?_eq_none.mp hn r hr)
  · split_ifs
    · exact ⟨rfl,rfl⟩
    · dsimp only
      split
      · exact ⟨rfl,rfl⟩
      · split_ifs <;> exact ⟨rfl,rfl⟩

/-- With the name taken, a reconcile claims histories and at most changes the native DaemonSet. -/
structure Attempted (ds : HistoryOwner) (w w' : Histories) : Prop where
  taken : ds.Taken w'
  claimable : w'.revisions.any ds.isClaimable=w.revisions.any ds.isClaimable
  native : w.revisions.any ds.isClaimable → w'.native=w.native

theorem attempt_of_taken (h : ds.Taken w) : Attempted ds w (ds.attempt w) ∧
      (ds.attempt w).revisions.any ds.isCurrent=w.revisions.any ds.isClaimable := by
  have hcur : (w.revisions.map ds.claim).any ds.isCurrent=w.revisions.any ds.isClaimable := by
    simp [any_map,Function.comp_def,isCurrent_claim]
  have htk : ds.Taken {w with revisions := w.revisions.map ds.claim} := by
    obtain ⟨r,hr,hn⟩ := h
    exact ⟨_,mem_map_of_mem hr,(name_claim r).trans hn⟩
  have hrevisions : (ds.attempt w).revisions=w.revisions.map ds.claim ∧
      (ds.attempt w).collisionCount=w.collisionCount := by
    unfold attempt
    dsimp only
    split_ifs
    · exact ⟨rfl,rfl⟩
    · exact snapshot_of_taken htk _
  refine ⟨⟨?_,?_,?_⟩,?_⟩
  · unfold Taken historyName at htk ⊢
    rwa [hrevisions.1,hrevisions.2]
  · rw [hrevisions.1]
    simp [any_map,Function.comp_def,isClaimable_claim]
  · intro hclaimable
    unfold attempt
    rw [if_pos (hcur.trans hclaimable)]
  · rw [hrevisions.1,hcur]

theorem attempts_of_taken (h : ds.Taken w) (n : Nat) : Attempted ds w (ds.attempt^[n] w) := by
  induction n with
  | zero => exact ⟨h,rfl,fun _ => rfl⟩
  | succ n ih =>
    rw [Function.iterate_succ_apply']
    obtain ⟨hstep,-⟩ := attempt_of_taken ih.taken
    refine ⟨hstep.taken,hstep.claimable.trans ih.claimable,fun hc => ?_⟩
    exact (hstep.native (ih.claimable.trans hc)).trans (ih.native hc)

/-- With the name of the new history taken, a DaemonSet recovers exactly when it controls or can
adopt a history with its template, so that no new one is needed. -/
theorem collision_recovers_iff (h : ds.Taken w) :
    ds.Recovers w ↔ ∃ r∈w.revisions,ds.claims r ∧ r.data=ds.patch := by
  have hl : ∀ n,(ds.attempt^[n+1] w).revisions.any ds.isCurrent = w.revisions.any ds.isClaimable := by
    intro n
    have hn:=attempts_of_taken h n
    rw [Function.iterate_succ_apply',(attempt_of_taken hn.taken).2,hn.claimable]
  have hi : w.revisions.any ds.isClaimable ↔ ∃ r∈w.revisions,ds.claims r ∧ r.data=ds.patch := by
    simp [isClaimable,matchesTemplate]
  rw [← hi]
  constructor
  · rintro ⟨-,n,hn⟩
    rw [← hl n]
    exact hn (n+1) (Nat.le_succ n)
  · intro hc
    refine ⟨fun n => (attempts_of_taken h n).native hc,1,fun m hm => ?_⟩
    obtain ⟨k,rfl⟩ := Nat.exists_eq_add_of_le' hm
    rw [hl k,hc]

def agentOwner : HistoryOwner := ⟨"agent", "uid-1", "v2",fun _ => "a"⟩

def foreignHistory : OwnedRevision := ⟨⟨"agent-a",1,some "a", "v1"⟩,some "uid-9",true,false⟩

/-- The native DaemonSet's count is bumped, and the history is still missing. -/
theorem native_count_bumped :
    let w : Histories := ⟨[foreignHistory],none,some none⟩
    agentOwner.Taken w ∧ (agentOwner.attempt w).native=some (some 1) ∧
      (agentOwner.attempt w).revisions=[foreignHistory] :=
  ⟨⟨_,mem_cons_self,by decide +kernel⟩,by decide +kernel,by decide +kernel⟩

/-- The name is held by another owner's history with other data; the orphan beside it is adopted. -/
theorem orphan_history_adopted :
    agentOwner.Recovers ⟨[foreignHistory,⟨⟨"agent-b",2,some "b", "v2"⟩,none,true,false⟩],none,some none⟩ :=
  (collision_recovers_iff ⟨foreignHistory,mem_cons_self,by decide +kernel⟩).mpr
    ⟨_,mem_cons_of_mem _ mem_cons_self,by decide +kernel,rfl⟩

end HistoryOwner

/-! ## The current history -/

/-- The history name serves as hash when there is none. -/
def addUniqueLabel (api : HistoryApi) (history : ControllerRevision) : Option ControllerRevision :=
  if history.hashLabel.isSome then some history
  else if api.updateHistory history.name then
    some {history with hashLabel := some history.name}
  else none

def replaceHistory (updated : ControllerRevision) (histories : List ControllerRevision) :
    List ControllerRevision :=
  histories.map fun h => if h.name=updated.name then updated else h

/-- `store` has the controlled histories, `w` is what a snapshot finds. -/
def constructHistory (api : HistoryApi) (ds : HistoryOwner) (w : Histories) (store : HistoryStore) :
    Option (ControllerRevision × List ControllerRevision × HistoryStore) :=
  (store.histories.mapM (addUniqueLabel api)).bind fun histories =>
    let store:={store with histories := histories}
    let currentHistories:=histories.filter (matchesTemplate ds.patch)
    let old:=histories.filter fun h => !matchesTemplate ds.patch h
    let currRevision:=maxRevision old+1
    if currentHistories.isEmpty then
      if api.createHistory then (ds.snapshot currRevision w).1.map fun cur => (cur,old,store)
      else none
    else
      (dedupCurHistories api store currentHistories).bind fun (cur,store) =>
        if cur.revision<currRevision then
          if api.updateHistory cur.name then
            some (cur,old,{store with
              histories := replaceHistory {cur with revision := currRevision} store.histories})
          else none
        else some (cur,old,store)

section

variable {api : HistoryApi} {ds : HistoryOwner} {w : Histories} {store store' : HistoryStore}
  {cur : ControllerRevision} {old : List ControllerRevision}

def labelled (history : ControllerRevision) : ControllerRevision :=
  {history with hashLabel := some (history.hashLabel.getD history.name)}

theorem mapM_addUniqueLabel {histories histories' : List ControllerRevision}
    (h : histories.mapM (addUniqueLabel api)=some histories') : histories'=histories.map labelled := by
  induction histories generalizing histories' with
  | nil => exact (Option.some.inj h).symm
  | cons history histories ih =>
    rw [mapM_cons] at h
    obtain ⟨first,hf,h⟩ := Option.bind_eq_some_iff.mp h
    obtain ⟨rest,hr,h⟩ := Option.bind_eq_some_iff.mp h
    obtain rfl := Option.some.inj h
    rw [map_cons,ih hr]
    obtain ⟨name,revision,label,data⟩ := history
    unfold addUniqueLabel at hf
    cases label with
    | none =>
      rw [if_neg (by simp)] at hf
      split_ifs at hf
      cases hf
      rfl
    | some hash =>
      cases hf
      rfl

theorem snapshot_current {revision : Int} (h : (ds.snapshot revision w).1=some cur) :
    matchesTemplate ds.patch cur ∧ (cur.hashLabel=none →
      ∃ r∈w.revisions,r.name=ds.historyName w ∧ r.toControllerRevision=cur) := by
  unfold HistoryOwner.snapshot at h
  split at h
  · cases h
    exact ⟨decide_eq_true rfl,fun hn => by cases hn⟩
  · rename_i existed he
    split_ifs at h with hm
    cases h
    exact ⟨hm,fun _ => ⟨existed,mem_of_find?_eq_some he,by simpa using find?_some he,rfl⟩⟩

theorem mem_of_dedupCurHistories {histories : List ControllerRevision}
    (h : dedupCurHistories api store histories=some (cur,store')) : cur∈histories := by
  by_cases hl : histories.length=1
  · obtain ⟨keep,rfl,hd⟩ := @dedupCurHistories_single api store _ hl
    obtain ⟨rfl,-⟩ := Prod.mk.inj (Option.some.inj (hd.symm.trans h))
    exact mem_cons_self
  · exact (dedupCurHistories_several hl h).1

/-- The current history has the template, and a hash unless it is one that already had the name
and that the DaemonSet does not control. -/
theorem constructHistory_current (h : constructHistory api ds w store=some (cur,old,store')) :
    matchesTemplate ds.patch cur ∧ (cur.hashLabel=none →
      (∀ history∈store.histories,¬matchesTemplate ds.patch history) ∧
        ∃ r∈w.revisions,r.name=ds.historyName w ∧ r.toControllerRevision=cur) := by
  obtain ⟨histories,hlabel,h⟩ := Option.bind_eq_some_iff.mp h
  obtain rfl := mapM_addUniqueLabel hlabel
  dsimp only at h
  split_ifs at h with he
  · obtain ⟨c,hc,h⟩ := Option.map_eq_some_iff.mp h
    obtain ⟨rfl,-⟩ := Prod.mk.inj h
    obtain ⟨hm,hn⟩ := snapshot_current hc
    refine ⟨hm,fun hnone => ⟨?_,hn hnone⟩⟩
    intro history hh
    exact filter_eq_nil_iff.mp (isEmpty_iff.mp he) (labelled history) (mem_map_of_mem hh)
  · obtain ⟨⟨c,deduped⟩,hd,h⟩ := Option.bind_eq_some_iff.mp h
    have hcur : cur=c := by
      split_ifs at h <;> exact (Prod.mk.inj (Option.some.inj h)).1.symm
    obtain ⟨hmem,hm⟩ := mem_filter.mp (mem_of_dedupCurHistories hd)
    obtain ⟨history,-,rfl⟩ := mem_map.mp hmem
    rw [hcur]
    exact ⟨hm,fun hn => by cases hn⟩

end

def outdatedStore : HistoryStore := ⟨[⟨"agent-z",1,none, "v1"⟩],[]⟩

/-- Another owner's history with the name and the template. -/
def unlabelled : OwnedRevision := ⟨⟨"agent-a",7,none, "v2"⟩,some "uid-9",false,false⟩

/-- A new history is created, or the one that has its name is taken as it is. -/
theorem new_history_is_current :
    (∃ cur old store',constructHistory grantAll HistoryOwner.agentOwner ⟨[],none,none⟩ outdatedStore =
        some (cur,old,store') ∧ cur.hashLabel=some "a" ∧ matchesTemplate "v2" cur) ∧
    ∃ old store',constructHistory grantAll HistoryOwner.agentOwner ⟨[unlabelled],none,none⟩
        outdatedStore=some (unlabelled.toControllerRevision,old,store') ∧
      ∀ history∈outdatedStore.histories,¬matchesTemplate "v2" history := by
  obtain ⟨cur,old,store',hnew,hlabel⟩ : ∃ cur old store',constructHistory grantAll HistoryOwner.agentOwner
      ⟨[],none,none⟩ outdatedStore=some (cur,old,store') ∧ cur.hashLabel=some "a" := ⟨_,_,_,rfl,rfl⟩
  obtain ⟨old',store'',hheld⟩ : ∃ old store',constructHistory grantAll HistoryOwner.agentOwner
      ⟨[unlabelled],none,none⟩ outdatedStore=some (unlabelled.toControllerRevision,old,store') := ⟨_,_,rfl⟩
  exact ⟨⟨cur,old,store',hnew,hlabel,(constructHistory_current hnew).1⟩,old',store'',hheld,
    ((constructHistory_current hheld).2 rfl).1⟩

end Kruise.DaemonSet
