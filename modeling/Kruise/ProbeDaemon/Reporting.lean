import Kruise.Lib.Transition
import Kruise.ProbeDaemon.Workers

/-!
# Every probe's own result in the status

The cache has one place for each container, so two probes of one container write over each other.
As long as a worker is only started when no other one has its container or its name in the status,
a status sync reports for each probe the result that it has set last.
-/

namespace Kruise.ProbeDaemon

open Lib.Keyed Lib.Transition List Function

variable {pods : List PodProbeStatus} {uid name : String} {now : Int} {w : World} {k : ProbeKey} {worker : Worker}

section

variable {u : Update}

theorem keeps_state (now : Int) (u : Update) :
    Keeps ContainerProbeState.name u.key.probeName (changeState now u) (newState now u) :=
  ⟨fun _ => rfl,rfl⟩

theorem keeps_pod (now : Int) (u : Update) : Keeps PodProbeStatus.uid u.key.podUID (changePod now u)
      (changePod now u ⟨u.key.podNs,u.key.podName,u.key.podUID,[]⟩) :=
  ⟨fun _ => rfl,rfl⟩

theorem resultsIn_setState_of_ne (hn : name≠u.key.probeName) (states : List ContainerProbeState) :
    resultsIn (setState now u states) name=resultsIn states name := by
  unfold resultsIn setState
  rw [filter_upsert_of_ne (keeps_state now u) hn]

theorem resultsIn_setState_self {states : List ContainerProbeState}
    (h : (states.map ContainerProbeState.name).Nodup) :
    resultsIn (setState now u states) u.key.probeName=[(u.key,u.state)] := by
  unfold resultsIn setState
  rw [filter_upsert_self (keeps_state now u) h,map_singleton]
  cases findKey ContainerProbeState.name u.key.probeName states with
  | none => rfl
  | some s => rfl

theorem Once.update (h : Once pods) : Once (updateNodePodProbeStatus now u pods) := by
  have hstates : ∀ states : List ContainerProbeState,(states.map ContainerProbeState.name).Nodup →
        ((setState now u states).map ContainerProbeState.name).Nodup :=
    fun states => nodup_upsert (keeps_state now u)
  constructor
  · exact nodup_upsert (keeps_pod now u) h.uids
  · refine forall_mem_upsert (hstates [] nodup_nil) ?_ h.names
    intro s _ hs
    exact hstates s.probeStates hs

theorem resultsFor_update_of_ne (h : Once pods) (hne : (uid,name)≠(u.key.podUID,u.key.probeName)) :
    resultsFor (updateNodePodProbeStatus now u pods) uid name=resultsFor pods uid name := by
  unfold resultsFor updateNodePodProbeStatus
  by_cases hu : uid=u.key.podUID
  · have hn : name≠u.key.probeName := by
      intro hn
      exact hne (by rw [hu,hn])
    rw [hu,filter_upsert_self (keeps_pod now u) h.uids,filter_key h.uids,flatMap_singleton]
    cases findKey PodProbeStatus.uid u.key.podUID pods with
    | none => exact resultsIn_setState_of_ne hn []
    | some s =>
      rw [Option.toList_some,flatMap_singleton]
      exact resultsIn_setState_of_ne hn s.probeStates
  · rw [filter_upsert_of_ne (keeps_pod now u) hu]

theorem resultsFor_update_self (h : Once pods) :
    resultsFor (updateNodePodProbeStatus now u pods) u.key.podUID u.key.probeName = [(u.key,u.state)] := by
  unfold resultsFor updateNodePodProbeStatus
  rw [filter_upsert_self (keeps_pod now u) h.uids,flatMap_singleton]
  cases hf : findKey PodProbeStatus.uid u.key.podUID pods with
  | none => exact resultsIn_setState_self nodup_nil
  | some s => exact resultsIn_setState_self (h.names s (findKey_some hf).1)

end

section

variable {valid : List (String × String)}

variable (h : Once pods)
include h

theorem Once.keptStatus : Once (keptStatus valid pods) := by
  have hm : (pods.map (keepValid valid)).map PodProbeStatus.uid=pods.map PodProbeStatus.uid := by
    rw [map_map]
    rfl
  constructor
  · refine Nodup.sublist (filter_sublist.map _) ?_
    rw [hm]
    exact h.uids
  · intro s hs
    obtain ⟨s',hs',rfl⟩ := mem_map.mp (mem_of_mem_filter hs)
    exact (h.names s' hs').sublist (filter_sublist.map _)

theorem Once.addResult (u : Update) : Once (addResult now valid pods u) := by
  unfold ProbeDaemon.addResult
  split_ifs
  · exact h.update
  · exact h

theorem Once.addResults (results : List Update) : Once (results.foldl (ProbeDaemon.addResult now valid) pods) := by
  induction results generalizing pods with
  | nil => exact h
  | cons u results ih => exact ih (h.addResult u)

theorem resultsFor_addResult_of_ne {u : Update} (hne : (uid,name)≠(u.key.podUID,u.key.probeName)) :
    resultsFor (addResult now valid pods u) uid name=resultsFor pods uid name := by
  unfold addResult
  split_ifs
  · exact resultsFor_update_of_ne h hne
  · rfl

theorem resultsFor_addResults_of_ne {results : List Update}
    (hne : ∀ u∈results,(uid,name)≠(u.key.podUID,u.key.probeName)) :
    resultsFor (results.foldl (addResult now valid) pods) uid name=resultsFor pods uid name := by
  induction results generalizing pods with
  | nil => rfl
  | cons u results ih =>
    rw [foldl_cons,ih (h.addResult u) fun v hv => hne v (mem_cons_of_mem u hv)]
    exact resultsFor_addResult_of_ne h (hne u mem_cons_self)

theorem resultsFor_addResults_self {results : List Update} {u : Update}
    (hval : (u.key.podUID,u.key.probeName)∈valid) (hm : u∈results)
    (ho : ∀ v∈results, (v.key.podUID,v.key.probeName)=(u.key.podUID,u.key.probeName) → v=u) :
    resultsFor (results.foldl (addResult now valid) pods) u.key.podUID u.key.probeName = [(u.key,u.state)] := by
  induction results generalizing pods with
  | nil => cases hm
  | cons v results ih =>
    have hr:=fun x hx => ho x (mem_cons_of_mem v hx)
    rw [foldl_cons]
    by_cases ha : u∈results
    · exact ih (h.addResult v) ha hr
    · -- this is the last turn that reaches the probe
      obtain rfl := (mem_cons.mp hm).resolve_right ha
      rw [resultsFor_addResults_of_ne (h.addResult u)]
      · unfold addResult
        rw [if_pos hval]
        exact resultsFor_update_self h
      · intro x hx heq
        exact ha (hr x hx heq.symm ▸ hx)

end

/- Two probes that use neither one container nor one name in the status. -/
def Apart (k k' : ProbeKey) : Prop :=
  (k.podUID,k.containerName)≠(k'.podUID,k'.containerName) ∧
    (k.podUID,k.probeName)≠(k'.podUID,k'.probeName)

theorem Apart.symm {k k' : ProbeKey} (h : Apart k k') : Apart k' k := ⟨h.1.symm,h.2.symm⟩

def World.container (w : World) (k : ProbeKey) : Option String := (w.workers k).map Worker.containerID

structure Inv (owner : String → String × String) (w : World) : Prop where
  apart : ∀ k₁ k₂ id₁ id₂,w.container k₁=some id₁ → w.container k₂=some id₂ → k₁≠k₂ → Apart k₁ k₂
  owns : ∀ k id,w.container k=some id → id ≠ "" → owner id=(k.podUID,k.containerName)
  cached : ∀ id u,w.cache.lookup id=some u → id ≠ "" ∧ w.container u.key=some id
  last : ∀ k id,w.container k=some id → w.lastSet k=(w.cache.lookup id).map Update.state
  once : Once w.status
  runtime : w.runtime.all (owned owner)

theorem container_of_worker (hw : w.workers k=some worker) : w.container k=some worker.containerID := by
  rw [World.container,hw]
  rfl

theorem container_setWorker (x : Option Worker) :
    (w.setWorker k x).container=update w.container k (x.map Worker.containerID) :=
  comp_update (Option.map Worker.containerID) w.workers k x

section

variable {cache : Cache} {u : Update} {id : String}

theorem lookup_set (hprev : ∀ prev,cache.lookup u.containerID=some prev → prev.key=u.key) :
    ∃ v,v.key=u.key ∧ v.state=u.state ∧ ∀ id,(Cache.set cache u).lookup id =
      if id=u.containerID then some v else cache.lookup id := by
  have hinsert : ∀ id,(cache.insert u.containerID u).lookup id =
      if id=u.containerID then some u else cache.lookup id := by
    intro id
    split_ifs with hid
    · rw [hid]
      exact AList.lookup_insert _
    · exact AList.lookup_insert_ne hid
  unfold Cache.set
  cases hlk : cache.lookup u.containerID with
  | none => exact ⟨u,rfl,rfl,hinsert⟩
  | some prev =>
    dsimp only
    split_ifs with hsto
    · exact ⟨u,rfl,rfl,hinsert⟩
    · rw [not_or,not_not] at hsto
      refine ⟨prev,hprev prev hlk,hsto.1,fun id => ?_⟩
      split_ifs with hid
      · rw [hid,hlk]
      · rfl

variable {owner : String → String × String} {k' : ProbeKey} (h : Inv owner w)
include h

theorem Inv.congr {w' : World} (hcon : w'.container=w.container) (hcache : w'.cache=w.cache)
    (hlast : w'.lastSet=w.lastSet) (honce : Once w'.status) (hr : w'.runtime.all (owned owner)) : Inv owner w' := by
  obtain ⟨hap,howns,hcd,hls,-,-⟩ := h
  rw [← hcon] at hap howns hcd hls
  rw [← hcache] at hcd hls
  rw [← hlast] at hls
  exact ⟨hap,howns,hcd,hls,honce,hr⟩

theorem Inv.setWorker (hk : w.container k=some worker.containerID) : Inv owner (w.setWorker k (some worker)) := by
  refine h.congr ?_ rfl rfl h.once h.runtime
  rw [container_setWorker,update_eq_self_iff]
  exact hk.symm

theorem Inv.injective (hk : w.container k=some id) (hk' : w.container k'=some id) (hid : id ≠ "") : k=k' := by
  by_contra hne
  exact (h.apart k k' id id hk hk' hne).1 ((h.owns k id hk hid).symm.trans (h.owns k' id hk' hid))

theorem Inv.set (hk : w.container k=some id) (hid : id ≠ "") (now : Int) (state : ProbeState) (msg : String) :
    Inv owner (w.set now k id state msg) := by
  -- the place of the container is free or holds a result of the same worker
  have hprev : ∀ prev,w.cache.lookup id=some prev → prev.key=k :=
    fun prev hp => h.injective (h.cached id prev hp).2 hk hid
  obtain ⟨v,hkey,hstate,hlookup⟩ := @lookup_set w.cache ⟨id,k,state,msg,now⟩ hprev
  refine ⟨h.apart,h.owns,?_,?_,h.once,h.runtime⟩
  · intro id' u hu
    have hl:=(hlookup id').symm.trans hu
    split_ifs at hl with hsame
    · cases hl
      rw [hkey,hsame]
      exact ⟨hid,hk⟩
    · exact h.cached id' u hl
  · intro k' id' hk'
    have hl:=congrArg (Option.map Update.state) (hlookup id')
    refine Eq.trans ?_ hl.symm
    by_cases hsame : k'=k
    · subst hsame
      obtain rfl := Option.some.inj (hk.symm.trans hk')
      rw [if_pos rfl,Option.map_some,hstate]
      exact update_self _ _ _
    · have hne : id'≠id := by
        rintro rfl
        exact hsame (h.injective hk' hk hid)
      rw [if_neg hne,← h.last k' id' hk']
      exact update_of_ne hsame _ _

omit h in
theorem container_exit : (w.exit k worker).container k'=some id ↔ k'≠k ∧ w.container k'=some id := by
  rw [World.exit,container_setWorker]
  by_cases hk : k'=k
  · simp [hk]
  · rw [update_of_ne hk]
    exact (and_iff_right hk).symm

theorem Inv.lookup_exit (hw : w.workers k=some worker) :
    (w.exit k worker).cache.lookup id=some u ↔ w.cache.lookup id=some u ∧ u.key≠k := by
  have hk:=container_of_worker hw
  have hkey : w.cache.lookup id=some u → (id=worker.containerID ↔ u.key=k) := by
    intro hu
    obtain ⟨hid,hcon⟩ := h.cached id u hu
    constructor
    · rintro rfl
      exact h.injective hcon hk hid
    · rintro rfl
      exact Option.some.inj (hcon.symm.trans hk)
  change (if worker.containerID = "" then w.cache else w.cache.erase worker.containerID).lookup id=some u ↔ _
  split_ifs with he
  · refine (and_iff_left_of_imp fun hu heq => ?_).symm
    exact (h.cached id u hu).1 (((hkey hu).mpr heq).trans he)
  · by_cases hid : id=worker.containerID
    · rw [hid,AList.lookup_erase,← hid]
      refine ⟨fun hu => ?_,fun ⟨hu,hne⟩ => absurd ((hkey hu).mp hid) hne⟩
      cases hu
    · rw [AList.lookup_erase_ne hid]
      exact (and_iff_left_of_imp fun hu heq => hid ((hkey hu).mpr heq)).symm

theorem Inv.exit (hw : w.workers k=some worker) : Inv owner (w.exit k worker) := by
  refine ⟨?_,?_,?_,?_,h.once,h.runtime⟩
  · intro k₁ k₂ id₁ id₂ h₁ h₂
    exact h.apart k₁ k₂ id₁ id₂ (container_exit.mp h₁).2 (container_exit.mp h₂).2
  · intro k' id hk'
    exact h.owns k' id (container_exit.mp hk').2
  · intro id u hu
    obtain ⟨hu,hkey⟩ := (h.lookup_exit hw).mp hu
    exact ⟨(h.cached id u hu).1,container_exit.mpr ⟨hkey,(h.cached id u hu).2⟩⟩
  · intro k' id hk'
    obtain ⟨hne,hcon⟩ := container_exit.mp hk'
    refine (h.last k' id hcon).trans (congrArg _ (Option.ext fun u => ?_))
    refine (and_iff_left_of_imp fun hu => ?_).symm.trans (h.lookup_exit hw).symm
    rintro rfl
    exact hne (h.injective hcon (h.cached id u hu).2 (h.cached id u hu).1)

theorem Inv.assign (hn : w.container k=none) (hal : ∀ k' id',w.container k'=some id' → Apart k k')
    (hid : worker.containerID ≠ "" → owner worker.containerID=(k.podUID,k.containerName)) :
    Inv owner {w.setWorker k (some worker) with lastSet := update w.lastSet k none} := by
  have hcon : ∀ {k' id},(w.setWorker k (some worker)).container k'=some id →
      (k'=k ∧ worker.containerID=id) ∨ (k'≠k ∧ w.container k'=some id) := by
    intro k' id hk'
    rw [container_setWorker] at hk'
    by_cases hk : k'=k
    · rw [hk,update_self] at hk'
      exact .inl ⟨hk,Option.some.inj hk'⟩
    · rw [update_of_ne hk] at hk'
      exact .inr ⟨hk,hk'⟩
  have hfree : w.cache.lookup worker.containerID=none := by
    refine Option.eq_none_iff_forall_ne_some.mpr fun u hu => ?_
    obtain ⟨hne,hkey⟩ := h.cached _ u hu
    exact (hal u.key _ hkey).1 ((hid hne).symm.trans (h.owns _ _ hkey hne))
  refine ⟨?_,?_,?_,?_,h.once,h.runtime⟩
  · intro k₁ k₂ id₁ id₂ h₁ h₂ hne
    rcases hcon h₁ with ⟨rfl,-⟩ | ⟨-,h₁'⟩ <;> rcases hcon h₂ with ⟨rfl,-⟩ | ⟨-,h₂'⟩
    · exact absurd rfl hne
    · exact hal k₂ id₂ h₂'
    · exact (hal k₁ id₁ h₁').symm
    · exact h.apart k₁ k₂ id₁ id₂ h₁' h₂' hne
  · intro k' id hk'
    rcases hcon hk' with ⟨rfl,rfl⟩ | ⟨-,hk'⟩
    · exact hid
    · exact h.owns k' id hk'
  · intro id u hu
    obtain ⟨hne,hkey⟩ := h.cached id u hu
    refine ⟨hne,?_⟩
    change (w.setWorker k (some worker)).container u.key=some id
    rw [container_setWorker,update_of_ne,hkey]
    intro heq
    rw [heq,hn] at hkey
    cases hkey
  · intro k' id hk'
    rcases hcon hk' with ⟨rfl,rfl⟩ | ⟨hne,hk'⟩
    · exact (update_self _ _ _).trans (congrArg (Option.map Update.state) hfree).symm
    · exact (update_of_ne hne _ _).trans (h.last k' id hk')

end

section

variable {owner : String → String × String}

theorem laterContainer_cases (latest : Option RuntimeContainer) (c : RuntimeContainer) :
    laterContainer latest c=latest ∨ laterContainer latest c=some c := by
  cases latest with
  | none => exact .inr rfl
  | some l =>
    by_cases hl : c.createdAt > l.createdAt
    · exact .inr (if_pos hl)
    · exact .inl (if_neg hl)

variable {c : RuntimeContainer}

theorem fetchLatest_mem {runtime : List RuntimeContainer} {podUID name : String}
    (h : fetchLatestPodContainer runtime podUID name=some c) : c∈runtime ∧ c.podUID=podUID ∧ c.name=name := by
  -- every container the loop keeps is one of the pod's with this name
  have hloop : ∀ (cs : List RuntimeContainer) (latest : Option RuntimeContainer),
      (∀ x∈cs,x∈runtime ∧ x.podUID=podUID ∧ x.name=name) →
      (∀ x,latest=some x → x∈runtime ∧ x.podUID=podUID ∧ x.name=name) →
      ∀ x,cs.foldl laterContainer latest=some x → x∈runtime ∧ x.podUID=podUID ∧ x.name=name := by
    intro cs
    induction cs with
    | nil => exact fun latest _ hl => hl
    | cons y ys ih =>
      intro latest hcs hl
      refine ih _ (fun x hx => hcs x (mem_cons_of_mem y hx)) ?_
      intro x hx
      rcases laterContainer_cases latest y with hk | hk
      · exact hl x (hk ▸ hx)
      · rw [hk] at hx
        exact Option.some.inj hx ▸ hcs y mem_cons_self
  refine hloop _ none ?_ (fun x hx => by cases hx) c h
  intro x hx
  obtain ⟨hm,hx⟩ := mem_filter.mp hx
  exact ⟨hm,of_decide_eq_true hx⟩

section

variable (h : Inv owner w)
include h

theorem Inv.owned (hf : fetchLatestPodContainer w.runtime k.podUID k.containerName=some c) :
    owner c.id=(k.podUID,k.containerName) ∧ c.id ≠ "" := by
  obtain ⟨hm,hu,hn⟩ := fetchLatest_mem hf
  have ho:=of_decide_eq_true (all_eq_true.mp h.runtime c hm)
  rw [hu,hn] at ho
  exact ho

theorem Inv.follow (hw : w.workers k=some worker) (now : Int)
    (hc : owner c.id=(k.podUID,k.containerName) ∧ c.id ≠ "") :
    Inv owner (w.follow now k worker c) ∧ (w.follow now k worker c).container k=some c.id := by
  have hk:=container_of_worker hw
  unfold World.follow
  split_ifs with hsame
  · exact ⟨h,hk.trans (congrArg some hsame)⟩
  · have hself (w : World) : (w.setWorker k (some {worker with containerID := c.id})).container k=some c.id := by
      rw [container_setWorker,update_self]
      rfl
    -- as if the worker left and another one started
    have hassigned : Inv owner {(w.exit k worker).setWorker k (some {worker with containerID := c.id}) with
        lastSet := update w.lastSet k none} := by
      refine (h.exit hw).assign ?_ ?_ fun _ => hc.1
      · rw [World.exit,container_setWorker,update_self]
        rfl
      · intro k' id' hk'
        obtain ⟨hne,hk'⟩ := container_exit.mp hk'
        exact h.apart k k' _ id' hk hk' hne.symm
    have hset:=hassigned.set (hself (w.exit k worker)) hc.2 now .unknown ""
    simp only [World.set,World.exit,World.setWorker,update_idem] at hset
    exact ⟨hset,hself (w.remove worker.containerID)⟩

theorem Inv.noteRunning (hk : w.container k=some c.id) (hc : c.id ≠ "") (now : Int) :
    Inv owner (w.noteRunning now k c) ∧ (w.noteRunning now k c).container k=some c.id := by
  unfold World.noteRunning
  split_ifs
  · exact ⟨h,hk⟩
  · exact ⟨h.set hk hc _ _ _,hk⟩

theorem Inv.record (hk : w.container k=some c.id) (hc : c.id ≠ "")
    (answer : Option (ProbeState × String)) : Inv owner (w.record now k worker c.id answer) := by
  unfold World.record
  cases answer with
  | none => exact h
  | some answer =>
    have hr : Inv owner (w.setWorker k (some (worker.answered c.id answer.1))) := h.setWorker hk
    dsimp only
    split_ifs
    · exact hr
    · refine hr.set ?_ hc now answer.1 answer.2
      rw [container_setWorker,update_self]
      rfl

theorem Inv.doProbe (hw : w.workers k=some worker)
    (answer : Option (ProbeState × String)) : Inv owner (w.doProbe now k worker answer) := by
  unfold World.doProbe
  cases hfetch : fetchLatestPodContainer w.runtime k.podUID k.containerName with
  | none => exact h
  | some c =>
    have hc:=h.owned hfetch
    obtain ⟨hf,hw'⟩ := h.follow hw now hc
    obtain ⟨hn,hw''⟩ := hf.noteRunning hw' hc.2 now
    dsimp only
    split_ifs
    · exact hn
    · exact hn.record hw'' hc.2 answer

theorem Inv.updateProbeSpec (hw : w.workers k=some worker)
    (spec : ContainerProbeSpec) : Inv owner (w.updateProbeSpec now k worker spec) := by
  have hk:=container_of_worker hw
  unfold World.updateProbeSpec
  split_ifs with hr
  · exact (h.set hk hr.2 now .unknown "").setWorker hk
  · exact h.setWorker hk

theorem Inv.startWorker (hn : w.workers k=none)
    (hal : ∀ k',(w.workers k').isSome → Apart k k') (spec : ContainerProbeSpec) :
    Inv owner (w.startWorker k spec) := by
  refine h.assign (by rw [World.container,hn]; rfl) ?_ fun hne => absurd rfl hne
  intro k' id' hk'
  obtain ⟨x,hx,-⟩ := Option.map_eq_some_iff.mp hk'
  exact hal k' (by rw [hx]; rfl)

end

theorem workers_syncProbe (p : ProbeKey × ContainerProbeSpec) (k' : ProbeKey) :
    ((syncProbe now w p).workers k').isSome ↔ (w.workers k').isSome ∨ k'=p.1 := by
  have hu : ∃ x,(syncProbe now w p).workers=Function.update w.workers p.1 (some x) := by
    unfold syncProbe
    cases w.workers p.1 with
    | none => exact ⟨newWorker p.2,rfl⟩
    | some worker =>
      refine ⟨{worker with spec := p.2},?_⟩
      unfold World.updateProbeSpec
      dsimp only
      split_ifs <;> rfl
  obtain ⟨x,hx⟩ := hu
  rw [hx]
  by_cases hk : k'=p.1
  · rw [hk,update_self]
    simp
  · simp [hk]

def CanStart (w : World) (keys : List ProbeKey) : Prop :=
  ∀ k∈keys,w.workers k=none → ∀ k',k'≠k →
    ((w.workers k').isSome ∨ k'∈keys) → Apart k k'

variable {keys : List ProbeKey} {p : ProbeKey × ContainerProbeSpec}

theorem CanStart.syncProbe (h : CanStart w keys) (hp : p.1∈keys) : CanStart (syncProbe now w p) keys := by
  intro k hk hn k' hne hk'
  have ho : ∀ x,(w.workers x).isSome → ((ProbeDaemon.syncProbe now w p).workers x).isSome :=
    fun x hx => (workers_syncProbe p x).mpr (.inl hx)
  have hn' : w.workers k=none := by
    by_contra hsome
    have hstill:=ho k (Option.isSome_iff_ne_none.mpr hsome)
    rw [hn] at hstill
    cases hstill
  refine h k hk hn' k' hne ?_
  rcases hk' with hk' | hk'
  · rcases (workers_syncProbe p k').mp hk' with hk' | rfl
    · exact .inl hk'
    · exact .inr hp
  · exact .inr hk'

theorem Inv.syncProbe (h : Inv owner w) (hsta : CanStart w keys) (hp : p.1∈keys) :
    Inv owner (syncProbe now w p) := by
  unfold ProbeDaemon.syncProbe
  cases hw : w.workers p.1 with
  | some worker => exact h.updateProbeSpec hw p.2
  | none =>
    refine h.startWorker hw ?_ p.2
    intro k' hk'
    refine hsta p.1 hp hw k' ?_ (.inl hk')
    rintro rfl
    rw [hw] at hk'
    cases hk'

theorem Inv.syncProbes (h : Inv owner w) (hsta : CanStart w keys)
    (ps : List (ProbeKey × ContainerProbeSpec)) (hps : ∀ p∈ps,p.1∈keys) :
    Inv owner (ps.foldl (ProbeDaemon.syncProbe now) w) := by
  induction ps generalizing w with
  | nil => exact h
  | cons p ps ih =>
    have hp:=hps p mem_cons_self
    exact ih (h.syncProbe hsta hp) (hsta.syncProbe hp) fun q hq => hps q (mem_cons_of_mem p hq)

theorem Inv.sync (h : Inv owner w) (hsta : CanStart w ((probesOf w.spec).map Prod.fst)) :
    Inv owner (w.sync now) := by
  have hs : Inv owner ((probesOf w.spec).foldl (ProbeDaemon.syncProbe now) w) :=
    h.syncProbes hsta (probesOf w.spec) fun p hp => mem_map_of_mem hp
  refine hs.congr (funext fun k => ?_) rfl rfl hs.once hs.runtime
  unfold World.container World.sync
  rw [Option.map_map]
  congr 1
  funext x
  rw [comp_apply,stopUnless]
  split_ifs <;> rfl

end

/- A worker is started only for a probe that shares neither its container nor its name in the
status with another probe, of the spec or of a worker that is still there. -/
def Alone (w : World) : Label → Prop
  | .sync _ => CanStart w ((probesOf w.spec).map Prod.fst)
  | _ => True

variable {owner : String → String × String}

theorem Init.inv {w : World} (h : Init owner w) : Inv owner w := by
  have hnone : ∀ k,w.container k=none := by
    intro k
    rw [World.container,h.workers k]
    rfl
  refine ⟨?_,?_,?_,?_,h.status,h.runtime⟩
  · simp [hnone]
  · simp [hnone]
  · simp [h.cache]
  · simp [hnone]

theorem Inv.step {w w' : World} {l : Label} (h : Inv owner w) (hstep : Step owner w l w')
    (hal : Alone w l) : Inv owner w' := by
  unfold Step next at hstep
  cases l with
  | setSpec spec =>
    cases hstep
    exact h.congr rfl rfl rfl h.once h.runtime
  | setRuntime runtime =>
    dsimp only at hstep
    split_ifs at hstep with hr
    cases hstep
    exact h.congr rfl rfl rfl h.once hr
  | sync now =>
    cases hstep
    exact h.sync hal
  | probe now k answer =>
    obtain ⟨worker,hw,rfl⟩ := Option.map_eq_some_iff.mp hstep
    exact h.doProbe hw answer
  | exit k =>
    dsimp only at hstep
    cases hw : w.workers k with
    | none =>
      rw [hw] at hstep
      cases hstep
    | some worker =>
      rw [hw] at hstep
      dsimp only at hstep
      split_ifs at hstep
      cases hstep
      exact h.exit hw
  | statusSync now results =>
    dsimp only at hstep
    split_ifs at hstep
    cases hstep
    exact h.congr rfl rfl rfl (h.once.keptStatus.addResults results) h.runtime

theorem inv_of_reachable {w : World} (h : Reachable (Init owner) (Restricted (Step owner) Alone) w) : Inv owner w :=
  h.invariant (fun _ => Init.inv) fun _ _ _ hi hstep => hi.step hstep.1 hstep.2

theorem Inv.only_result {w : World} (h : Inv owner w) {id id' : String} {u v : Update}
    (hu : w.cache.lookup id=some u) (hv : w.cache.lookup id'=some v)
    (hn : (v.key.podUID,v.key.probeName)=(u.key.podUID,u.key.probeName)) : v=u := by
  have hk : v.key=u.key := by
    by_contra hne
    exact (h.apart v.key u.key _ _ (h.cached id' v hv).2 (h.cached id u hu).2 hne).2 hn
  obtain rfl : id'=id := Option.some.inj ((h.cached id' v hv).2.symm.trans (hk ▸ (h.cached id u hu).2))
  exact Option.some.inj (hv.symm.trans hu)

/-- After a status sync of any such run, the status has for each probe with a worker the one
result that this worker has set last. -/
theorem status_holds_own_result {owner : String → String × String} {w w' : World} {now : Int}
    {results : List Update} (hreach : Reachable (Init owner) (Restricted (Step owner) Alone) w)
    (hstep : Step owner w (.statusSync now results) w') {k : ProbeKey} {worker : Worker}
    (hworker : w.workers k=some worker) (hspec : k∈(probesOf w.spec).map Prod.fst)
    {result : ProbeState} (hset : w.lastSet k=some result) :
    resultsFor w'.status k.podUID k.probeName=[(k,result)] := by
  have hi:=inv_of_reachable hreach
  unfold Step next at hstep
  dsimp only at hstep
  split_ifs at hstep with hperm
  cases hstep
  have hk:=container_of_worker hworker
  obtain ⟨u,hu,rfl⟩ := Option.map_eq_some_iff.mp ((hi.last k _ hk).symm.trans hset)
  obtain ⟨hid,hkey⟩ := hi.cached _ u hu
  obtain rfl := hi.injective hkey hk hid
  refine resultsFor_addResults_self hi.once.keptStatus ?_ ?_ ?_
  · obtain ⟨p,hp,hk⟩ := mem_map.mp hspec
    exact mem_map.mpr ⟨p,hp,by rw [hk]⟩
  · refine hperm.mem_iff.mpr (mem_map.mpr ⟨⟨worker.containerID,u⟩,?_,rfl⟩)
    exact AList.mem_lookup_iff.mp hu
  · intro v hv hn
    obtain ⟨e,he,rfl⟩ := mem_map.mp (hperm.mem_iff.mp hv)
    exact hi.only_result hu (AList.mem_lookup_iff.mpr he) hn

/-- In every state of such a run a cached result is the last one of a worker that is still there
and has the container, and the status has each pod and each probe of it once. -/
theorem cached_result_has_worker {owner : String → String × String} {w : World}
    (hreach : Reachable (Init owner) (Restricted (Step owner) Alone) w) : Once w.status ∧
      ∀ id u,w.cache.lookup id=some u → ∃ worker,w.workers u.key=some worker ∧
        worker.containerID=id ∧ w.lastSet u.key=some u.state := by
  have hi:=inv_of_reachable hreach
  refine ⟨hi.once,?_⟩
  intro id u hu
  obtain ⟨-,hk⟩ := hi.cached id u hu
  obtain ⟨worker,hw,hid⟩ := Option.map_eq_some_iff.mp hk
  refine ⟨worker,hw,hid,?_⟩
  rw [hi.last u.key id hk,hu]
  rfl

def mainOwner : String → String × String := fun _ => ("u0", "main")

def mainProbe : ContainerProbeSpec := ⟨"cat /ready",1,1,1⟩

def mainKey (name : String) : ProbeKey := ⟨"default", "web-0", "u0", "10.0.0.1", "main",name⟩

def withProbes (names : List String) : World where
  spec := [⟨"default", "web-0", "u0", "10.0.0.1",names.map fun name => ⟨name, "main",mainProbe⟩⟩]
  runtime := [⟨"c1", "u0", "main",0,true,0⟩]
  workers := fun _ => none
  cache := ∅
  status := []
  lastSet := fun _ => none

theorem init_withProbes (names : List String) : Init mainOwner (withProbes names) :=
  ⟨fun _ => rfl,rfl,rfl,⟨nodup_nil,fun s hs => by cases hs⟩⟩

def probeAt : Int := 10000000000

def succeededOf (name : String) : Update := ⟨"c1",mainKey name,.succeeded, "",probeAt⟩

def failedOf (name : String) : Update := ⟨"c1",mainKey name,.failed, "",probeAt+1⟩

def pairOwner : String → String × String := fun id => ("u0",if id = "c2" then "side" else "main")

def sideKey : ProbeKey := {mainKey "m#b" with containerName := "side"}

/- A probe for each of two containers. -/
def withPair : World :=
  {withProbes [] with
    spec := [⟨"default", "web-0", "u0", "10.0.0.1",[⟨"m#a", "main",mainProbe⟩,⟨"m#b", "side",mainProbe⟩]⟩]
    runtime := [⟨"c1", "u0", "main",0,true,0⟩,⟨"c2", "u0", "side",0,true,0⟩]}

def mainProbed : World :=
  (withPair.sync 0).doProbe probeAt (mainKey "m#a") (newWorker mainProbe) (some (.succeeded, ""))

def bothProbed : World :=
  mainProbed.doProbe (probeAt+1) sideKey (newWorker mainProbe) (some (.failed, ""))

def pairResults : List Update := [succeededOf "m#a",⟨"c2",sideKey,.failed, "",probeAt+1⟩]

theorem reachable_bothProbed : Reachable (Init pairOwner) (Restricted (Step pairOwner) Alone) bothProbed := by
  have hi : Init pairOwner withPair := by
    refine ⟨fun _ => rfl,rfl,rfl,⟨by decide,by decide⟩⟩
  have hal : Alone withPair (.sync 0) := by
    intro k hk _ k' hne hk'
    rcases hk' with hk' | hk'
    · cases hk'
    · have hkeys : (probesOf withPair.spec).map Prod.fst=[mainKey "m#a",sideKey] := rfl
      rw [hkeys] at hk hk'
      simp only [mem_cons,not_mem_nil,or_false] at hk hk'
      rcases hk with rfl | rfl <;> rcases hk' with rfl | rfl
      · exact absurd rfl hne
      · exact ⟨by decide,by decide⟩
      · exact ⟨by decide,by decide⟩
      · exact absurd rfl hne
  have hsynced : Step pairOwner withPair (.sync 0) (withPair.sync 0) := rfl
  have hmain : Step pairOwner (withPair.sync 0)
      (.probe probeAt (mainKey "m#a") (some (.succeeded, ""))) mainProbed := rfl
  have hside : Step pairOwner mainProbed (.probe (probeAt+1) sideKey (some (.failed, ""))) bothProbed := rfl
  exact (((Reachable.start hi).next ⟨hsynced,hal⟩).next ⟨hmain,trivial⟩).next ⟨hside,trivial⟩

theorem bothProbes_reported :
    ∃ w',Step pairOwner bothProbed (.statusSync (probeAt+2) pairResults) w' ∧
      resultsFor w'.status "u0" "m#a" = [(mainKey "m#a",.succeeded)] ∧
      resultsFor w'.status "u0" "m#b" = [(sideKey,.failed)] := by
  have hsome : (next pairOwner bothProbed (.statusSync (probeAt+2) pairResults)).isSome := by decide +kernel
  obtain ⟨w',hstep⟩ := Option.isSome_iff_exists.mp hsome
  have hmain : bothProbed.workers (mainKey "m#a") =
      some ((newWorker mainProbe).answered "c1" .succeeded) := by decide +kernel
  have hside : bothProbed.workers sideKey=some ((newWorker mainProbe).answered "c2" .failed) := by decide +kernel
  exact ⟨w',hstep,
    status_holds_own_result reachable_bothProbed hstep hmain (by decide +kernel) (by decide +kernel),
    status_holds_own_result reachable_bothProbed hstep hside (by decide +kernel) (by decide +kernel)⟩

theorem bothProbes_cached : bothProbed.cache.lookup "c2"=some ⟨"c2",sideKey,.failed, "",probeAt+1⟩ ∧
    ∃ worker,bothProbed.workers sideKey=some worker ∧ worker.containerID = "c2" ∧
      bothProbed.lastSet sideKey=some .failed := by
  have hu : bothProbed.cache.lookup "c2"=some ⟨"c2",sideKey,.failed, "",probeAt+1⟩ := by decide +kernel
  exact ⟨hu,(cached_result_has_worker reachable_bothProbed).2 _ _ hu⟩

/-- Two probes of one container: the second one's result takes the place of the first one's. -/
theorem twoProbes_lose_first :
    Init mainOwner (withProbes ["m#a", "m#b"]) ∧ (runLabels (next mainOwner) [.sync 0,
          .probe probeAt (mainKey "m#a") (some (.succeeded, "")),
          .probe (probeAt+1) (mainKey "m#b") (some (.failed, "")),
          .statusSync (probeAt+2) [failedOf "m#b"]] (withProbes ["m#a", "m#b"])).map
        (fun w => ((w.workers (mainKey "m#a")).isSome,w.lastSet (mainKey "m#a"),
          resultsFor w.status "u0" "m#a"))=some (true,some .succeeded,[]) := by
  refine ⟨init_withProbes _,?_⟩
  decide +kernel

end Kruise.ProbeDaemon
