import Kruise.WorkloadSpread.Statuses

/-!
# A subset is not over-filled

A run is orderly if reconciles list no pod with a deletion record behind pods that use up the
limit, if the name of a pod to be created is recorded only while that pod is pending, if no pod
appears under a name with a deletion record, and if a deletion is credited only to a pod that was
admitted into the subset and is active.
-/

namespace Kruise.WorkloadSpread

open Util Util.IntStr Lib.Versioned Lib.Transition Option

/- Each condition is on the state before the step. -/
def Config.Orderly (c : Config) (w : World) : Label → Prop
  | .read id cached informer _ replicas _ =>
    ∀ f podName tries refresh s,w.flights id=some f → f.req=.create podName →
      f.phase=.reading tries refresh → podName ≠ "" →
      isPodRecordedInSubset (statusesFor c.spec replicas
        (w.store.clone f.ws refresh cached informer).obj) podName=some s →
      s.name=c.target → w.isPending podName
  | .write id =>
    ∀ f serial podName,w.flights id=some f → f.req=.delete serial podName c.target →
      ∃ p∈w.pods,p.serial=serial ∧ p.name=podName ∧ p.active ∧ c.inTarget p
  | .appear serial name =>
    ∀ p∈w.pending,p.serial=serial → c.inTarget p → p.name = "" →
      name∉(c.oldStatus w.store.current.obj).deletingPods
  | .reconcileStart listed adopt ws _ _ _ =>
    ∀ base,w.store.at ws=some base → c.listsInTime base.obj (listed.map (adoptPod adopt))
  | _ => True

structure FlightOk (c : Config) (store : Store Statuses) (f : Flight) : Prop where
  ws : store.Copy f.ws
  writing : ∀ tries base change,f.phase=.writing tries base change →
    store.Copy base ∧ ∃ uid replicas now,uid ≠ "" ∧
      updateSubsetForPod c.spec replicas base.obj now (f.req.operation uid) =
        .changed change.statuses change.subset change.uid

/- What a reconcile is about to write counts only while its base is current. -/
structure ReconcileOk (c : Config) (store : Store Statuses) (pods pending : List Pod) (r : Reconcile) : Prop where
  base : store.Copy r.base
  fits : r.base.rv=store.current.rv → StatusesOk c pods pending r.statuses ∧
    ∀ st∈r.statuses,st.name=c.target → ∀ n∈st.deletingPods,n∈(c.oldStatus store.current.obj).deletingPods

structure Inv (c : Config) (w : World) : Prop where
  pods : PodsOk c w.pods w.pending
  versions : ∀ v,w.store.Copy v → ∀ st∈v.obj,st.name=c.target → 0 ≤ st.missingReplicas
  current : StatusesOk c w.pods w.pending w.store.current.obj
  flights : ∀ id f,w.flights id=some f → FlightOk c w.store f
  reconcile : ∀ r,w.reconcile=some r → ReconcileOk c w.store w.pods w.pending r

variable {c : Config}

theorem FlightOk.put {store : Store Statuses} {f : Flight} (h : FlightOk c store f)
    (sts : Statuses) : FlightOk c (store.put sts) f := by
  refine ⟨h.ws.put sts,?_⟩
  intro tries base change hph
  obtain ⟨hbase,hr⟩ := h.writing tries base change hph
  exact ⟨hbase.put sts,hr⟩

theorem ReconcileOk.put {store : Store Statuses} {pods pending pods' pending' : List Pod}
    {r : Reconcile} (h : ReconcileOk c store pods pending r) (sts : Statuses) :
    ReconcileOk c (store.put sts) pods' pending' r := by
  have hlt : r.base.rv≠(store.put sts).current.rv := by
    have hle:=store.rv_le_current h.base
    rw [Store.current_put]
    dsimp only
    omega
  exact ⟨h.base.put sts,fun heq => absurd heq hlt⟩

variable {w : World}

section

variable (h : Inv c w)
include h

theorem Inv.setFlight (id : Nat) (f : Option Flight)
    (hf : ∀ g,f=some g → FlightOk c w.store g) : Inv c (w.setFlight id f) :=
  ⟨h.pods,h.versions,h.current,Lib.Keyed.forall_update h.flights hf,h.reconcile⟩

theorem Inv.move (pods pending : List Pod) (serial : Nat)
    (hpods : PodsOk c pods pending) (hf : ∀ sts,StatusesOk c w.pods w.pending sts →
      (∀ st∈sts,st.name=c.target → ∀ n∈st.deletingPods,
        n∈(c.oldStatus w.store.current.obj).deletingPods) → StatusesOk c pods pending sts) :
    Inv c {w with pods := pods,pending := pending,nextSerial := serial} := by
  refine ⟨hpods,h.versions,hf _ h.current ?_,h.flights,?_⟩
  · intro st hst hname n hn
    rw [h.current.oldStatus_eq hst hname]
    exact hn
  · intro r hr
    have hok:=h.reconcile r hr
    refine ⟨hok.base,fun heq => ?_⟩
    obtain ⟨hfits,hwi⟩ := hok.fits heq
    exact ⟨hf _ hfits hwi,hwi⟩

theorem Inv.put (sts : Statuses) (pods pending : List Pod) (serial : Nat)
    (hpods : PodsOk c pods pending) (hsts : StatusesOk c pods pending sts) :
    Inv c {w with
      store := w.store.put sts,pods := pods,pending := pending,nextSerial := serial} := by
  refine ⟨hpods,?_,hsts,fun id f hf => (h.flights id f hf).put sts, fun r hr => (h.reconcile r hr).put sts⟩
  intro v hv
  rcases (Store.copy_put_iff _ _ _).mp hv with rfl | ho
  · intro st hst hn
    exact (hsts.fits st hst hn).nonneg
  · exact h.versions v ho

theorem Inv.deleted (serial : Nat) : Inv c (w.deleted serial) := by
  have hkp:=keeps_markDeletion c serial
  exact h.move _ _ w.nextSerial (h.pods.map hkp) fun _ hsts _ =>
    hsts.imp fun _ _ hf => hf.map hkp

theorem Inv.terminate (serial : Nat) : Inv c (w.terminate serial) := by
  have hkp:=keeps_terminatePod c serial
  exact h.move _ _ w.nextSerial (h.pods.map hkp) fun _ hsts _ =>
    hsts.imp fun _ _ hf => hf.map hkp

theorem Inv.disappear (serial : Nat) : Inv c (w.disappear serial) :=
  h.move _ _ w.nextSerial (h.pods.filter _) fun _ hsts _ =>
    hsts.imp fun _ _ hf => hf.filter _

theorem Inv.appear {p : Pod} {name : String} (hp : p∈w.pending)
    (hcan : w.canAppear p name) (hn : c.inTarget p → p.name = "" →
      name∉(c.oldStatus w.store.current.obj).deletingPods) : Inv c (w.appear p name) := by
  obtain ⟨hne,ho,hpods,hpend⟩ := hcan
  have ha : Appears w.pods w.pending p name := ⟨hp,hne,ho,hpods,hpend⟩
  refine h.move _ _ w.nextSerial (h.pods.appear ha) ?_
  intro sts hsts hwi
  refine hsts.imp ?_
  intro st hst hf
  refine hf.appear ha ?_
  intro hin he hr
  rcases hst with ⟨hm,ht⟩ | rfl
  · exact hn hin he (hwi st hm ht name hr)
  · exact absurd hr (AList.notMem_empty name)

end

theorem apart_created {podName uid : String} (hcan : w.canCreate podName uid)
    (hnot : w.isPending podName=false) (subset : Option String) :
    ∀ q∈w.pods++w.pending, Apart q ⟨w.nextSerial,podName,uid,subset,true,subset,false⟩ := by
  intro q hq
  obtain ⟨hn,ha⟩ := hcan
  obtain ⟨hpod,hu⟩ := ha q hq
  refine ⟨?_,?_,fun hne => Ne.symm (hu hne).2,?_⟩
  · intro hne heq
    rw [heq] at hne
    exact (hu hne).1 heq
  · intro hne heq
    rw [heq] at hne
    exact hpod hne heq
  · intro hne heq
    rw [heq] at hne
    rcases List.mem_append.mp hq with hq | hq
    · exact hn q hq hne heq
    · have ht : w.isPending podName := by
        unfold World.isPending
        simp only [Bool.and_eq_true,List.any_eq_true,decide_eq_true_eq]
        exact ⟨hne,q,hq,heq⟩
      rw [hnot] at ht
      cases ht

theorem Inv.created (h : Inv c w) {podName : String} {subset : Option String}
    (hcan : w.canCreate podName "") (hsub : subset=some c.target → w.isPending podName) :
    Inv c (w.created podName "" subset) := by
  unfold World.created
  split_ifs with hpend
  · exact h
  have ho : c.inTarget ⟨w.nextSerial,podName, "",subset,true,subset,false⟩=false := by
    unfold Config.inTarget
    rw [decide_eq_false_iff_not]
    intro heq
    exact hpend (hsub heq)
  have hap:=apart_created hcan (Bool.eq_false_iff.mpr hpend) subset
  refine h.move _ _ (w.nextSerial+1) ?_ ?_
  · refine h.pods.create hap ?_ ?_ rfl rfl
    · intro hin
      rw [ho] at hin
      cases hin
    · intro hin
      rw [ho] at hin
      cases hin
  · intro sts hsts _
    exact hsts.imp fun _ _ hf => hf.create_elsewhere ho

variable {replicas now : Int} {w' : World} {sts : Statuses}

theorem Inv.charged (h : Inv c w) {podName uid subset uid' : String} (hu : uid ≠ "")
    (hchg : updateSubsetForPod c.spec replicas w.store.current.obj now (.create podName uid) =
      .changed sts subset uid')
    (hf : ({w with store := w.store.put sts} : World).finish (.create podName) (some subset) uid'=some w') :
    Inv c w' := by
  obtain ⟨s,hs,hpos,rfl,hfree,hu',hsts⟩ := updateSubsetForPod_create_changed hchg
  obtain ⟨hn,hfits⟩ := h.current.statusesFor replicas
  simp only [World.finish,ite_none_right_eq_some,some.injEq] at hf
  obtain ⟨hcan,rfl⟩ := hf
  unfold World.created
  split_ifs with hpend
  · refine h.put _ _ _ w.nextSerial h.pods ?_
    rw [hsts]
    refine statusesOk_replaceSubset hn ?_ ?_
    · intro ht
      exact (hfits s hs ht).charge_again hpos _ now
    · intro st hst ht _
      exact hfits st hst ht
  have hcan' : w.canCreate podName uid' := hcan
  have hnot : w.isPending podName=false := Bool.eq_false_iff.mpr hpend
  have hk : Pod.key ⟨w.nextSerial,podName,uid',some s.name,true,some s.name,false⟩ =
      if podName ≠ "" then podName else uid := by
    unfold Pod.key
    rw [hu']
    by_cases he : podName = ""
    · simp [he,hu]
    · simp [he]
  refine h.put _ _ _ (w.nextSerial+1) ?_ ?_
  · refine h.pods.create (apart_created hcan' hnot _) (fun hin => of_decide_eq_true hin) ?_ rfl rfl
    intro _
    rw [hk]
    split_ifs with he
    · exact he
    · exact hu
  rw [hsts,← hk]
  refine statusesOk_replaceSubset hn ?_ ?_
  · intro ht
    have hname : s.name=c.target := ht
    have hin : c.inTarget ⟨w.nextSerial,podName,uid',some s.name,true,some s.name,false⟩ = true := by
      simp [Config.inTarget,hname]
    exact (hfits s hs hname).charge hin hpos (fun hne => hfree hne s hs) now
  · intro st hst ht hne
    refine (hfits st hst ht).create_elsewhere ?_
    have hname : s.name≠c.target := fun heq => hne (ht.trans heq.symm)
    simp [Config.inTarget,hname]

theorem Inv.credited (h : Inv c w) {serial : Nat} {podName subset subset' uid' : String} (hl : subset=c.target →
      ∃ p∈w.pods,p.serial=serial ∧ p.name=podName ∧ p.active ∧ c.inTarget p)
    (hchg : updateSubsetForPod c.spec replicas w.store.current.obj now (.delete podName subset) =
      .changed sts subset' uid')
    (hfin : ({w with store := w.store.put sts} : World).finish (.delete serial podName subset)
      (some subset') uid'=some w') :
    Inv c w' := by
  obtain ⟨s,hs,rfl,hf,rfl⟩ := updateSubsetForPod_delete_changed hchg
  obtain ⟨hn,hfits⟩ := h.current.statusesFor replicas
  have hkp:=keeps_markDeletion c serial
  cases hfin
  refine h.put _ _ _ w.nextSerial (h.pods.map hkp) (statusesOk_replaceSubset hn ?_ ?_)
  · intro ht
    have hname : s.name=c.target := ht
    obtain ⟨x,hx,rfl,rfl,ha,hin⟩ := hl hname
    exact (hfits s hs hname).credit h.pods hx hin ha (hf s hs) now
  · intro st hst ht _
    exact (hfits st hst ht).map hkp

theorem missing_statusesFor (replicas : Int) (h : ∀ st∈sts,st.name=c.target → 0 ≤ st.missingReplicas) :
    ∀ st∈statusesFor c.spec replicas sts,st.name=c.target → 0 ≤ st.missingReplicas := by
  intro st hst hn
  unfold statusesFor at hst
  split_ifs at hst
  · obtain ⟨s,hs,rfl⟩ := List.mem_map.mp hst
    rw [c.eq_targetSubset hs hn]
    exact Int.natCast_nonneg c.limit
  · exact h st hst hn

section

variable (h : Inv c w)
include h

theorem Inv.finish_same {clone : Stored Statuses} (hcln : w.store.Copy clone)
    {req : Request} {uid : String} {subset : Option String}
    (hrep : ∀ podName s,req=.create podName → podName ≠ "" →
      isPodRecordedInSubset (statusesFor c.spec replicas clone.obj) podName=some s →
      s.name=c.target → w.isPending podName)
    (hsame : updateSubsetForPod c.spec replicas clone.obj now (req.operation uid)=.same subset)
    (hf : w.finish req subset "" = some w') : Inv c w' := by
  cases req with
  | delete serial podName target =>
    cases hf
    exact h.deleted serial
  | create podName =>
    simp only [World.finish,ite_none_right_eq_some,some.injEq] at hf
    obtain ⟨hcan,rfl⟩ := hf
    refine h.created hcan ?_
    intro ht
    rcases updateSubsetForPod_create_same hsame with
      ⟨hne,s,hr,hs⟩ | hn | ⟨s,hs,ho,hsub⟩
    · rw [hs] at ht
      exact hrep podName s rfl hne hr (some.inj ht)
    · rw [hn] at ht
      cases ht
    · -- the subset has a limit, so its status is never without one
      rw [hsub] at ht
      have hnonneg:=missing_statusesFor replicas (h.versions clone hcln) s hs (some.inj ht)
      omega

theorem Inv.read {id : Nat} {f : Flight} (hf : FlightOk c w.store f) {tries : Nat}
    {clone : Stored Statuses} (hcln : w.store.Copy clone) {uid : String} (hu : uid ≠ "")
    (hrep : ∀ podName s,f.req=.create podName → podName ≠ "" →
      isPodRecordedInSubset (statusesFor c.spec replicas clone.obj) podName=some s →
      s.name=c.target → w.isPending podName)
    (hr : w.read c.spec id f tries clone uid replicas now=some w') : Inv c w' := by
  unfold World.read at hr
  split at hr
  · rename_i subset ho
    obtain ⟨w₁,hfin,rfl⟩ := map_eq_some_iff.mp hr
    exact (h.finish_same hcln hrep ho hfin).setFlight id none (by simp)
  · rename_i sts subset uid' ho
    cases hr
    refine h.setFlight id _ ?_
    rintro g ⟨⟩
    refine ⟨hf.ws,?_⟩
    rintro tries' base change ⟨⟩
    exact ⟨hcln,uid,replicas,now,hu,ho⟩

theorem Inv.write {id : Nat} {f : Flight} {tries : Nat} {base : Stored Statuses}
    {change : Change} (hf : w.flights id=some f) (hph : f.phase=.writing tries base change)
    (hl : ∀ serial podName,f.req=.delete serial podName c.target →
      ∃ p∈w.pods,p.serial=serial ∧ p.name=podName ∧ p.active ∧ c.inTarget p)
    (hwr : w.write id f tries base change=some w') : Inv c w' := by
  have hok:=h.flights id f hf
  obtain ⟨hbase,uid,replicas,now,hu,ho⟩ := hok.writing tries base change hph
  unfold World.write at hwr
  cases hput : w.store.update base change.statuses with
  | none =>
    rw [hput] at hwr
    cases hwr
    refine h.setFlight id _ ?_
    rintro g ⟨⟩
    refine ⟨hok.ws,?_⟩
    rintro tries' base' change' ⟨⟩
  | some store =>
    rw [hput] at hwr
    obtain ⟨w₁,hfin,rfl⟩ := map_eq_some_iff.mp hwr
    obtain ⟨rfl,rfl⟩ := w.store.update_eq_some _ _ _ hbase hput
    have hi : Inv c w₁ := by
      cases hr : f.req with
      | create podName =>
        rw [hr] at ho hfin
        exact h.charged hu ho hfin
      | delete serial podName subset =>
        rw [hr] at ho hfin
        refine h.credited ?_ ho hfin
        rintro rfl
        exact hl serial podName hr
    exact hi.setFlight id none (by simp)

theorem Inv.deleteStart (id : Nat) (p : Pod) {ws : Stored Statuses}
    (hws : w.store.Copy ws) : Inv c (w.deleteStart id p ws) := by
  unfold World.deleteStart
  split
  · refine h.setFlight id _ ?_
    rintro g ⟨⟩
    refine ⟨hws,?_⟩
    rintro tries base change ⟨⟩
  · exact h.deleted p.serial

theorem Inv.reconcileStart {listed : List Pod} (adopt : Nat → Option String)
    {base : Stored Statuses} (unschedulable : String → Bool) (hbase : w.store.Copy base)
    (hperm : listed.Perm w.pods) (hf : unexpiredStatuses now base.obj)
    (hr : 0≤replicas) (ht : c.listsInTime base.obj (listed.map (adoptPod adopt))) :
    Inv c (w.reconcileStart c.spec listed adopt base replicas unschedulable now) := by
  have hkp:=keeps_adoptPod c adopt
  have had:=h.move _ _ w.nextSerial (h.pods.map hkp) fun _ hsts _ =>
    hsts.imp fun _ _ hfits => hfits.map hkp
  refine ⟨had.pods,had.versions,had.current,had.flights,?_⟩
  rintro r ⟨⟩
  refine ⟨hbase,fun heq => ?_⟩
  obtain rfl := w.store.eq_current_of_rv hbase heq
  exact statusesOk_calculate had.current.oldStatus.recordsOnly
    (fun hn _ => had.current.empty hn) had.pods (hperm.map _) unschedulable hf hr ht

theorem Inv.dropReconcile : Inv c {w with reconcile := none} :=
  ⟨h.pods,h.versions,h.current,h.flights,fun r hr => by cases hr⟩

theorem Inv.reconcileWrite {r : Reconcile} (hr : w.reconcile=some r) : Inv c (w.reconcileWrite r) := by
  have hok:=h.reconcile r hr
  unfold World.reconcileWrite
  cases hput : w.store.update r.base r.statuses with
  | none => exact h.dropReconcile
  | some store =>
    obtain ⟨hbase,rfl⟩ := w.store.update_eq_some _ _ _ hok.base hput
    have hf:=(hok.fits (congrArg Stored.rv hbase)).1
    exact (h.put r.statuses w.pods w.pending w.nextSerial h.pods hf).dropReconcile

end

theorem inTarget_start {p : Pod} (hp : p∈c.pods) : c.inTarget p=decide (p.subset=some c.target) := by
  unfold Config.inTarget
  rw [(c.running p hp).2.2.2]

theorem podsOk_start (c : Config) : PodsOk c c.pods [] := by
  refine ⟨?_,?_,?_,?_,?_,?_,?_⟩
  · rw [List.append_nil]
    exact c.apart
  · intro p hp _
    exact (c.running p hp).2.1
  · intro p hp
    exact (c.running p hp).1
  · intro p hp ht
    rw [List.append_nil] at hp
    rw [inTarget_start hp] at ht
    exact of_decide_eq_true ht
  · rintro p ⟨⟩
  · rintro p ⟨⟩
  · rintro p ⟨⟩

theorem fits_noRecords (c : Config) : Fits c c.pods [] (c.oldStatus []).recordsOnly := by
  refine ⟨Int.le_refl 0,?_,?_,?_,?_⟩
  · have hh : c.holders ∅ c.pods≤c.pods.countP fun p => p.subset=some c.target := by
      refine List.countP_mono_left ?_
      intro p hp hcnt
      rw [← inTarget_start hp]
      exact (Bool.and_eq_true_iff.mp hcnt).1
    have hf:=c.fits
    change (0 : Int)+((c.holders ∅ c.pods : Int)+0)≤c.limit
    omega
  · rintro p ⟨⟩
  · intro p _ _ hr
    exact absurd hr (AList.notMem_empty _)
  · rintro p ⟨⟩

theorem creditsInTime_empty (room : Int) (pods : List Pod) : creditsInTime ∅ room pods := by
  induction pods generalizing room with
  | nil => rfl
  | cons p pods ih =>
    unfold creditsInTime
    rw [if_neg (AList.notMem_empty p.name)]
    split_ifs <;> exact ih _

theorem inv_start (c : Config) : Inv c c.start := by
  have he : ([] : Statuses)=[] → c.pods=[] → Fits c c.pods [] c.emptyStatus := by
    intro _ hn
    rw [hn]
    refine fits_emptyStatus ?_
    rintro p ⟨⟩
  have hf : unexpiredStatuses c.syncTime [] := rfl
  have hsts:=(statusesOk_calculate (fits_noRecords c) he (podsOk_start c)
    (.refl c.pods) (fun _ => false) hf c.replicasNonneg
    (.inr (creditsInTime_empty _ _))).1
  refine ⟨podsOk_start c,?_,hsts,?_,?_⟩
  · intro v hv st hst hname
    rw [(Store.copy_start_iff _ _).mp hv] at hst
    exact (hsts.fits st hst hname).nonneg
  · rintro id f ⟨⟩
  · rintro r ⟨⟩

theorem inv_next {l : Label} (h : Inv c w) (hstep : c.step w l w') (ho : c.Orderly w l) : Inv c w' := by
  unfold Config.step at hstep
  cases l with
  | createStart id podName ws =>
    simp only [Config.next,ite_none_right_eq_some,map_eq_some_iff] at hstep
    obtain ⟨_,copy,hcopy,rfl⟩ := hstep
    refine h.setFlight id _ ?_
    rintro g ⟨⟩
    refine ⟨Store.copy_at hcopy,?_⟩
    rintro tries base change ⟨⟩
  | deleteStart id serial ws =>
    simp only [Config.next,ite_none_right_eq_some,bind_eq_some_iff,map_eq_some_iff] at hstep
    obtain ⟨_,p,_,copy,hcopy,rfl⟩ := hstep
    exact h.deleteStart id p (Store.copy_at hcopy)
  | read id cached informer uid replicas now =>
    simp only [Config.next,ite_none_right_eq_some,bind_eq_some_iff] at hstep
    obtain ⟨⟨hu,_⟩,f,hf,hrest⟩ := hstep
    split at hrest
    · rename_i tries refresh hph
      have hok:=h.flights id f hf
      refine h.read hok (Store.copy_clone hok.ws refresh cached informer) hu ?_ hrest
      intro podName s hreq
      exact ho f podName (tries+1) refresh s hf hreq hph
    · cases hrest
  | write id =>
    obtain ⟨f,hf,hrest⟩ := bind_eq_some_iff.mp hstep
    split at hrest
    · rename_i hph
      exact h.write hf hph (fun serial podName hreq => ho f serial podName hf hreq) hrest
    · cases hrest
  | abandon id =>
    cases hstep
    exact h.setFlight id none (by simp)
  | appear serial name =>
    simp only [Config.next,bind_eq_some_iff,ite_none_right_eq_some,some.injEq] at hstep
    obtain ⟨p,hfind,hcan,rfl⟩ := hstep
    have hser:=List.find?_some hfind
    have hp:=List.mem_of_find?_eq_some hfind
    exact h.appear hp hcan (ho p hp (of_decide_eq_true hser))
  | terminate serial =>
    cases hstep
    exact h.terminate serial
  | disappear serial =>
    cases hstep
    exact h.disappear serial
  | reconcileStart listed adopt ws replicas unschedulable now =>
    simp only [Config.next,ite_none_right_eq_some,bind_eq_some_iff,some.injEq] at hstep
    obtain ⟨⟨_,hperm,hreplicas⟩,base,hbase,hfresh,rfl⟩ := hstep
    exact h.reconcileStart adopt unschedulable (Store.copy_at hbase) hperm hfresh hreplicas (ho base hbase)
  | reconcileWrite =>
    obtain ⟨r,hr,rfl⟩ := map_eq_some_iff.mp hstep
    exact h.reconcileWrite hr
  | reconcileAbandon =>
    cases hstep
    exact h.dropReconcile

theorem Inv.undeleted_le (h : Inv c w) : c.undeleted w≤c.limit := by
  obtain ⟨st,hf⟩ := h.current.exists_fits
  exact hf.undeleted_le h.pods

theorem inv_of_orderly (h : Reachable (· = c.start) (Restricted c.step c.Orderly) w) : Inv c w := by
  have hsta : ∀ s,s=c.start → Inv c s := fun s hs => hs ▸ inv_start c
  exact h.invariant hsta fun _ _ _ hi hstep => inv_next hi hstep.1 hstep.2

/-- No state of an orderly run has more undeleted pods in the subset than its limit. -/
theorem orderly_run_keeps_maxReplicas (c : Config) (w : World)
    (h : Reachable (· = c.start) (Restricted c.step c.Orderly) w) : c.undeleted w≤c.limit :=
  (inv_of_orderly h).undeleted_le

/-- The status stored in an orderly run leaves no more replicas than are free, records every pod that
is still to appear, and has a deletion record of no pod that stays. -/
theorem orderly_status_fits (c : Config) (w : World)
    (h : Reachable (· = c.start) (Restricted c.step c.Orderly) w) (st : SubsetStatus)
    (hst : st∈w.store.current.obj) (hname : st.name=c.target) :
    (0 ≤ st.missingReplicas ∧ st.missingReplicas +
        (c.holders st.deletingPods w.pods+w.pending.countP c.inTarget)≤c.limit) ∧
      (∀ p∈w.pending,c.inTarget p → p.key∈st.creatingPods) ∧
      ∀ p∈w.pods,c.inTarget p → p.name∈st.deletingPods → p.deletionAdmitted := by
  have hf:=(inv_of_orderly h).current.fits st hst hname
  exact ⟨⟨hf.nonneg,hf.room⟩,hf.creating,hf.deleting⟩

def webP : Pod := ⟨0, "web-p", "",some "zone-a",true,some "zone-a",false⟩

/- `zone-a` takes one pod and has it; `zone-b` takes any number. -/
def oneSlot : Config :=
  { spec := [⟨"zone-a",some (.int 1)⟩,⟨"zone-b",none⟩]
    distinct := by decide
    valid := by
      intro s hs v hv
      rcases List.mem_cons.mp hs with rfl | hs
      · cases hv
        exact ⟨1,rfl,by decide⟩
      · rw [List.mem_singleton.mp hs] at hv
        cases hv
    target := "zone-a"
    limit := 1
    targetSpec := List.mem_cons_self
    pods := [webP]
    apart := List.pairwise_singleton _ _
    running := by
      intro p hp
      rw [List.mem_singleton.mp hp]
      decide
    fits := by decide
    workloadReplicas := 1
    replicasNonneg := by decide
    syncTime := 0}

def webQ : Pod := {webP with serial := 1,name := "web-q"}

def gone : Pod := {webP with deletionAdmitted := true}

/- `web-q` takes the place of `web-p`. -/
def replaceRun : List Label :=
  [.deleteStart 0 0 0,.read 0 none none "u0" 1 1,.write 0,
    .createStart 1 "web-q" 0,.read 1 none none "u1" 1 2,.write 1,.appear 1 "web-q"]

/- A reconcile lists `web-q` before `web-p`, which it replaces: it uses up the limit, and `web-p`
with its deletion record gives a replica back. So `web-r` is admitted next to `web-q`. -/
def oneSlotRun : List Label :=
  replaceRun++[.reconcileStart [webQ,gone] (fun _ => none) 0 1 (fun _ => false) 3,.reconcileWrite,
    .createStart 2 "web-r" 0,.read 2 none none "u2" 1 4,.write 2]

theorem oneSlot_overfilled : ∃ w,oneSlot.Reaches w ∧ oneSlot.limit<oneSlot.undeleted w := by
  have hr : (runLabels oneSlot.next oneSlotRun oneSlot.start).map oneSlot.undeleted=some 2 := by
    decide
  obtain ⟨w,hw,hcnt⟩ := map_eq_some_iff.mp hr
  refine ⟨w,reachable_of_runLabels (fun _ _ _ hs => hs) oneSlotRun (.start rfl) hw,?_⟩
  rw [hcnt]
  decide

/- A check that is enough for the conditions on one step. -/
def Config.isOrderly (c : Config) (w : World) : Label → Bool
  | .read id cached informer _ replicas _ => (w.flights id).all fun f =>
    match f.req,f.phase with
    | .create podName,.reading _ refresh =>
      (isPodRecordedInSubset (statusesFor c.spec replicas
        (w.store.clone f.ws refresh cached informer).obj) podName).all fun s =>
          s.name≠c.target||w.isPending podName
    | _,_ => true
  | .write id => (w.flights id).all fun f =>
    match f.req with
    | .delete serial podName _ => w.pods.any fun p => p.serial=serial&&p.name=podName&&p.active&&c.inTarget p
    | _ => true
  | .appear serial _ => w.pending.all fun p => p.serial≠serial||p.name ≠ ""
  | .reconcileStart listed adopt ws _ _ _ => (w.store.at ws).all fun base =>
    creditsInTime (c.oldStatus base.obj).deletingPods c.limit
      ((listed.map (adoptPod adopt)).filter fun p => p.subset=some c.target)
  | _ => true

theorem orderly_of_isOrderly {l : Label} (h : c.isOrderly w l) : c.Orderly w l := by
  cases l with
  | read id cached informer uid replicas now =>
    intro f podName tries refresh s hf hreq hph _ hrec hname
    simp only [Config.isOrderly,hf,all_some,hreq,hph,hrec,hname,ne_eq,not_true,decide_false,Bool.false_or] at h
    exact h
  | write id =>
    intro f serial podName hf hreq
    simp only [Config.isOrderly,hf,all_some,hreq,List.any_eq_true,Bool.and_eq_true,decide_eq_true_eq] at h
    obtain ⟨p,hp,⟨⟨hser,hname⟩,hact⟩,hin⟩ := h
    exact ⟨p,hp,hser,hname,hact,hin⟩
  | appear serial name =>
    intro p hp hser _ hname
    have hne:=List.all_eq_true.mp h p hp
    simp [hser,hname] at hne
  | reconcileStart listed adopt ws replicas unschedulable now =>
    intro base hbase
    simp only [Config.isOrderly,hbase,all_some] at h
    exact .inr h
  | _ => trivial

theorem reachable_of_isOrderly (ls : List Label)
    (h : runLabels (restrict c.next fun w l => c.isOrderly w l) ls c.start=some w) :
    Reachable (· = c.start) (Restricted c.step c.Orderly) w := by
  refine reachable_of_runLabels ?_ ls (.start rfl) h
  intro t l t' ht
  obtain ⟨ho,hn⟩ := ite_none_right_eq_some.mp ht
  exact ⟨hn,orderly_of_isOrderly ho⟩

/- `web-r` goes into the other subset. -/
def orderlyRun : List Label :=
  replaceRun++[.reconcileStart [gone,webQ] (fun _ => none) 0 1 (fun _ => false) 3,
    .reconcileWrite,.terminate 0,.disappear 0,
    .createStart 2 "web-r" 0,.read 2 none none "u2" 1 4]

theorem oneSlot_keeps_maxReplicas :
    ∃ w,Reachable (· = oneSlot.start) (Restricted oneSlot.step oneSlot.Orderly) w ∧
      w.pods.map Pod.name=["web-q"] ∧ w.pending.map Pod.inSubset=[some "zone-b"] ∧
      oneSlot.undeleted w≤oneSlot.limit := by
  have hrun : (runLabels (restrict oneSlot.next fun w l => oneSlot.isOrderly w l) orderlyRun oneSlot.start).map
      (fun w => (w.pods.map Pod.name,w.pending.map Pod.inSubset))=some (["web-q"],[some "zone-b"]) := by
    decide
  obtain ⟨w,hw,hf⟩ := map_eq_some_iff.mp hrun
  obtain ⟨hpods,hpending⟩ := Prod.mk.inj hf
  have hr:=reachable_of_isOrderly orderlyRun hw
  exact ⟨w,hr,hpods,hpending,orderly_run_keeps_maxReplicas oneSlot w hr⟩

/-- `web-p` has its deletion record and `web-q` is still to appear. -/
theorem oneSlot_status_fits :
    ∃ w st,Reachable (· = oneSlot.start) (Restricted oneSlot.step oneSlot.Orderly) w ∧
      st∈w.store.current.obj ∧ "web-p"∈st.deletingPods ∧ w.pending.map Pod.name=["web-q"] ∧
      (0 ≤ st.missingReplicas ∧ st.missingReplicas +
        (oneSlot.holders st.deletingPods w.pods+w.pending.countP oneSlot.inTarget)≤oneSlot.limit) ∧
      (∀ p∈w.pending,oneSlot.inTarget p → p.key∈st.creatingPods) ∧
      ∀ p∈w.pods,oneSlot.inTarget p → p.name∈st.deletingPods → p.deletionAdmitted := by
  have hrun : (runLabels (restrict oneSlot.next fun w l => oneSlot.isOrderly w l) (orderlyRun.take 6)
      oneSlot.start).any fun w => w.pending.map Pod.name=["web-q"]&&w.store.current.obj.any fun st =>
        st.name=oneSlot.target&&decide ("web-p"∈st.deletingPods) := by
    decide
  simp only [any_eq_true,Bool.and_eq_true,List.any_eq_true,decide_eq_true_eq] at hrun
  obtain ⟨w,hw,hpending,st,hst,hname,hdel⟩ := hrun
  have hr:=reachable_of_isOrderly _ hw
  exact ⟨w,st,hr,hst,hdel,hpending,orderly_status_fits oneSlot w hr st hst hname⟩

end Kruise.WorkloadSpread
