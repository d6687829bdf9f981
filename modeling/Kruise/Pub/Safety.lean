import Kruise.Lib.Keyed
import Kruise.Pub.Protocol

/-!
# The budget is never exceeded

The budget left and the initially available pods with an admitted operation together stay within
the limit: such a pod either has a record in the stored status, which every recount leaves out, or
was seen terminating by the last sync. Records reach the store only with an admission, so a
request that passes on any copy of the PUB is for a pod that was paid for.
-/

namespace Kruise.Pub

open Util Lib.Versioned Lib.Transition Lib.Counting List Function

def SeenInactive (log : List PodState) (seen : Nat) : Prop :=
  ∃ s,log[seen]?=some s ∧ s.active=false

/- A version of the PUB records an initially available pod only once it is admitted. -/
structure VersionOk (c : Cluster) (admitted : String → Bool) (v : PodUnavailableBudget) : Prop where
  desired : v.status.desiredAvailable=c.desired
  protects : ∀ op,isNeedPubProtection v op
  recorded : ∀ n∈c.names,c.initiallyAvailable n →
    isPodRecordedInPub n v.status → admitted n

structure FlightOk (c : Cluster) (store : Store PodUnavailableBudget) (f : Flight) : Prop where
  name : f.req.name∈c.names
  pub : store.Copy f.pub
  writing : ∀ tries base status,f.phase=.writing tries base status →
    store.Copy base ∧ ∃ now,attempt base.obj f.req now=.write status

structure SyncOk (c : Cluster) (store : Store PodUnavailableBudget)
    (history : String → List PodState) (lastSeen : String → Nat) (s : Sync) : Prop where
  pub : store.Copy s.pub
  desired : s.desired=c.desired
  distinct : (s.pods.map ObservedPod.name).Nodup
  pods : ∀ p∈s.pods,p.name∈c.names ∧ (history p.name)[lastSeen p.name]?=some p.state
  missing : ∀ n∈c.names,(∀ p∈s.pods,p.name≠n) → SeenInactive (history n) (lastSeen n)
  writing : ∀ tries base status,s.phase=.writing tries base status →
    store.Copy base ∧ unexpired base.obj.status s.now ∧
      status=recount base.obj.generation base.obj.status s.pods s.desired s.expected s.now

structure PodOk (c : Cluster) (n : String) (log : List PodState) (seen : Nat)
    (admitted recorded : Bool) : Prop where
  untouched : admitted=false → log=[c.initial n]
  inLog : seen<log.length
  closing : log.Pairwise fun old new => new.active=true → old.active=true
  covered : c.initiallyAvailable n → admitted →
    recorded ∨ SeenInactive log seen

structure Inv (c : Cluster) (w : World) : Prop where
  versions : ∀ v,w.store.Copy v → VersionOk c w.admitted v.obj
  flights : ∀ id f,w.flights id=some f → FlightOk c w.store f
  sync : ∀ s,w.sync=some s → SyncOk c w.store w.history w.lastSeen s
  pods : ∀ n∈c.names,PodOk c n (w.history n) (w.lastSeen n) (w.admitted n)
    (isPodRecordedInPub n w.store.current.obj.status)
  nonneg : 0≤w.store.current.obj.status.unavailableAllowed
  budget : w.store.current.obj.status.unavailableAllowed+c.admittedAvailable w≤c.limit w

theorem allowed_recount (generation desired expected now : Int) (status : Status) (pods : List ObservedPod) :
    (recount generation status pods desired expected now).unavailableAllowed =
      max 0 ((recount generation status pods desired expected now).currentAvailable-desired) := by
  unfold recount
  dsimp only
  split_ifs <;> omega

theorem admittedAvailable_start (c : Cluster) : c.admittedAvailable c.start=0 := by
  simp [Cluster.admittedAvailable,Cluster.start]

theorem currentAvailable_firstPub (c : Cluster) : c.firstPub.status.currentAvailable≤c.availableAtStart := by
  refine currentAvailable_recount_le c.names c.initiallyAvailable (by rfl) ?_ ?_
  · have hnms : c.firstPods.map ObservedPod.name=c.names := by
      simp [Cluster.firstPods,comp_def]
    rw [hnms]
    exact c.distinct
  · intro p hp hav _
    obtain ⟨n,hn,rfl⟩ := mem_map.mp hp
    exact ⟨hn,hav⟩

theorem inv_start (c : Cluster) : Inv c c.start := by
  have hcur : c.start.store.current=⟨1,c.firstPub⟩ := rfl
  have ha:=allowed_recount c.pub.generation c.desired c.expected c.syncTime noRecords c.firstPods
  refine ⟨?_,?_,?_,?_,?_,?_⟩
  · intro v hv
    rw [(Store.copy_start_iff _ _).mp hv]
    refine ⟨rfl,c.allOperations,?_⟩
    intro n _ _ hr
    have hn:=recorded_of_recorded_recount hr
    cases hn
  · rintro id f ⟨⟩
  · rintro s ⟨⟩
  · intro n _
    refine ⟨fun _ => rfl,Nat.zero_lt_one,pairwise_singleton _ _,?_⟩
    rintro _ ⟨⟩
  · exact ha ▸ le_max_left _ _
  · have hav:=currentAvailable_firstPub c
    rw [admittedAvailable_start,hcur]
    unfold Cluster.limit
    have hf : c.firstPub.status.unavailableAllowed = max 0 (c.firstPub.status.currentAvailable-c.desired) := ha
    dsimp only
    omega

variable {history : String → List PodState}

theorem mem_update_append {name n : String} {state s : PodState} (h : s∈history n) :
    s∈Function.update history name (history name++[state]) n := by
  by_cases hn : n=name
  · subst hn
    simp [h]
  · simp [hn,h]

theorem madeAvailable_podChanges (c : Cluster) (w : World) (name : String) (state : PodState) :
    c.madeAvailable w≤c.madeAvailable (w.podChanges name state) := by
  refine countP_mono_left ?_
  intro n _ hn
  simp only [Bool.and_eq_true,any_eq_true] at hn ⊢
  obtain ⟨hi,s,hs,hav⟩ := hn
  exact ⟨hi,s,mem_update_append hs,hav⟩

variable {c : Cluster} {w : World}

theorem getElem?_podChanges {n : String} (name : String) (state : PodState)
    (h : w.lastSeen n<(w.history n).length) :
    ((w.podChanges name state).history n)[w.lastSeen n]?=(w.history n)[w.lastSeen n]? := by
  by_cases hn : n=name
  · subst hn
    simp [World.podChanges,getElem?_append_left h]
  · simp [World.podChanges,hn]

theorem PodOk.podChanges {name n : String} {state : PodState} {recorded : Bool} (hm : w.mayBecome name state)
    (h : PodOk c n (w.history n) (w.lastSeen n) (w.admitted n) recorded) :
    PodOk c n ((w.podChanges name state).history n) (w.lastSeen n) (w.admitted n) recorded := by
  have hseen:=getElem?_podChanges name state h.inLog
  unfold World.mayBecome at hm
  simp only [Bool.and_eq_true,all_eq_true,Bool.or_eq_true,Bool.not_eq_true'] at hm
  obtain ⟨⟨hadm,_⟩,hclos⟩ := hm
  refine ⟨?_,?_,?_,?_⟩
  · intro hnot
    have hn : n≠name := by
      rintro rfl
      rw [hadm] at hnot
      cases hnot
    simpa [World.podChanges,hn] using h.untouched hnot
  · by_cases hn : n=name
    · subst hn
      have hlt:=h.inLog
      simp only [World.podChanges,update_self,length_append]
      omega
    · simpa [World.podChanges,hn] using h.inLog
  · by_cases hn : n=name
    · subst hn
      simp only [World.podChanges,update_self]
      refine pairwise_append.mpr ⟨h.closing,pairwise_singleton _ _,?_⟩
      intro old ho new hnew hacti
      rw [mem_singleton.mp hnew] at hacti
      rcases hclos old ho with hact | hi
      · exact hact
      · rw [hacti] at hi
        cases hi
    · simpa [World.podChanges,hn] using h.closing
  · intro hinit ha
    rcases h.covered hinit ha with hr | ⟨s,hs,hina⟩
    · exact .inl hr
    · exact .inr ⟨s,hseen.trans hs,hina⟩

theorem Inv.podChanges (h : Inv c w) {name : String} {state : PodState}
    (hmay : w.mayBecome name state) : Inv c (w.podChanges name state) := by
  refine ⟨h.versions,h.flights,?_,fun n hn => (h.pods n hn).podChanges hmay,h.nonneg,?_⟩
  · intro s hs
    have hsync:=h.sync s hs
    refine ⟨hsync.pub,hsync.desired,hsync.distinct,?_,?_,hsync.writing⟩
    · intro p hp
      obtain ⟨hname,hst⟩ := hsync.pods p hp
      exact ⟨hname,(getElem?_podChanges name state (h.pods p.name hname).inLog).trans hst⟩
    · intro n hn hm
      obtain ⟨s,hs,hi⟩ := hsync.missing n hn hm
      exact ⟨s,(getElem?_podChanges name state (h.pods n hn).inLog).trans hs,hi⟩
  · have hmade:=madeAvailable_podChanges c w name state
    have hbud:=h.budget
    unfold Cluster.limit at hbud ⊢
    change w.store.current.obj.status.unavailableAllowed+(c.admittedAvailable w : Int)≤_
    omega

theorem Inv.setFlight (h : Inv c w) (id : Nat) (f : Option Flight)
    (hf : ∀ g,f=some g → FlightOk c w.store g) : Inv c (w.setFlight id f) :=
  ⟨h.versions,Lib.Keyed.forall_update h.flights hf,h.sync,h.pods,h.nonneg,h.budget⟩

variable {req : Request}

theorem VersionOk.grant {admitted : String → Bool} {v : PodUnavailableBudget} (h : VersionOk c admitted v)
    (name : String) : VersionOk c (update admitted name true) v := by
  refine ⟨h.desired,h.protects,fun n hn hi hr => ?_⟩
  by_cases hname : n=name
  · rw [hname,update_self]
  · rw [update_of_ne hname]
    exact h.recorded n hn hi hr

/- The pod was paid for before, or has its record now. -/
theorem PodOk.grant {n name : String} {log : List PodState} {seen : Nat} {admitted : String → Bool}
    {recorded recorded' : Bool} (h : PodOk c n log seen (admitted n) recorded) (hr : recorded → recorded')
    (hpaid : n=name → c.initiallyAvailable n → admitted n ∨ recorded') :
    PodOk c n log seen (update admitted name true n) recorded' := by
  have hcov : c.initiallyAvailable n → admitted n → recorded' ∨ SeenInactive log seen :=
    fun hi ha => (h.covered hi ha).imp_left hr
  by_cases hname : n=name
  · rw [hname,update_self]
    exact ⟨nofun,h.inLog,h.closing,fun hi _ => (hpaid hname (hname ▸ hi)).elim (hcov (hname ▸ hi)) .inl⟩
  · rw [update_of_ne hname]
    exact ⟨h.untouched,h.inLog,h.closing,hcov⟩

theorem Inv.grant (h : Inv c w) (hpaid : req.dryRun=false → c.initiallyAvailable req.name →
      w.admitted req.name) :
    Inv c (w.grant req) := by
  unfold World.grant
  split_ifs with hdry
  · exact h
  have hpaid:=hpaid (Bool.eq_false_iff.mpr hdry)
  refine ⟨fun v hv => (h.versions v hv).grant _,h.flights,h.sync,?_,h.nonneg,?_⟩
  · exact fun n hn => (h.pods n hn).grant id fun hname hi => .inl (hname ▸ hpaid (hname ▸ hi))
  · have hcnt :
        c.admittedAvailable {w with admitted := update w.admitted req.name true} =
          c.admittedAvailable w := by
      refine countP_congr fun n _ => ?_
      by_cases hname : n=req.name
      · cases hi : c.initiallyAvailable n with
        | false => simp
        | true => simp [hname,hpaid (hname ▸ hi)]
      · simp [hname]
    rw [hcnt]
    exact h.budget

theorem unprotected_of_available {s : PodState} (h : available s)
    (hprot : s.noProtect=false) : unprotected s=false := by
  unfold available at h
  simp only [Bool.and_eq_true] at h
  simp [unprotected,hprot,h.2.1,h.2.2]

variable {pub : Stored PodUnavailableBudget}

theorem Inv.paid_of_passes (h : Inv c w) (hname : req.name∈c.names)
    (hpod : req.pod∈w.history req.name) (hpub : w.store.Copy pub)
    (hpass : (unprotected req.pod||passesOn pub.obj req))
    (hi : c.initiallyAvailable req.name) : w.admitted req.name := by
  by_contra hn
  have hh:=(h.pods req.name hname).untouched (Bool.eq_false_iff.mpr hn)
  rw [hh,mem_singleton] at hpod
  have hun : unprotected req.pod=false := by
    rw [hpod]
    exact unprotected_of_available hi (c.protects req.name hname)
  obtain ⟨hd,hprot,hr⟩ := h.versions pub hpub
  have hpos:=c.desiredPos
  have hne : pub.obj.status.desiredAvailable≠0 := by omega
  rw [hun,Bool.false_or] at hpass
  unfold passesOn at hpass
  simp only [hne,decide_false,hprot,Bool.not_true,Bool.false_or] at hpass
  exact hn (hr req.name hname hi hpass)

theorem Inv.receive (h : Inv c w) {id : Nat} (hn : req.name∈c.names)
    (hpod : req.pod∈w.history req.name) (hpub : w.store.Copy pub) : Inv c (w.receive id req pub) := by
  unfold World.receive
  split_ifs with hpass
  · exact h.grant fun _ hi => h.paid_of_passes hn hpod hpub hpass hi
  · refine h.setFlight id _ ?_
    rintro g ⟨⟩
    refine ⟨hn,hpub,?_⟩
    rintro tries base status ⟨⟩

variable {clone : Stored PodUnavailableBudget}

theorem Inv.read (h : Inv c w) {id : Nat} {f : Flight} (hf : FlightOk c w.store f)
    (hcln : w.store.Copy clone) (tries : Nat) (now : Int) : Inv c (w.read id f tries clone now) := by
  unfold World.read
  have hd : Inv c (w.setFlight id none) := h.setFlight id none (by simp)
  cases ha : attempt clone.obj f.req now with
  | denied => exact hd
  | admitted =>
    refine hd.grant ?_
    intro hdry
    rw [attempt_admitted ha] at hdry
    cases hdry
  | write status =>
    refine h.setFlight id _ ?_
    rintro g ⟨⟩
    refine ⟨hf.name,hf.pub,?_⟩
    rintro tries' base status' ⟨⟩
    exact ⟨hcln,now,ha⟩

variable {store : Store PodUnavailableBudget}

theorem FlightOk.put {f : Flight} (h : FlightOk c store f) (a : PodUnavailableBudget) :
    FlightOk c (store.put a) f := by
  refine ⟨h.name,h.pub.put a,?_⟩
  intro tries base status hph
  obtain ⟨hbase,ha⟩ := h.writing tries base status hph
  exact ⟨hbase.put a,ha⟩

variable {s : Sync}

theorem SyncOk.put {lastSeen : String → Nat} (h : SyncOk c store history lastSeen s) (a : PodUnavailableBudget) :
    SyncOk c (store.put a) history lastSeen s := by
  refine ⟨h.pub.put a,h.desired,h.distinct,h.pods,h.missing,?_⟩
  intro tries base status hph
  obtain ⟨hbase,hr⟩ := h.writing tries base status hph
  exact ⟨hbase.put a,hr⟩

def World.charge (w : World) (name : String) (status : Status) : World :=
  {w with
    store := w.store.put {w.store.current.obj with status := status}
    admitted := update w.admitted name true}

theorem admittedAvailable_charge (c : Cluster) (w : World) (name : String) (status : Status) :
    c.admittedAvailable (w.charge name status)≤c.admittedAvailable w+1 := by
  refine countP_le_succ_of_nodup name _ _ c.names c.distinct ?_
  intro n _ hne hn
  simpa [World.charge,hne] using hn

variable {status : Status}

theorem Inv.charge (h : Inv c w) {name : String} {op : Operation} {now : Int}
    (hchk : checkAndDecrement name w.store.current.obj.status op now=some status) :
    Inv c (w.charge name status) := by
  obtain ⟨hpos,hdec,_⟩ := checkAndDecrement_some hchk
  obtain ⟨hdes,hr⟩ := checkAndDecrement_records hchk
  refine ⟨?_,fun id f hf => (h.flights id f hf).put _,fun s hs => (h.sync s hs).put _,?_,?_,?_⟩
  · intro v hv
    rcases (Store.copy_put_iff _ _ _).mp hv with rfl | ho
    · obtain ⟨hd,hprot,hreco⟩ := (h.versions _ w.store.copy_current).grant name
      refine ⟨hdes.trans hd,hprot,?_⟩
      intro n hn hi hrec
      rcases (hr n).mp hrec with rfl | hrec
      · exact update_self _ _ _
      · exact hreco n hn hi hrec
    · exact (h.versions v ho).grant name
  · intro n hn
    exact (h.pods n hn).grant (fun hrec => (hr n).mpr (.inr hrec)) fun hname _ => .inr ((hr n).mpr (.inl hname))
  · change 0 ≤ status.unavailableAllowed
    omega
  · have hcnt:=admittedAvailable_charge c w name status
    have hbud:=h.budget
    change status.unavailableAllowed+(c.admittedAvailable (w.charge name status) : Int)≤c.limit w
    omega

variable {base : Stored PodUnavailableBudget}

theorem Inv.write (h : Inv c w) {id : Nat} {f : Flight} {tries : Nat} (hf : w.flights id=some f)
    (hph : f.phase=.writing tries base status) : Inv c (w.write id f tries base status) := by
  have hok:=h.flights id f hf
  obtain ⟨hbase,now,ha⟩ := hok.writing tries base status hph
  obtain ⟨hd,hchk⟩ := attempt_write ha
  unfold World.write
  cases hput : w.store.update base {base.obj with status := status} with
  | none =>
    refine h.setFlight id _ ?_
    rintro g ⟨⟩
    refine ⟨hok.name,hok.pub,?_⟩
    rintro tries' base' status' ⟨⟩
  | some store =>
    obtain ⟨rfl,rfl⟩ := w.store.update_eq_some _ _ _ hbase hput
    have hcharged:=(h.charge hchk).setFlight id none (by simp)
    have hgrant : Inv c ((({w with
        store := w.store.put {w.store.current.obj with status := status}} : World).setFlight id
        none).grant f.req) := by
      unfold World.grant
      rw [if_neg (by rw [hd]; exact Bool.false_ne_true)]
      exact hcharged
    exact hgrant

theorem seenInactive_mono {log : List PodState} {i j : Nat}
    (hclos : log.Pairwise fun old new => new.active=true → old.active=true)
    (hij : i≤j) (hj : j<log.length) (h : SeenInactive log i) : SeenInactive log j := by
  obtain ⟨s,hs,hina⟩ := h
  rcases Nat.eq_or_lt_of_le hij with rfl | hlt
  · exact ⟨s,hs,hina⟩
  refine ⟨log[j],getElem?_eq_getElem hj,?_⟩
  have hi : i<log.length := by omega
  have ho : log[i]=s := by
    rw [getElem?_eq_getElem hi] at hs
    exact Option.some.inj hs
  have hpair:=pairwise_iff_getElem.mp hclos i j hi hj hlt
  rw [ho,hina] at hpair
  simpa using hpair

theorem mem_observe {listed : List String} {seen : String → Nat} {p : ObservedPod} :
    p∈w.observe listed seen ↔ p.name∈listed ∧ (w.history p.name)[seen p.name]?=some p.state := by
  unfold World.observe
  simp only [mem_filterMap,Option.map_eq_some_iff]
  refine ⟨?_,?_⟩
  · rintro ⟨n,hn,s,hs,rfl⟩
    exact ⟨hn,hs⟩
  · rintro ⟨hn,hs⟩
    exact ⟨p.name,hn,p.state,hs,rfl⟩

theorem names_observe_sublist (w : World) (listed : List String) (seen : String → Nat) :
    ((w.observe listed seen).map ObservedPod.name).Sublist listed := by
  induction listed with
  | nil => exact List.Sublist.slnil
  | cons n listed ih =>
    unfold World.observe at ih ⊢
    rw [filterMap_cons]
    cases hn : (w.history n)[seen n]? with
    | none => exact ih.cons n
    | some s => exact ih.cons_cons n

theorem Inv.syncStart (h : Inv c w) {listed : List String} {seen : String → Nat}
    (expected now : Int) (hpub : w.store.Copy pub) (hsee : w.maySee c.names listed seen) :
    Inv c (w.syncStart listed seen pub c.desired expected now) := by
  obtain ⟨hnd,hl,ha⟩ := hsee
  refine ⟨h.versions,h.flights,?_,?_,h.nonneg,h.budget⟩
  · rintro s ⟨⟩
    refine ⟨hpub,rfl,hnd.sublist (names_observe_sublist w listed seen),?_,?_,?_⟩
    · intro p hp
      obtain ⟨hname,hst⟩ := mem_observe.mp hp
      exact ⟨hl p.name hname,hst⟩
    · intro n hn hm
      obtain ⟨_,hlt,hor⟩ := ha n hn
      have hst : (w.history n)[seen n]?=some (w.history n)[seen n] :=
        getElem?_eq_getElem hlt
      refine ⟨_,hst,?_⟩
      rcases hor with hin | hi
      · exact absurd rfl (hm ⟨n,_⟩ (mem_observe.mpr ⟨hin,hst⟩))
      · exact hi _ hst
    · rintro tries base status ⟨⟩
  · intro n hn
    obtain ⟨hu,hlog,hclos,hcov⟩ := h.pods n hn
    obtain ⟨hle,hlt,_⟩ := ha n hn
    refine ⟨hu,hlt,hclos,?_⟩
    intro hinit hadm
    rcases hcov hinit hadm with hr | hi
    · exact .inl hr
    · exact .inr (seenInactive_mono hclos hle hlt hi)

theorem Inv.setSync (h : Inv c w) (s : Option Sync)
    (hs : ∀ t,s=some t → SyncOk c w.store w.history w.lastSeen t) : Inv c {w with sync := s} :=
  ⟨h.versions,h.flights,hs,h.pods,h.nonneg,h.budget⟩

theorem Inv.syncRead (h : Inv c w) (tries : Nat) (hs : w.sync=some s)
    (hcln : w.store.Copy clone) (hf : unexpired clone.obj.status s.now) : Inv c (w.syncRead s tries clone) := by
  unfold World.syncRead
  dsimp only
  split_ifs
  · exact h.setSync none (by simp)
  · refine h.setSync _ ?_
    rintro t ⟨⟩
    have hok:=h.sync s hs
    refine {hok with writing := ?_}
    rintro tries' base status ⟨⟩
    exact ⟨hcln,hf,rfl⟩

theorem countP_onBudget (c : Cluster) (w : World) :
    c.names.countP (fun n => if c.initiallyAvailable n then !w.admitted n
        else (w.history n).any available)+c.admittedAvailable w =
      c.availableAtStart+c.madeAvailable w := by
  have hspl:=countP_split c.initiallyAvailable (fun n => if c.initiallyAvailable n then
    !w.admitted n else (w.history n).any available) c.names
  have hsta:=countP_split w.admitted c.initiallyAvailable c.names
  have hl : c.names.countP (fun n => c.initiallyAvailable n &&
      if c.initiallyAvailable n then !w.admitted n else (w.history n).any available) =
      c.names.countP fun n => !w.admitted n&&c.initiallyAvailable n := by
    refine countP_congr ?_
    intro n _
    cases c.initiallyAvailable n <;> simp
  have hm : c.names.countP (fun n => !c.initiallyAvailable n &&
      if c.initiallyAvailable n then !w.admitted n else (w.history n).any available) =
      c.madeAvailable w := by
    refine countP_congr ?_
    intro n _
    cases c.initiallyAvailable n <;> simp
  unfold Cluster.availableAtStart Cluster.admittedAvailable
  omega

theorem Inv.allowed_recount_le (h : Inv c w) (hs : w.sync=some s) (generation : Int)
    (hf : unexpired w.store.current.obj.status s.now) :
    (recount generation w.store.current.obj.status s.pods s.desired s.expected
      s.now).unavailableAllowed+c.admittedAvailable w≤c.limit w := by
  have hok:=h.sync s hs
  have hcnt : (recount generation w.store.current.obj.status s.pods s.desired s.expected
      s.now).currentAvailable≤c.names.countP (fun n => if c.initiallyAvailable n then
        !w.admitted n else (w.history n).any available) := by
    refine currentAvailable_recount_le c.names _ hf hok.distinct ?_
    intro p hp hav hn
    obtain ⟨hname,hst⟩ := hok.pods p hp
    refine ⟨hname,?_⟩
    split_ifs with hi
    · -- an admitted pod without a record was last seen inactive, and this is that state
      by_contra ha
      rw [Bool.not_eq_true,Bool.not_eq_false'] at ha
      rcases (h.pods p.name hname).covered hi ha with hr | ⟨t,ht,hina⟩
      · rw [hr] at hn
        cases hn
      · rw [hst] at ht
        cases ht
        unfold available at hav
        rw [hina] at hav
        cases hav
    · exact any_eq_true.mpr ⟨p.state,mem_of_getElem? hst,hav⟩
  have hsum:=countP_onBudget c w
  have halw:=allowed_recount generation s.desired s.expected s.now w.store.current.obj.status s.pods
  have hnonneg:=h.nonneg
  have hbud:=h.budget
  have hd:=hok.desired
  unfold Cluster.limit at hbud ⊢
  omega

theorem Inv.syncWrite (h : Inv c w) {tries : Nat} (hs : w.sync=some s)
    (hph : s.phase=.writing tries base status) : Inv c (w.syncWrite s tries base status) := by
  have hok:=h.sync s hs
  obtain ⟨hbase,hfresh,hsts⟩ := hok.writing tries base status hph
  unfold World.syncWrite
  cases hput : w.store.update base {base.obj with status := status} with
  | none =>
    refine h.setSync _ ?_
    rintro t ⟨⟩
    exact {hok with writing := by simp}
  | some store =>
    obtain ⟨rfl,rfl⟩ := w.store.update_eq_some _ _ _ hbase hput
    refine ⟨?_,fun id f hf => (h.flights id f hf).put _,by simp,?_,?_,?_⟩
    · intro v hv
      rcases (Store.copy_put_iff _ _ _).mp hv with rfl | ho
      · obtain ⟨_,hprot,hreco⟩ := h.versions _ w.store.copy_current
        refine ⟨?_,hprot,?_⟩
        · rw [hsts]
          exact hok.desired
        · intro n hn hi hr
          rw [hsts] at hr
          exact hreco n hn hi (recorded_of_recorded_recount hr)
      · exact h.versions v ho
    · intro n hn
      obtain ⟨hu,hlog,hclos,hcov⟩ := h.pods n hn
      refine ⟨hu,hlog,hclos,?_⟩
      intro hi hadm
      rcases hcov hi hadm with hr | hina
      · -- the record is dropped only with a pod that this sync did not see active
        by_cases hl : ∃ p∈s.pods,p.name=n
        · obtain ⟨p,hp,rfl⟩ := hl
          cases ha : p.state.active with
          | true =>
            left
            rw [hsts]
            exact recorded_recount _ _ _ hfresh hr ⟨p,hp,rfl,ha⟩
          | false => exact .inr ⟨p.state,(hok.pods p hp).2,ha⟩
        · refine .inr (hok.missing n hn ?_)
          intro p hp hname
          exact hl ⟨p,hp,hname⟩
      · exact .inr hina
    · change 0 ≤ status.unavailableAllowed
      rw [hsts,allowed_recount]
      exact le_max_left _ _
    · have hle:=h.allowed_recount_le hs w.store.current.obj.generation hfresh
      rw [← hsts] at hle
      exact hle

theorem inv_next {w' : World} {l : Label} (h : Inv c w) (hstep : c.step w l w') : Inv c w' := by
  unfold Cluster.step at hstep
  cases l with
  | podChanges name state =>
    simp only [Cluster.next,Option.ite_none_right_eq_some,Option.some.injEq] at hstep
    obtain ⟨⟨_,hm⟩,rfl⟩ := hstep
    exact h.podChanges hm
  | receive id name seen op dryRun pub =>
    simp only [Cluster.next,Option.ite_none_right_eq_some,Option.bind_eq_some_iff, Option.map_eq_some_iff] at hstep
    obtain ⟨⟨hn,_⟩,pod,hpod,copy,hcopy,rfl⟩ := hstep
    exact h.receive hn (mem_of_getElem? hpod) (Store.copy_at hcopy)
  | read id cached informer now =>
    obtain ⟨f,hf,hr⟩ := Option.bind_eq_some_iff.mp hstep
    split at hr
    · cases hr
      have hok:=h.flights id f hf
      exact h.read hok (Store.copy_clone hok.pub _ cached informer) _ now
    · cases hr
  | write id =>
    obtain ⟨f,hf,hr⟩ := Option.bind_eq_some_iff.mp hstep
    split at hr
    · rename_i hph
      cases hr
      exact h.write hf hph
    · cases hr
  | abandon id =>
    cases hstep
    exact h.setFlight id none (by simp)
  | syncStart listed seen pub expected now =>
    simp only [Cluster.next,Option.ite_none_right_eq_some,Option.bind_eq_some_iff, Option.some.injEq] at hstep
    obtain ⟨⟨_,hsee⟩,copy,hcopy,_,rfl⟩ := hstep
    exact h.syncStart expected now (Store.copy_at hcopy) hsee
  | syncRead cached informer =>
    obtain ⟨s,hs,hr⟩ := Option.bind_eq_some_iff.mp hstep
    split at hr
    · simp only [Option.ite_none_right_eq_some,Option.some.injEq] at hr
      obtain ⟨hfresh,rfl⟩ := hr
      exact h.syncRead _ hs (Store.copy_clone (h.sync s hs).pub _ cached informer) hfresh
    · cases hr
  | syncWrite =>
    obtain ⟨s,hs,hr⟩ := Option.bind_eq_some_iff.mp hstep
    split at hr
    · rename_i hph
      cases hr
      exact h.syncWrite hs hph
    · cases hr
  | syncAbandon =>
    cases hstep
    exact h.setSync none (by simp)

theorem inv_of_reaches (h : c.Reaches w) : Inv c w :=
  h.invariant (fun _ hs => hs ▸ inv_start c) fun _ _ _ hi hstep => inv_next hi hstep

theorem store_of_dryRunStep {w' : World} {l : Label} (h : Inv c w) (hstep : c.step w l w')
    (hd : w.dryRunStep l) : w'.store=w.store := by
  have hgrant : ∀ (v : World) req,(v.grant req).store=v.store := by
    intro v req
    unfold World.grant
    split_ifs <;> rfl
  unfold Cluster.step at hstep
  cases l with
  | receive id name seen op dryRun pub =>
    simp only [Cluster.next,Option.ite_none_right_eq_some,Option.bind_eq_some_iff, Option.map_eq_some_iff] at hstep
    obtain ⟨_,pod,_,copy,_,rfl⟩ := hstep
    unfold World.receive
    split_ifs
    · exact hgrant _ _
    · rfl
  | read id cached informer now =>
    obtain ⟨f,hf,hr⟩ := Option.bind_eq_some_iff.mp hstep
    split at hr
    · cases hr
      unfold World.read
      split
      · rfl
      · exact hgrant _ _
      · rfl
    · cases hr
  | write id =>
    -- a dry-run request never comes to its write
    obtain ⟨f,hf,hr⟩ := Option.bind_eq_some_iff.mp hstep
    obtain ⟨g,hg,hreq⟩ := hd
    rw [hf] at hg
    cases hg
    split at hr
    · rename_i hph
      obtain ⟨_,now,ha⟩ := (h.flights id f hf).writing _ _ _ hph
      rw [(attempt_write ha).1] at hreq
      cases hreq
    · cases hr
  | abandon id =>
    cases hstep
    rfl
  | podChanges name state => exact hd.elim
  | syncStart listed seen pub expected now => exact hd.elim
  | syncRead cached informer => exact hd.elim
  | syncWrite => exact hd.elim
  | syncAbandon => exact hd.elim

/-- In every reachable state the initially available pods with an admitted operation stay within the
budget of the first sync, raised by the pods that became available since; the stored budget is not
negative; and dry-run requests change nothing. -/
theorem pub_keeps_budget (c : Cluster) (w : World) (h : c.Reaches w) :
    (c.admittedAvailable w : Int) ≤ max 0 ((c.availableAtStart : Int)+c.madeAvailable w-c.desired) ∧
      0≤w.store.current.obj.status.unavailableAllowed ∧
      ∀ l w',c.step w l w' → w.dryRunStep l → w'.store=w.store := by
  have hi:=inv_of_reaches h
  have hn:=hi.nonneg
  have hbud:=hi.budget
  unfold Cluster.limit at hbud
  exact ⟨by omega,hn,fun l w' hstep hd => store_of_dryRunStep hi hstep hd⟩

/-- No admission is lost and none is made up: in every reachable state the status records each
initially available pod with an admitted operation, or the last sync has seen it inactive; and no
version of the PUB records such a pod before an operation on it was admitted. -/
theorem pub_records_admissions (c : Cluster) (w : World) (h : c.Reaches w) (n : String) (hn : n∈c.names)
    (hi : c.initiallyAvailable n) :
    (w.admitted n → isPodRecordedInPub n w.store.current.obj.status ∨ SeenInactive (w.history n) (w.lastSeen n)) ∧
      ∀ v,w.store.Copy v → isPodRecordedInPub n v.obj.status → w.admitted n := by
  have hinv:=inv_of_reaches h
  exact ⟨(hinv.pods n hn).covered hi,fun v hv => (hinv.versions v hv).recorded n hn hi⟩

def onePub : PodUnavailableBudget :=
  { generation := 1
    maxUnavailable := none
    minAvailable := some (.int 1)
    protectOperations := none
    status := noRecords}

/- `web-a` is available, `web-b` is not ready; one available pod is desired. -/
def twoPods : Cluster :=
  { names := ["web-a", "web-b"]
    distinct := by decide
    initial := fun n => ⟨n = "web-a",true,true,false⟩
    protects := fun _ _ => rfl
    pub := onePub
    allOperations := fun _ => rfl
    expected := 2
    desired := 1
    desiredOfPub := rfl
    desiredPos := by decide
    syncTime := 0}

/- An update of `web-b` makes it ready; a sync sees both pods and allows one
disruption, which goes to `web-a`. -/
def twoPodsRun : List Label :=
  [.receive 0 "web-b" 0 .update false 0,
    .podChanges "web-b" readyState,
    .syncStart ["web-a", "web-b"] (fun n => if n = "web-b" then 1 else 0) 0 2 1,
    .syncRead none none,
    .syncWrite,
    .receive 1 "web-a" 0 .delete false 0,
    .read 1 none none 2,
    .write 1]

theorem twoPodsRun_reaches : ∃ w,twoPods.Reaches w ∧ twoPods.admittedAvailable w=1 := by
  have hr : (runLabels twoPods.next twoPodsRun twoPods.start).map twoPods.admittedAvailable = some 1 := by decide
  obtain ⟨w,hw,hcnt⟩ := Option.map_eq_some_iff.mp hr
  exact ⟨w,reachable_of_runLabels (fun _ _ _ hs => hs) twoPodsRun (.start rfl) hw,hcnt⟩

/-- No pod but `web-a` was available at the start, yet its deletion is admitted. -/
theorem twoPods_admits_beyond_first_sync :
    ∃ w,twoPods.Reaches w ∧
      max 0 ((twoPods.availableAtStart : Int)-twoPods.desired)<twoPods.admittedAvailable w := by
  obtain ⟨w,hw,hcnt⟩ := twoPodsRun_reaches
  refine ⟨w,hw,?_⟩
  rw [hcnt]
  decide

theorem twoPods_keeps_budget :
    ∃ w,twoPods.Reaches w ∧ twoPods.admittedAvailable w=1 ∧
      (1 : Int) ≤ max 0 ((twoPods.availableAtStart : Int)+twoPods.madeAvailable w-1) := by
  obtain ⟨w,hw,hcnt⟩ := twoPodsRun_reaches
  have hbd:=(pub_keeps_budget twoPods w hw).1
  rw [hcnt] at hbd
  exact ⟨w,hw,hcnt,hbd⟩

theorem twoPods_records_admissions :
    ∃ w,twoPods.Reaches w ∧ twoPods.admittedAvailable w=1 ∧ (isPodRecordedInPub "web-a" w.store.current.obj.status →
      w.admitted "web-a") := by
  obtain ⟨w,hw,hcnt⟩ := twoPodsRun_reaches
  exact ⟨w,hw,hcnt,(pub_records_admissions twoPods w hw "web-a" (by decide) rfl).2 _ w.store.copy_current⟩

end Kruise.Pub
