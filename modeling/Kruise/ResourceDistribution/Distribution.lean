import Kruise.ResourceDistribution.Reconcile

/-!
# A ResourceDistribution reaches its goal

An object that the distributor controls is written again only if its fields besides the metadata
differ from the template. So labels and annotations added to the template later do not get there,
and an object that the API server stores with other fields is written at each reconcile. Where
neither is the case the goal is reached and a second reconcile writes nothing.
-/

namespace Kruise.ResourceDistribution

open Lib.Keyed Util.Selector List Function

section

variable (schedule : Schedule) {run : Store × List UnexpectedError → String → Store × List UnexpectedError}

variable (hg : ∀ acc ns,acc.2.length≤(run acc ns).2.length)
include hg

theorem length_le_foldl (names : List String) (acc : Store × List UnexpectedError) :
    acc.2.length≤(names.foldl run acc).2.length := by
  induction names generalizing acc with
  | nil => exact Nat.le_refl _
  | cons ns names ih => exact Nat.le_trans (hg acc ns) (ih (run acc ns))

theorem syncBatches_spec (fuel : Nat) (batchSize : Nat) (remaining : List String) (successes : Int)
    (acc : Store × List UnexpectedError) (hf : remaining.length≤fuel)
    (hsize : batchSize=0 → remaining=[]) (hle : batchSize≤remaining.length) :
    ∃ names : List String,names.Perm remaining ∧
      (syncBatches schedule run fuel batchSize remaining (successes,acc)).2=names.foldl run acc ∧
      (syncBatches schedule run fuel batchSize remaining (successes,acc)).1 =
        successes+(remaining.length+acc.2.length-(names.foldl run acc).2.length) := by
  induction fuel generalizing batchSize remaining successes acc with
  | zero =>
    have hn : remaining=[] := length_eq_zero_iff.mp (Nat.le_zero.mp hf)
    subst hn
    unfold syncBatches
    simp
  | succ fuel ih =>
    unfold syncBatches
    by_cases hz : batchSize=0
    · obtain rfl := hsize hz
      refine ⟨[],Perm.refl [],?_,?_⟩
      · rw [if_pos hz]
        rfl
      · rw [if_pos hz]
        simp
    · rw [if_neg hz]
      have hl : (remaining.drop batchSize).length=remaining.length-batchSize :=
        length_drop
      obtain ⟨names,hperm,hr,hcnt⟩ := ih
        (min (2*batchSize) (remaining.drop batchSize).length) (remaining.drop batchSize)
        (successes+(batchSize - (((schedule.order (remaining.take batchSize)).foldl run acc).2.length -
            acc.2.length : Nat)))
        ((schedule.order (remaining.take batchSize)).foldl run acc) (by omega)
        (fun h => length_eq_zero_iff.mp (by omega)) (Nat.min_le_right _ _)
      refine ⟨schedule.order (remaining.take batchSize)++names,?_,?_,?_⟩
      · have ha:=(schedule.perm (remaining.take batchSize)).append hperm
        rw [take_append_drop] at ha
        exact ha
      · rw [hr,foldl_append]
      · rw [hcnt,foldl_append]
        have hgrown:=length_le_foldl hg (schedule.order (remaining.take batchSize)) acc
        omega

theorem syncItSlowly_spec (namespaces : List String) (s : Store) :
    ∃ names : List String,names.Perm namespaces ∧
      (syncItSlowly schedule run namespaces 1 s).2=names.foldl run (s,[]) ∧
      (syncItSlowly schedule run namespaces 1 s).1 = namespaces.length-(names.foldl run (s,[])).2.length := by
  obtain ⟨names,hperm,hr,hcnt⟩ := syncBatches_spec schedule hg namespaces.length
    (min namespaces.length 1) namespaces 0 (s,[]) (Nat.le_refl _)
    (fun h => length_eq_zero_iff.mp (by omega)) (Nat.min_le_left _ _)
  refine ⟨names,hperm,hr,hcnt.trans ?_⟩
  simp

end

variable {key : ResourceKey}

section

variable (server : Content → Content) (d : Distributor) (action : String → Option Resource → Action)

theorem key_injective {ns ns' : String} (h : d.key ns=d.key ns') : ns=ns' :=
  congrArg ResourceKey.namespaceName h

variable {names : List String} (acc : Store × List UnexpectedError)

theorem turn_grows (ns : String) : acc.2.length≤(turn server d action acc ns).2.length := by
  unfold turn
  rw [length_append]
  omega

variable {ns : String}

theorem turn_resources_of_ne (hk : key≠d.key ns) :
    (turn server d action acc ns).1.resources key=acc.1.resources key :=
  update_of_ne hk _ _

theorem turns_resources_of_ne (hk : ∀ ns∈names,key≠d.key ns) :
    (names.foldl (turn server d action) acc).1.resources key=acc.1.resources key := by
  induction names generalizing acc with
  | nil => rfl
  | cons ns names ih =>
    rw [foldl_cons,ih _ fun x hx => hk x (mem_cons_of_mem ns hx)]
    exact turn_resources_of_ne server d action acc (hk ns mem_cons_self)

theorem turn_finds (hns : ns∉names) (acc : Store × List UnexpectedError) :
    ∀ x∈names,(turn server d action acc ns).1.resources (d.key x) = acc.1.resources (d.key x) := by
  intro x hx
  refine turn_resources_of_ne server d action acc ?_
  intro hk
  exact hns (key_injective d hk ▸ hx)

theorem turns_resources (hnd : names.Nodup) (acc : Store × List UnexpectedError) (hns : ns∈names) :
    (names.foldl (turn server d action) acc).1.resources (d.key ns) =
      (action ns (acc.1.resources (d.key ns))).effect server (acc.1.resources (d.key ns)) := by
  induction names generalizing acc with
  | nil => cases hns
  | cons x names ih =>
    obtain ⟨hx,hnd⟩ := nodup_cons.mp hnd
    rw [foldl_cons]
    by_cases hsame : ns=x
    · subst hsame
      rw [turns_resources_of_ne]
      · exact update_self _ _ _
      · intro y hy hk
        exact hx (key_injective d hk ▸ hy)
    · have hr:=(mem_cons.mp hns).resolve_left hsame
      rw [ih hnd _ hr,turn_finds server d action hx acc ns hr]

/- Errors and writes are logs: each turn adds what follows from the object it finds. -/
theorem turns_log {β : Type} (log : Store × List UnexpectedError → List β)
    (entry : String → Option Resource → Option β)
    (hlog : ∀ acc ns,log (turn server d action acc ns)=log acc++(entry ns (acc.1.resources (d.key ns))).toList)
    (hnd : names.Nodup) (acc : Store × List UnexpectedError) :
    log (names.foldl (turn server d action) acc) =
      log acc++names.filterMap fun ns => entry ns (acc.1.resources (d.key ns)) := by
  induction names generalizing acc with
  | nil => exact (append_nil _).symm
  | cons x names ih =>
    obtain ⟨hx,hnd⟩ := nodup_cons.mp hnd
    have hr : (names.filterMap fun ns => entry ns ((turn server d action acc x).1.resources (d.key ns))) =
        names.filterMap fun ns => entry ns (acc.1.resources (d.key ns)) := by
      refine filterMap_congr ?_
      intro ns hns
      rw [turn_finds server d action hx acc ns hns]
    rw [foldl_cons,ih hnd,hr,hlog,append_assoc]
    cases he : entry x (acc.1.resources (d.key x)) with
    | none => simp [he]
    | some e => simp [he]

theorem turns_errors (hnd : names.Nodup) (acc : Store × List UnexpectedError) :
    (names.foldl (turn server d action) acc).2 =
      acc.2++names.filterMap fun ns => (action ns (acc.1.resources (d.key ns))).error :=
  turns_log server d action Prod.snd (fun ns old => (action ns old).error) (fun _ _ => rfl) hnd acc

theorem turns_writes (hnd : names.Nodup) (acc : Store × List UnexpectedError) :
    (names.foldl (turn server d action) acc).1.writes =
      acc.1.writes++names.filterMap fun ns =>
        (action ns (acc.1.resources (d.key ns))).verb.map fun verb => (verb,d.key ns) :=
  turns_log server d action (fun acc => acc.1.writes)
    (fun ns old => (action ns old).verb.map fun verb => (verb,d.key ns)) (fun _ _ => rfl) hnd acc

end

def Targets.Selects (t : Targets) (n : Namespace) : Prop :=
  n.name∉t.excludedNamespaces ∧
    (t.allNamespaces ∨ n.name∈t.includedNamespaces ∨
      (t.namespaceLabelSelector.isEmpty=false ∧ t.namespaceLabelSelector.matches n.labels))

theorem mem_sortedSet {xs : List String} {x : String} : x∈sortedSet xs ↔ x∈xs := by
  unfold sortedSet
  rw [mem_insertionSort,mem_dedup]

theorem nodup_sortedSet (xs : List String) : (sortedSet xs).Nodup :=
  (perm_insertionSort _ _).nodup_iff.mpr (nodup_dedup xs)

theorem matched_iff {c : Cluster} {targets : Targets} {n : Namespace} (hn : n∈c.namespaces) :
    n.name∈(listNamespacesForDistributor c targets).1 ↔ targets.Selects n := by
  have hname : n.name∈c.names := mem_map_of_mem hn
  -- a namespace is the only one with its name
  have hl : n.name∈(c.namespaces.filter fun x =>
        targets.namespaceLabelSelector.matches x.labels).map Namespace.name ↔
      targets.namespaceLabelSelector.matches n.labels := by
    constructor
    · intro h
      obtain ⟨x,hx,heq⟩ := mem_map.mp h
      obtain ⟨hx,hm⟩ := mem_filter.mp hx
      rw [← inj_on_of_nodup_map c.nodup hx hn heq]
      exact hm
    · intro h
      exact mem_map_of_mem (mem_filter.mpr ⟨hn,h⟩)
  unfold listNamespacesForDistributor Targets.Selects
  rw [mem_sortedSet,mem_filter,mem_append,decide_eq_true_iff]
  cases ha : targets.allNamespaces with
  | true => simp [hname]
  | false =>
    cases he : targets.namespaceLabelSelector.isEmpty with
    | true => simp [and_comm]
    | false =>
      rw [← hl]
      simp [and_comm]

theorem unmatched_iff {c : Cluster} {targets : Targets} {ns : String} :
    ns∈(listNamespacesForDistributor c targets).2 ↔ ns∈c.names ∧ ns∉(listNamespacesForDistributor c targets).1 := by
  unfold listNamespacesForDistributor
  rw [mem_sortedSet,mem_sortedSet,mem_filter,decide_eq_true_iff]

/-! ## Namespace events (`utils.go:80-105`) -/

def matchViaLabelSelector (n : Namespace) (targets : Targets) : Bool :=
  !targets.namespaceLabelSelector.isEmpty&&targets.namespaceLabelSelector.matches n.labels

def matchViaTargets (n : Namespace) (targets : Targets) : Bool :=
  if n.name∈targets.excludedNamespaces then false
  else if targets.allNamespaces then true
  else if n.name∈targets.includedNamespaces then true
  else matchViaLabelSelector n targets

theorem matchViaTargets_iff {n : Namespace} {targets : Targets} :
    matchViaTargets n targets ↔ targets.Selects n := by
  unfold matchViaTargets matchViaLabelSelector Targets.Selects
  split_ifs with he ha hin <;> simp_all

/-- An event for a namespace and a reconcile select it alike. -/
theorem listNamespaces_agrees (c : Cluster) (targets : Targets) :
    (∀ n∈c.namespaces, (n.name∈(listNamespacesForDistributor c targets).1 ↔ matchViaTargets n targets) ∧
      (n.name∈(listNamespacesForDistributor c targets).2 ↔ n.name∉(listNamespacesForDistributor c targets).1)) ∧
    (listNamespacesForDistributor c targets).1.Nodup ∧ (listNamespacesForDistributor c targets).2.Nodup := by
  refine ⟨fun n hn => ⟨?_,?_⟩,nodup_sortedSet _,nodup_sortedSet _⟩
  · rw [matched_iff hn,matchViaTargets_iff]
  · rw [unmatched_iff]
    exact and_iff_right (mem_map_of_mem hn)

/- The namespaces that a reconcile distributes to, and those that it cleans. -/
abbrev Distributor.matched (d : Distributor) (c : Cluster) : List String :=
  (listNamespacesForDistributor c d.targets).1

abbrev Distributor.unmatched (d : Distributor) (c : Cluster) : List String :=
  (listNamespacesForDistributor c d.targets).2

section

variable (d : Distributor) (c : Cluster) (ns : String) (old : Option Resource)

theorem distributeTo_cases :
    (liveNamespace c ns=false ∧ ∃ e,distributeTo d c ns old=.fail e) ∨
    (liveNamespace c ns ∧ old=none ∧ distributeTo d c ns old=.create (makeResourceObject d none)) ∨
    (liveNamespace c ns ∧ ∃ r,old=some r ∧ isControlledByDistributor r d=false ∧
      distributeTo d c ns old=.fail ⟨conflictText,ns,.conflict⟩) ∨
    (liveNamespace c ns ∧ ∃ r,old=some r ∧ isControlledByDistributor r d ∧ r.content≠d.resource.content ∧
      distributeTo d c ns old=.update (makeResourceObject d (some r))) ∨
    (liveNamespace c ns ∧ ∃ r,old=some r ∧ isControlledByDistributor r d ∧
      r.content=d.resource.content ∧ distributeTo d c ns old=.leave) := by
  unfold distributeTo needToUpdate
  cases hl : liveNamespace c ns with
  | false => simp
  | true =>
    cases old with
    | none => simp
    | some r =>
      cases hctl : isControlledByDistributor r d with
      | false => simp [hctl]
      | true =>
        by_cases hcont : r.content=d.resource.content <;> simp [hctl,hcont]

theorem Action.effect_of_verb {server : Content → Content} {old : Option Resource} {a : Action}
    (h : a.verb=none) : a.effect server old=old := by
  cases a with
  | leave => rfl
  | fail e => rfl
  | create r => cases h
  | update r => cases h
  | delete => cases h

end

section

variable (server : Content → Content) (schedule : Schedule) (now : Int) (d : Distributor)
  (c : Cluster) (s : Store)

theorem reconcile_spec :
    ∃ distributed cleaned : List String, distributed.Perm (d.matched c) ∧
      cleaned.Perm (d.unmatched c) ∧
      (doReconcile server schedule now d c s).store = (cleaned.foldl (turn server d (cleanIn d c))
          ((distributed.foldl (turn server d (distributeTo d c)) (s,[])).1,[])).1 ∧
      (doReconcile server schedule now d c s).status.succeeded =
        (d.matched c).length -
          (distributed.foldl (turn server d (distributeTo d c)) (s,[])).2.length := by
  obtain ⟨distributed,hperm,hr,hcnt⟩ := syncItSlowly_spec schedule
    (turn_grows server d (distributeTo d c)) (d.matched c) s
  obtain ⟨cleaned,hperm',hr',-⟩ := syncItSlowly_spec schedule
    (turn_grows server d (cleanIn d c)) (d.unmatched c)
    (distributed.foldl (turn server d (distributeTo d c)) (s,[])).1
  refine ⟨distributed,cleaned,hperm,hperm',?_,hcnt⟩
  rw [← hr',← hr]
  rfl

variable {server schedule now d c s} {ns : String}

theorem resources_of_matched (hns : ns∈d.matched c) :
    (doReconcile server schedule now d c s).store.resources (d.key ns) =
      (distributeTo d c ns (s.resources (d.key ns))).effect server (s.resources (d.key ns)) := by
  obtain ⟨distributed,cleaned,hperm,hperm',hsto,-⟩ :=
    reconcile_spec server schedule now d c s
  rw [hsto,turns_resources_of_ne]
  · exact turns_resources server d _ (hperm.nodup_iff.mpr (nodup_sortedSet _)) (s,[]) (hperm.mem_iff.mpr hns)
  · intro x hx hk
    rw [key_injective d hk] at hns
    exact (unmatched_iff.mp (hperm'.mem_iff.mp hx)).2 hns

theorem distributed_resources_of_unmatched {distributed : List String} (hperm : distributed.Perm (d.matched c))
    (hns : ns∉d.matched c) :
    (distributed.foldl (turn server d (distributeTo d c)) (s,[])).1.resources (d.key ns) =
      s.resources (d.key ns) := by
  refine turns_resources_of_ne server d _ (s,[]) ?_
  intro x hx hk
  rw [key_injective d hk] at hns
  exact hns (hperm.mem_iff.mp hx)

theorem resources_of_unmatched (hns : ns∈d.unmatched c) :
    (doReconcile server schedule now d c s).store.resources (d.key ns) =
      (cleanIn d c ns (s.resources (d.key ns))).effect server (s.resources (d.key ns)) := by
  obtain ⟨distributed,cleaned,hperm,hperm',hsto,-⟩ :=
    reconcile_spec server schedule now d c s
  rw [hsto,turns_resources server d _ (hperm'.nodup_iff.mpr (nodup_sortedSet _)) _ (hperm'.mem_iff.mpr hns)]
  rw [distributed_resources_of_unmatched hperm (unmatched_iff.mp hns).2]

theorem resources_of_other (hm : ∀ ns∈d.matched c,key≠d.key ns) (hu : ∀ ns∈d.unmatched c,key≠d.key ns) :
    (doReconcile server schedule now d c s).store.resources key=s.resources key := by
  obtain ⟨distributed,cleaned,hperm,hperm',hsto,-⟩ :=
    reconcile_spec server schedule now d c s
  rw [hsto,turns_resources_of_ne server d _ _ fun x hx => hu x (hperm'.mem_iff.mp hx)]
  exact turns_resources_of_ne server d _ _ fun x hx => hm x (hperm.mem_iff.mp hx)

theorem writes_eq_iff : (doReconcile server schedule now d c s).store.writes=s.writes ↔
    (∀ ns∈d.matched c, (distributeTo d c ns (s.resources (d.key ns))).verb=none) ∧
      ∀ ns∈d.unmatched c, (cleanIn d c ns (s.resources (d.key ns))).verb=none := by
  obtain ⟨distributed,cleaned,hperm,hperm',hsto,-⟩ :=
    reconcile_spec server schedule now d c s
  rw [hsto,turns_writes server d _ (hperm'.nodup_iff.mpr (nodup_sortedSet _)),
    turns_writes server d _ (hperm.nodup_iff.mpr (nodup_sortedSet _)),append_assoc,append_right_eq_self,
    append_eq_nil_iff]
  simp only [filterMap_eq_nil_iff,Option.map_eq_none_iff]
  refine and_congr (forall_congr' fun ns => by rw [hperm.mem_iff]) (forall_congr' fun ns => ?_)
  rw [hperm'.mem_iff]
  refine forall_congr' fun hns => ?_
  rw [distributed_resources_of_unmatched hperm (unmatched_iff.mp hns).2]

variable (d c)

def reaches (old : Option Resource) (ns : String) : Bool :=
  liveNamespace c ns&&old.all fun r => isControlledByDistributor r d

theorem error_distributeTo (ns : String) (old : Option Resource) :
    (distributeTo d c ns old).error.isSome = !reaches d c old ns := by
  unfold reaches distributeTo needToUpdate
  cases liveNamespace c ns with
  | false => rfl
  | true =>
    cases old with
    | none => rfl
    | some r =>
      cases hctl : isControlledByDistributor r d with
      | false => simp [hctl,Action.error]
      | true => by_cases hcont : r.content=d.resource.content <;> simp [hctl,hcont,Action.error]

variable {d c}

theorem succeeded_eq :
    (doReconcile server schedule now d c s).status.succeeded =
      (d.matched c).countP fun ns =>
        reaches d c (s.resources (d.key ns)) ns := by
  obtain ⟨distributed,cleaned,hperm,-,-,hcnt⟩ := reconcile_spec server schedule now d c s
  rw [hcnt,turns_errors server d _ (hperm.nodup_iff.mpr (nodup_sortedSet _)),nil_append]
  have hf : (distributed.filterMap fun ns =>
        (distributeTo d c ns (s.resources (d.key ns))).error).length =
      distributed.countP fun ns => !reaches d c (s.resources (d.key ns)) ns := by
    rw [length_filterMap_eq_countP]
    refine countP_congr ?_
    intro ns _
    rw [error_distributeTo]
  have ht:=length_eq_countP_add_countP (fun ns => reaches d c (s.resources (d.key ns)) ns) (l := distributed)
  have hsame:=hperm.countP_eq fun ns => reaches d c (s.resources (d.key ns)) ns
  have hl:=hperm.length_eq
  rw [hf]
  simp only [Bool.not_eq_true,Bool.decide_eq_false] at ht
  omega

end

def Within (m m' : Labels) : Prop := ∀ k v,m k=some v → m' k=some v

def valuesOf (m : Option Values) : Labels := fun k => m.bind fun values => values.lookup k

structure Holds (wanted got : Content) : Prop where
  data : Within (valuesOf wanted.data) (valuesOf got.data)
  binaryData : Within (valuesOf wanted.binaryData) (valuesOf got.binaryData)
  type : ∀ t,wanted.type=some t → got.type=some t

structure Carries (d : Distributor) (r : Resource) : Prop where
  labels : Within d.resource.labels r.labels
  annotations : Within d.resource.annotations r.annotations
  owned : ∃ o∈r.owners,o.uid=d.uid
  content : Holds d.resource.content r.content

def Foreign (d : Distributor) (old : Option Resource) : Prop :=
  ∃ r,old=some r ∧ isControlledByDistributor r d=false

structure Distributed (d : Distributor) (c : Cluster)
    (before after : ResourceKey → Option Resource) (status : Status) : Prop where
  held : ∀ n∈c.namespaces,d.targets.Selects n → ¬Foreign d (before (d.key n.name)) →
    ∃ r,after (d.key n.name)=some r ∧ Carries d r
  cleaned : ∀ n∈c.namespaces,¬d.targets.Selects n → ∀ kind name r,
    after ⟨n.name,kind,name⟩=some r → isControlledByDistributor r d=false
  kept : ∀ key r,before key=some r → isControlledByDistributor r d=false →
    after key=some r
  desired : status.desired=(d.matched c).length
  succeeded : status.succeeded=(d.matched c).countP fun ns =>
    reaches d c (before (d.key ns)) ns
  total : status.succeeded+status.failed=status.desired

/- The distributor is the controller that the owner references of the template ask for, or is put in
as one. -/
def controlsTemplate (d : Distributor) : Bool :=
  match d.resource.owners.find? OwnerReference.controller with
  | some o => decide (d.apiVersion=o.apiVersion ∧ d.kind=o.kind ∧ d.name=o.name)
  | none => d.resource.owners.all fun o => o.uid≠d.uid

/- The template leaves the annotations of the controller alone. -/
def LeavesOwn (d : Distributor) : Prop :=
  (∀ v,d.resource.annotations resourceHashCodeAnnotation=some v → v=d.hashCode) ∧
    ∀ v,d.resource.annotations sourceResourceDistributionOfResource=some v → v=d.name

/- The API server keeps what the object is to hold; for an object that the distributor controls it
keeps all fields as they are. -/
structure Writable (server : Content → Content) (d : Distributor) : Prop where
  annotations : LeavesOwn d
  content : Holds d.resource.content (server d.resource.content)
  settled : controlsTemplate d → server d.resource.content=d.resource.content

/- An object is written unless its namespace is going away or it has the fields of the template; then
it has to hold everything already. -/
structure Settles (server : Content → Content) (d : Distributor) (terminating : Bool)
    (old : Option Resource) : Prop where
  written : terminating=false → (∀ r,old=some r → r.content≠d.resource.content) → Writable server d
  kept : terminating ∨ (∃ r,old=some r ∧ r.content=d.resource.content) → ∃ r,old=some r ∧ Carries d r

structure Regular (server : Content → Content) (d : Distributor) (c : Cluster)
    (resources : ResourceKey → Option Resource) : Prop where
  selected : ∀ n∈c.namespaces,d.targets.Selects n → ¬Foreign d (resources (d.key n.name)) →
    Settles server d n.terminating (resources (d.key n.name))
  cleanable : ∀ n∈c.namespaces,¬d.targets.Selects n → ∀ kind name r,
    resources ⟨n.name,kind,name⟩=some r → isControlledByDistributor r d →
      n.terminating=false ∧ kind=d.resource.kind ∧ name=d.resource.name ∧ r.finalizers=[]

section

variable {server : Content → Content} {d : Distributor} {c : Cluster} {s : Store}

theorem within_mergeValues (new old : Labels) : Within new (mergeValues new old) := by
  intro k v hv
  unfold mergeValues
  rw [hv]
  rfl

theorem within_own_iff {new : Labels} (hn : Within d.resource.annotations new) :
    Within d.resource.annotations (update (update new
      resourceHashCodeAnnotation (some d.hashCode)) sourceResourceDistributionOfResource (some d.name)) ↔
    LeavesOwn d := by
  constructor
  · intro h
    refine ⟨fun v hv => ?_,fun v hv => ?_⟩
    · have hw:=h _ v hv
      rw [update_of_ne (by decide),update_self] at hw
      exact (Option.some.inj hw).symm
    · have hw:=h _ v hv
      rw [update_self] at hw
      exact (Option.some.inj hw).symm
  · rintro ⟨hhash,hsrc⟩ k v hv
    by_cases hsource : k=sourceResourceDistributionOfResource
    · subst hsource
      rw [update_self,hsrc v hv]
    · rw [update_of_ne hsource]
      by_cases hh : k = resourceHashCodeAnnotation
      · subst hh
        rw [update_self,hhash v hv]
      · rw [update_of_ne hh]
        exact hn k v hv

theorem owned_of_owners (d : Distributor) (owners : List OwnerReference) :
    ∃ o∈(if owners.any fun o => o.uid=d.uid then owners else owners++[newControllerRef d]), o.uid=d.uid := by
  split_ifs with ha
  · obtain ⟨o,ho,hu⟩ := any_eq_true.mp ha
    exact ⟨o,ho,of_decide_eq_true hu⟩
  · exact ⟨newControllerRef d,mem_append_right _ (mem_singleton_self _),rfl⟩

theorem isControlledByDistributor_make (old : Option Resource) :
    isControlledByDistributor (makeResourceObject d old) d=controlsTemplate d := by
  have ho : (makeResourceObject d old).owners =
      if d.resource.owners.any fun o => o.uid=d.uid then d.resource.owners
      else d.resource.owners++[newControllerRef d] := by
    cases old <;> rfl
  unfold isControlledByDistributor controlsTemplate
  rw [ho]
  by_cases ha : d.resource.owners.any fun o => o.uid=d.uid
  · rw [if_pos ha]
    cases d.resource.owners.find? OwnerReference.controller with
    | some o => rfl
    | none => simpa using ha
  · rw [if_neg ha,find?_append]
    cases d.resource.owners.find? OwnerReference.controller with
    | some o => rfl
    | none => simpa [newControllerRef] using ha

/- The object after a write. -/
def stored (server : Content → Content) (d : Distributor) (old : Option Resource) (deleting : Bool) : Resource :=
  {makeResourceObject d old with
    content := server d.resource.content
    deleting := deleting}

variable {n : Namespace}

theorem live_of_mem (hn : n∈c.namespaces) : liveNamespace c n.name = !n.terminating := by
  unfold liveNamespace
  rw [findKey_of_mem c.nodup hn]

theorem carries_stored_iff (old : Option Resource) (deleting : Bool) : Carries d (stored server d old deleting) ↔
    LeavesOwn d ∧ Holds d.resource.content (server d.resource.content) := by
  have hlab : Within d.resource.labels (stored server d old deleting).labels := by
    cases old with
    | none => exact fun k v hv => hv
    | some r => exact within_mergeValues _ _
  have hown : ∃ o∈(stored server d old deleting).owners,o.uid=d.uid := by
    cases old <;> exact owned_of_owners d _
  have hann : Within d.resource.annotations (stored server d old deleting).annotations ↔ LeavesOwn d := by
    cases old with
    | none => exact within_own_iff fun k v hv => hv
    | some r => exact within_own_iff (within_mergeValues _ _)
  rw [← hann]
  exact ⟨fun h => ⟨h.annotations,h.content⟩,fun ⟨ha,hc⟩ => ⟨hlab,ha,hown,hc⟩⟩

variable {ns : String} {r : Resource}

theorem verb_eq_none_iff (hl : liveNamespace c ns) : (distributeTo d c ns (some r)).verb=none ↔
    (isControlledByDistributor r d → r.content=d.resource.content) := by
  unfold distributeTo needToUpdate
  cases hctl : isControlledByDistributor r d <;>
    by_cases hcont : r.content=d.resource.content <;> simp [hl,hctl,hcont,Action.verb]

theorem verb_foreign (hr : isControlledByDistributor r d=false) (ns : String) :
    (distributeTo d c ns (some r)).verb=none := by
  unfold distributeTo
  cases liveNamespace c ns <;> simp [hr,Action.verb]

theorem verb_not_live (hl : liveNamespace c ns=false) (old : Option Resource) :
    (distributeTo d c ns old).verb=none := by
  unfold distributeTo
  simp [hl,Action.verb]

/-- What is written carries the template and is not written again exactly when it is writable. -/
theorem writable_iff (hl : liveNamespace c ns) (old : Option Resource) (deleting : Bool) :
    (Carries d (stored server d old deleting) ∧
      (distributeTo d c ns (some (stored server d old deleting))).verb=none) ↔ Writable server d := by
  have hctl : isControlledByDistributor (stored server d old deleting) d=controlsTemplate d :=
    isControlledByDistributor_make old
  rw [carries_stored_iff,verb_eq_none_iff hl,hctl]
  exact ⟨fun ⟨⟨ha,hc⟩,hs⟩ => ⟨ha,hc,hs⟩,fun h => ⟨⟨h.annotations,h.content⟩,h.settled⟩⟩

variable {terminating : Bool} {old : Option Resource}

theorem settles_iff_writable (hl : terminating=false) (ho : ∀ r,old=some r → r.content≠d.resource.content) :
    Settles server d terminating old ↔ Writable server d := by
  refine ⟨fun h => h.written hl ho,fun h => ⟨fun _ _ => h,?_⟩⟩
  rintro (ht | ⟨r,hr,hcont⟩)
  · exact absurd (hl.symm.trans ht) Bool.false_ne_true
  · exact absurd hcont (ho r hr)

theorem settles_iff_carries (hk : terminating ∨ ∃ r,old=some r ∧ r.content=d.resource.content) :
    Settles server d terminating old ↔ ∃ r,old=some r ∧ Carries d r := by
  refine ⟨fun h => h.kept hk,fun h => ⟨fun hl ho => ?_,fun _ => h⟩⟩
  rcases hk with ht | ⟨r,hr,hcont⟩
  · exact absurd (hl.symm.trans ht) Bool.false_ne_true
  · exact absurd hcont (ho r hr)

/-- One turn reaches the goal in a namespace and the next one writes nothing. -/
theorem settles_iff (hl : liveNamespace c ns = !terminating) (hf : ¬Foreign d old) :
    ((∃ r,(distributeTo d c ns old).effect server old=some r ∧ Carries d r) ∧
      (distributeTo d c ns ((distributeTo d c ns old).effect server old)).verb=none) ↔
    Settles server d terminating old := by
  rcases distributeTo_cases d c ns old with ⟨hdead,e,ha⟩ | ⟨hlive,rfl,ha⟩ | ⟨-,r,rfl,hctl,-⟩ |
    ⟨hlive,r,rfl,-,hne,ha⟩ | ⟨hlive,r,rfl,-,hcont,ha⟩
  · rw [settles_iff_carries (.inl (by simpa [hdead] using hl.symm)),ha]
    exact and_iff_left (verb_not_live hdead _)
  · rw [settles_iff_writable (by simpa [hlive] using hl.symm) (by rintro r ⟨⟩),← writable_iff hlive none false,ha]
    exact and_congr_left' ⟨by rintro ⟨_,⟨⟩,h⟩; exact h,fun h => ⟨_,rfl,h⟩⟩
  · exact absurd ⟨r,rfl,hctl⟩ hf
  · rw [settles_iff_writable (by simpa [hlive] using hl.symm) (by rintro _ ⟨⟩; exact hne),
      ← writable_iff hlive (some r) r.deleting,ha]
    exact and_congr_left' ⟨by rintro ⟨_,⟨⟩,h⟩; exact h,fun h => ⟨_,rfl,h⟩⟩
  · rw [settles_iff_carries (.inr ⟨r,rfl,hcont⟩),ha]
    exact and_iff_left ((verb_eq_none_iff hlive).mpr fun _ => hcont)

theorem cleanIn_foreign (hr : isControlledByDistributor r d=false) (ns : String) :
    (cleanIn d c ns (some r)).effect server (some r)=some r := by
  unfold cleanIn
  cases liveNamespace c ns <;> simp [hr,Action.effect]

theorem cleanIn_verb (ho : ∀ r,old=some r → isControlledByDistributor r d=false) :
    (cleanIn d c ns old).verb=none := by
  unfold cleanIn
  cases liveNamespace c ns with
  | false => rfl
  | true =>
    cases old with
    | none => rfl
    | some r => simp [ho r rfl,Action.verb]

/-- A clean-up leaves nothing of the distributor exactly when what is there can be deleted. -/
theorem cleanIn_effect_iff (hl : liveNamespace c ns = !terminating) :
    (∀ r,(cleanIn d c ns old).effect server old=some r → isControlledByDistributor r d=false) ↔
      ∀ r,old=some r → isControlledByDistributor r d → terminating=false ∧ r.finalizers=[] := by
  unfold cleanIn
  rw [hl]
  cases old with
  | none => cases terminating <;> simp [Action.effect]
  | some r =>
    have hdel : isControlledByDistributor {r with deleting := true} d=isControlledByDistributor r d := rfl
    cases terminating <;> cases hctl : isControlledByDistributor r d <;>
      by_cases hfin : r.finalizers=[] <;> simp [hctl,hfin,hdel,Action.effect]

theorem not_selects_of_unmatched {ns : String} (hns : ns∈d.unmatched c) :
    ∃ n∈c.namespaces,n.name=ns ∧ ¬d.targets.Selects n := by
  obtain ⟨hname,hnot⟩ := unmatched_iff.mp hns
  obtain ⟨n,hn,rfl⟩ := mem_map.mp hname
  exact ⟨n,hn,rfl,fun hsel => hnot ((matched_iff hn).mpr hsel)⟩

theorem unmatched_of_mem (hn : n∈c.namespaces) (hnot : ¬d.targets.Selects n) : n.name∈d.unmatched c :=
  unmatched_iff.mpr ⟨mem_map_of_mem hn,fun h => hnot ((matched_iff hn).mp h)⟩

theorem cleaned_iff {server : Content → Content} {schedule : Schedule} {now : Int} {s : Store} (hn : n∈c.namespaces)
    (hnot : ¬d.targets.Selects n) :
    (∀ kind name r,(doReconcile server schedule now d c s).store.resources ⟨n.name,kind,name⟩=some r →
      isControlledByDistributor r d=false) ↔
    ∀ kind name r,s.resources ⟨n.name,kind,name⟩=some r → isControlledByDistributor r d →
      n.terminating=false ∧ kind=d.resource.kind ∧ name=d.resource.name ∧ r.finalizers=[] := by
  refine forall_congr' fun kind => forall_congr' fun name => ?_
  by_cases hk : kind=d.resource.kind ∧ name=d.resource.name
  · obtain ⟨rfl,rfl⟩ := hk
    have hres : (doReconcile server schedule now d c s).store.resources (d.key n.name)=_ :=
      resources_of_unmatched (unmatched_of_mem hn hnot)
    refine (Iff.trans (by rw [← hres]; rfl) (cleanIn_effect_iff (live_of_mem hn))).trans ?_
    simp [Distributor.key]
  · have ho : ∀ ns,(⟨n.name,kind,name⟩ : ResourceKey)≠d.key ns := by
      intro ns heq
      exact hk ⟨congrArg ResourceKey.kind heq,congrArg ResourceKey.name heq⟩
    rw [resources_of_other (fun ns _ => ho ns) fun ns _ => ho ns]
    refine forall_congr' fun r => forall_congr' fun _ => ?_
    rw [← Bool.not_eq_true]
    exact ⟨fun h hctl => absurd hctl h,fun h hctl => hk ⟨(h hctl).2.1,(h hctl).2.2.1⟩⟩

theorem unchanged_of_foreign {server : Content → Content} {schedule : Schedule} {now : Int} {s : Store}
    (hr : s.resources key=some r) (hctl : isControlledByDistributor r d=false) :
    (doReconcile server schedule now d c s).store.resources key=some r := by
  by_cases hm : ∃ ns∈d.matched c,key=d.key ns
  · obtain ⟨ns,hns,rfl⟩ := hm
    rw [resources_of_matched hns,hr]
    exact Action.effect_of_verb (verb_foreign hctl ns)
  · by_cases hu : ∃ ns∈d.unmatched c,key=d.key ns
    · obtain ⟨ns,hns,rfl⟩ := hu
      rw [resources_of_unmatched hns,hr]
      exact cleanIn_foreign hctl ns
    · rw [resources_of_other (fun ns hns heq => hm ⟨ns,hns,heq⟩)
        fun ns hns heq => hu ⟨ns,hns,heq⟩]
      exact hr

end

section

variable {server : Content → Content} {d : Distributor} {c : Cluster} {s : Store} {schedule : Schedule} {now : Int}

theorem reconcile_distributed (h : Regular server d c s.resources) :
    Distributed d c s.resources (doReconcile server schedule now d c s).store.resources
      (doReconcile server schedule now d c s).status := by
  refine ⟨?_,fun n hn hnot => (cleaned_iff hn hnot).mpr (h.cleanable n hn hnot),
    fun key r hr hctl => unchanged_of_foreign hr hctl,rfl,succeeded_eq,?_⟩
  · intro n hn hsel hf
    rw [resources_of_matched ((matched_iff hn).mpr hsel)]
    exact ((settles_iff (live_of_mem hn) hf).mpr (h.selected n hn hsel hf)).1
  · change (doReconcile server schedule now d c s).status.succeeded +
      ((doReconcile server schedule now d c s).status.desired -
        (doReconcile server schedule now d c s).status.succeeded)=_
    omega

theorem second_distributes_nothing (h : Regular server d c s.resources) {ns : String} (hns : ns∈d.matched c) :
    (distributeTo d c ns ((doReconcile server schedule now d c s).store.resources (d.key ns))).verb=none := by
  rw [resources_of_matched hns]
  by_cases hlive : ns∈c.names
  · obtain ⟨n,hn,rfl⟩ := mem_map.mp hlive
    by_cases hf : Foreign d (s.resources (d.key n.name))
    · obtain ⟨r,hr,hctl⟩ := hf
      rw [hr,Action.effect_of_verb (verb_foreign hctl n.name)]
      exact verb_foreign hctl n.name
    · exact ((settles_iff (live_of_mem hn) hf).mpr (h.selected n hn ((matched_iff hn).mp hns) hf)).2
  · refine verb_not_live ?_ _
    unfold liveNamespace
    rw [findKey_eq_none hlive]

end

/-- One reconcile reaches the goal, and one more with nothing changed in between writes nothing,
exactly when the start is regular. -/
theorem distribution_reached_and_kept_iff (server : Content → Content) (d : Distributor) (c : Cluster)
    (s : Store) (schedule : Schedule) (now : Int) :
    (Distributed d c s.resources (doReconcile server schedule now d c s).store.resources
        (doReconcile server schedule now d c s).status ∧
      ∀ (schedule' : Schedule) (now' : Int),(doReconcile server schedule' now'
            {d with status := (doReconcile server schedule now d c s).status} c
            (doReconcile server schedule now d c s).store).store.writes =
          (doReconcile server schedule now d c s).store.writes) ↔
      Regular server d c s.resources := by
  constructor
  · rintro ⟨hd,hw⟩
    refine ⟨?_,fun n hn hnot => (cleaned_iff hn hnot).mp (hd.cleaned n hn hnot)⟩
    intro n hn hsel hf
    have hm:=(matched_iff hn).mpr hsel
    have hverb:=(writes_eq_iff.mp (hw schedule now)).1 n.name hm
    have hheld:=hd.held n hn hsel hf
    rw [← settles_iff (live_of_mem hn) hf,← resources_of_matched hm]
    exact ⟨hheld,hverb⟩
  · intro h
    have hd:=@reconcile_distributed server d c s schedule now h
    refine ⟨hd,fun schedule' now' => writes_eq_iff.mpr ⟨fun ns hns => second_distributes_nothing h hns,?_⟩⟩
    intro ns hns
    obtain ⟨n,hn,rfl,hnot⟩ := not_selects_of_unmatched hns
    exact cleanIn_verb fun r hr => hd.cleaned n hn hnot _ _ r hr

def inOrder : Schedule := ⟨id,fun batch => Perm.refl batch⟩

def twoNamespaces : Cluster :=
  ⟨[⟨"ns-1",fun _ => none,false⟩,⟨"ns-2",fun _ => none,false⟩],by decide⟩

def settings (labels : Labels) : Distributor where
  apiVersion := "apps.kruise.io/v1alpha1"
  kind := "ResourceDistribution"
  name := "settings"
  uid := "uid-1"
  generation := 1
  resource :=
    { kind := .configMap
      name := "settings"
      labels := labels
      annotations := fun _ => none
      finalizers := []
      owners := []
      content := ⟨some (Finmap.singleton "mode" "fast"),none,none,none,none⟩}
  hashCode := "hash"
  targets := ⟨false,[],["ns-1"],⟨∅,[]⟩⟩
  status := ⟨0,0,0,0,[]⟩

def teamA : Labels := fun k => if k = "team" then some "a" else none

def emptyStore : Store := ⟨fun _ => none,[]⟩

def distributedBefore : Store :=
  (doReconcile id inOrder 0 (settings fun _ => none) twoNamespaces emptyStore).store

/-- The label does not get to a namespace that has the resource already. -/
theorem addedLabel_not_distributed :
    (settings teamA).targets.Selects ⟨"ns-1",fun _ => none,false⟩ ∧
      ¬Foreign (settings teamA) (distributedBefore.resources ((settings teamA).key "ns-1")) ∧
      ¬∃ r,(doReconcile id inOrder 1 (settings teamA) twoNamespaces
          distributedBefore).store.resources ((settings teamA).key "ns-1")=some r ∧
        Carries (settings teamA) r := by
  refine ⟨⟨by decide,.inr (.inl (mem_singleton_self _))⟩,?_,?_⟩
  · intro hf
    obtain ⟨r,hr,hctl⟩ := hf
    have hbef : (distributedBefore.resources ((settings teamA).key "ns-1")).map
        (fun r => isControlledByDistributor r (settings teamA))=some true := by decide +kernel
    rw [hr,Option.map_some,hctl] at hbef
    cases hbef
  · intro hh
    obtain ⟨r,hr,hcar⟩ := hh
    have ha : ((doReconcile id inOrder 1 (settings teamA) twoNamespaces
        distributedBefore).store.resources ((settings teamA).key "ns-1")).map
        (fun r => r.labels "team")=some none := by decide +kernel
    rw [hr,Option.map_some,hcar.labels "team" "a" rfl] at ha
    cases ha

end Kruise.ResourceDistribution
