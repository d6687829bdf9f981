import Kruise.ImagePullJob.References
import Kruise.Lib.Keyed

/-!
# Releasing the copies of a job's pull secrets

`finalize` and `syncSecrets` of a finished or deleted job with `getTargetSecretMap` and
`releaseTargetSecrets` (`imagepulljob_controller.go` 286-305, 411-482, 641-650). An attempt fixes
the order in which maps are visited and the replies of the API server, of which some may be lost.
Nobody else writes the copies.
-/

namespace Kruise.ImagePullJob

open Lib.Keyed List

def daemonConfigNamespace : List Char := "kruise-daemon-config".toList

/- `sourceUID` is a label; `source` and `references` are annotations, empty when absent. -/
structure Secret where
  name : String
  sourceUID : String
  source : List Char
  references : List Char
  data : String
  deleting : Bool
  deriving DecidableEq

structure Owner where
  key : Key
  pullSecrets : List (List Char)
  named : key.name≠[]

def getSecrets (job : Owner) : List Key := job.pullSecrets.map fun name => ⟨job.key.ns,name⟩

inductive Reply
  | ok
  | refused
  | lost
  deriving DecidableEq

structure Attempt where
  visit : List Secret → List Secret
  visit_perm : ∀ l,(visit l).Perm l
  write : String → List Key → List Key
  write_perm : ∀ n l,(write n l).Perm l
  update : String → Reply
  delete : String → Reply
  removeFinalizer : Reply

def heldBy (job : Owner) (target : Secret) : Bool :=
  !target.deleting&&decide (job.key∈referenceSet target.references)

/- A source key that does not parse is the empty one. -/
def isWanted (job : Owner) (target : Secret) : Bool :=
  decide ((splitMetaNamespaceKey target.source).getD ⟨[],[]⟩∈getSecrets job)

/- A map from source UIDs, in which a later target takes the place of an earlier one. -/
def bySourceUID (targets : List Secret) : List Secret :=
  targets.pwFilter fun s t => s.sourceUID≠t.sourceUID

def heldTargets (job : Owner) (wanted : Bool) (targets : List Secret) : List Secret :=
  targets.filter fun t => heldBy job t&&isWanted job t == wanted

def getTargetSecretMap (job : Owner) (targets : List Secret) : List Secret × List Secret :=
  (bySourceUID (heldTargets job true targets),bySourceUID (heldTargets job false targets))

inductive Turn
  | goOn
  | done
  | failed
  deriving DecidableEq

def deleteSecret (targets : List Secret) (name : String) : List Secret :=
  targets.filter fun t => t.name≠name

def releaseSecret (job : Key) (a : Attempt) (targets : List Secret) (secret : Secret) : List Secret × Turn :=
  let contains : Bool := decide (job∈referenceSet secret.references)
  let keySet:=(referenceSet secret.references).filter fun k => k≠job
  let updated:=if contains then replaceKey Secret.name
    {secret with references := referenceText (a.write secret.name keySet)} targets else targets
  match if contains then a.update secret.name else .ok with
  | .refused => (targets,.failed)
  | .lost => (updated,.failed)
  | .ok =>
    -- another job still needs it: the whole loop ends here, without an error
    if keySet≠[] then (updated,.done)
    else match a.delete secret.name with
      | .refused => (updated,.failed)
      | .lost => (deleteSecret updated secret.name,.failed)
      | .ok => (deleteSecret updated secret.name,.goOn)

def releaseTargetSecrets (job : Key) (a : Attempt) :
    List Secret → List Secret → List Secret × Bool
  | [],targets => (targets,true)
  | secret::secrets,targets =>
    match releaseSecret job a targets secret with
    | (targets,.goOn) => releaseTargetSecrets job a secrets targets
    | (targets,.done) => (targets,true)
    | (targets,.failed) => (targets,false)

/- `syncSecrets` for a job that is deleted or has a completion time. -/
def syncSecrets (job : Owner) (a : Attempt) (targets : List Secret) : List Secret × Bool :=
  if job.key.ns=daemonConfigNamespace then (targets,true)
  else
    let maps:=getTargetSecretMap job targets
    match releaseTargetSecrets job.key a (a.visit maps.2) targets with
    | (targets,false) => (targets,false)
    | (targets,true) => releaseTargetSecrets job.key a (a.visit maps.1) targets

/- `released` says that an attempt has released the secrets without an error. -/
structure Config where
  targets : List Secret
  finalizer : Bool
  released : Bool
  deriving DecidableEq

def finalize (job : Owner) (c : Config) (a : Attempt) : Config :=
  if !c.finalizer then c
  else match syncSecrets job a c.targets with
    | (targets,false) => {c with targets := targets}
    | (targets,true) => ⟨targets,decide (a.removeFinalizer=.refused),true⟩

def finalizes (job : Owner) (c : Config) (a : Attempt) (c' : Config) : Prop := finalize job c a=c'

structure Copy where
  name : String
  sourceUID : String
  source : List Char
  data : String
  deleting : Bool
  jobs : List Key
  nodup : jobs.Nodup
  plain : ∀ k∈jobs,k.Plain

def Copy.stored (c : Copy) (jobs : List Key) : Secret :=
  ⟨c.name,c.sourceUID,c.source,referenceText jobs,c.data,c.deleting⟩

/- Nothing if the job was the only one, and otherwise the same copy for the other jobs. A copy that
is being deleted is left alone. -/
def Released (job : Key) (c : Copy) (found : Option Secret) : Prop :=
  if c.deleting ∨ job∉c.jobs then found=some (c.stored c.jobs)
  else if ∀ k∈c.jobs,k=job then found=none
  else ∃ jobs : List Key,jobs.Perm (c.jobs.filter fun k => k≠job) ∧ found=some (c.stored jobs)

def IsFor (job : Owner) (c : Copy) : Prop := c.deleting=false ∧ job.key∈c.jobs

variable {job : Owner} {c : Copy} {jobs : List Key}

theorem referenceSet_stored (hsub : jobs ⊆ c.jobs) (hnd : jobs.Nodup) (hne : jobs≠[]) :
    referenceSet (c.stored jobs).references=jobs :=
  referenceSet_referenceText (fun k hk => c.plain k (hsub hk)) hnd hne

theorem heldBy_stored (hsub : jobs ⊆ c.jobs) (hnd : jobs.Nodup) :
    heldBy job (c.stored jobs) ↔ c.deleting=false ∧ job.key∈jobs := by
  have hmem : job.key∈referenceSet (c.stored jobs).references ↔ job.key∈jobs := by
    by_cases hne : jobs=[]
    · subst hne
      rw [show (c.stored []).references=referenceText [] from rfl,referenceSet_empty, mem_singleton]
      refine ⟨fun h => absurd ?_ job.named,fun h => by cases h⟩
      rw [h]
    · rw [referenceSet_stored hsub hnd hne]
  unfold heldBy
  rw [Bool.and_eq_true,decide_eq_true_eq,hmem,Bool.not_eq_true']
  rfl

theorem heldBy_of_released {t : Secret} (h : Released job.key c (some t)) : heldBy job t=false := by
  unfold Released at h
  by_cases hl : c.deleting ∨ job.key∉c.jobs
  · rw [if_pos hl,Option.some.injEq] at h
    rw [h,← Bool.not_eq_true,heldBy_stored (.refl _) c.nodup]
    rintro ⟨hlive,hmem⟩
    rcases hl with hd | hn
    · rw [hlive] at hd
      cases hd
    · exact hn hmem
  · rw [if_neg hl] at h
    by_cases hsole : ∀ k∈c.jobs,k=job.key
    · rw [if_pos hsole] at h
      cases h
    · rw [if_neg hsole] at h
      obtain ⟨jobs,hperm,hsto⟩ := h
      have hsub : jobs ⊆ c.jobs := fun k hk => mem_of_mem_filter (hperm.subset hk)
      have hnd : jobs.Nodup := hperm.nodup_iff.mpr (c.nodup.filter _)
      rw [Option.some.inj hsto,← Bool.not_eq_true,heldBy_stored hsub hnd]
      rintro ⟨-,hmem⟩
      exact of_decide_eq_true (mem_filter.mp (hperm.subset hmem)).2 rfl

theorem released_of_not_isFor (h : ¬IsFor job c) : Released job.key c (some (c.stored c.jobs)) := by
  unfold Released
  rw [if_pos]
  by_contra hboth
  push Not at hboth
  exact h ⟨by simpa using hboth.1,hboth.2⟩

theorem filter_eq_nil_iff (hm : job.key∈c.jobs) : (c.jobs.filter fun k => k≠job.key)=[] ↔ c.jobs=[job.key] := by
  rw [List.filter_eq_nil_iff]
  constructor
  · intro h
    refine perm_singleton.mp ((perm_ext_iff_of_nodup c.nodup (by simp)).mpr ?_)
    intro k
    rw [mem_singleton]
    refine ⟨fun hk => by simpa using h k hk,fun hk => hk ▸ hm⟩
  · intro h k hk
    rw [h,mem_singleton] at hk
    simpa using hk

theorem released_none (hf : IsFor job c) (hsole : c.jobs=[job.key]) : Released job.key c none := by
  unfold Released
  rw [if_neg,if_pos]
  · intro k hk
    rw [hsole] at hk
    exact mem_singleton.mp hk
  · simp [hf.1,hf.2]

theorem released_some (hf : IsFor job c) (hshr : c.jobs≠[job.key])
    (hperm : jobs.Perm (c.jobs.filter fun k => k≠job.key)) : Released job.key c (some (c.stored jobs)) := by
  unfold Released
  rw [if_neg,if_neg]
  · exact ⟨jobs,hperm,rfl⟩
  · intro ha
    refine hshr ((filter_eq_nil_iff hf.2).mp (List.filter_eq_nil_iff.mpr ?_))
    intro k hk
    simpa using ha k hk
  · simp [hf.1,hf.2]

/- What may be found under the name of a copy while attempts fail. -/
def Kept (job : Key) (c : Copy) (found : Option Secret) : Prop :=
  found=some (c.stored c.jobs) ∨ Released job c found

/- The replies under which an attempt on a copy that is for the job alone can be repeated. -/
def Repeatable (job : Owner) (a : Attempt) (t : Secret) : Prop :=
  referenceSet t.references=[job.key] →
    a.update t.name=.refused ∨ a.update t.name=.ok ∧ a.delete t.name≠.refused

structure TurnSpec (job : Owner) (c : Copy) (before : List Secret) (after : List Secret × Turn) : Prop where
  names : (after.1.map Secret.name).Sublist (before.map Secret.name)
  others : ∀ n,n≠c.name → findKey Secret.name n after.1=findKey Secret.name n before
  kept : Kept job.key c (findKey Secret.name c.name after.1)
  released : after.2≠.failed → Released job.key c (findKey Secret.name c.name after.1)
  shared : after.2=.done → referenceSet (c.stored c.jobs).references≠[job.key]

variable {a : Attempt} {secrets targets : List Secret}

theorem turnSpec_updated {turn : Turn} (hf : IsFor job c)
    (hfnd : findKey Secret.name c.name targets=some (c.stored c.jobs))
    (hshr : c.jobs≠[job.key]) (hperm : jobs.Perm (c.jobs.filter fun k => k≠job.key)) :
    TurnSpec job c targets (replaceKey Secret.name (c.stored jobs) targets,turn) := by
  have hname : (c.stored jobs).name∈targets.map Secret.name := by
    obtain ⟨hm,hn⟩ := findKey_some hfnd
    exact mem_map.mpr ⟨_,hm,hn⟩
  have hself : findKey Secret.name c.name (replaceKey Secret.name (c.stored jobs) targets) =
      some (c.stored jobs) := findKey_replaceKey_self hname
  have hr:=released_some hf hshr hperm
  refine ⟨?_,?_,?_,?_,?_⟩
  · rw [map_key_replaceKey]
  · intro n hn
    exact @findKey_replaceKey_of_ne _ _ _ Secret.name (c.stored jobs) n hn targets
  · exact .inr (hself ▸ hr)
  · intro _
    exact hself ▸ hr
  · intro _
    rw [referenceSet_stored (.refl _) c.nodup (ne_nil_of_mem hf.2)]
    exact hshr

theorem turnSpec_deleted {turn : Turn} (hf : IsFor job c) (hsole : c.jobs=[job.key]) (ht : turn≠.done) :
    TurnSpec job c targets (deleteSecret (replaceKey Secret.name (c.stored jobs) targets) c.name,turn) := by
  have hself : findKey Secret.name c.name
      (deleteSecret (replaceKey Secret.name (c.stored jobs) targets) c.name)=none :=
    findKey_filter_self Secret.name c.name _
  have hr:=released_none hf hsole
  refine ⟨?_,?_,?_,?_,?_⟩
  · have hsub:=(@filter_sublist _ (fun t : Secret => decide (t.name≠c.name))
      (replaceKey Secret.name (c.stored jobs) targets)).map Secret.name
    rwa [map_key_replaceKey] at hsub
  · intro n hn
    exact (findKey_filter_of_ne hn _).trans
      (@findKey_replaceKey_of_ne _ _ _ Secret.name (c.stored jobs) n hn targets)
  · exact .inr (hself ▸ hr)
  · intro _
    exact hself ▸ hr
  · intro hd
    exact absurd hd ht

theorem releaseSecret_spec (hf : IsFor job c) (hfnd : findKey Secret.name c.name targets=some (c.stored c.jobs))
    (hr : Repeatable job a (c.stored c.jobs)) :
    TurnSpec job c targets (releaseSecret job.key a targets (c.stored c.jobs)) := by
  have href : referenceSet (c.stored c.jobs).references=c.jobs :=
    referenceSet_stored (.refl _) c.nodup (ne_nil_of_mem hf.2)
  have hcon : decide (job.key∈c.jobs) := decide_eq_true hf.2
  have hperm:=a.write_perm c.name (c.jobs.filter fun k => k≠job.key)
  have hn:=filter_eq_nil_iff hf.2
  have hu : TurnSpec job c targets (targets,.failed) :=
    ⟨.refl _,fun _ _ => rfl,.inl hfnd,fun h => absurd rfl h,by simp⟩
  have hname : (c.stored c.jobs).name=c.name := rfl
  unfold Repeatable at hr
  unfold releaseSecret
  simp only [href,hcon,hname,if_true] at hr ⊢
  cases hupd : a.update c.name with
  | refused => exact hu
  | lost =>
    have hshr : c.jobs≠[job.key] := by
      intro hsole
      rw [hupd] at hr
      simpa using hr hsole
    exact turnSpec_updated hf hfnd hshr hperm
  | ok =>
    by_cases hsole : c.jobs=[job.key]
    · have hd : a.delete c.name≠.refused := by
        rw [hupd] at hr
        simpa using hr hsole
      rw [if_neg (by simpa using hn.mpr hsole)]
      cases hreply : a.delete c.name with
      | refused => exact absurd hreply hd
      | lost => exact turnSpec_deleted hf hsole (by decide)
      | ok => exact turnSpec_deleted hf hsole (by decide)
    · rw [if_pos (fun h => hsole (hn.mp h))]
      exact turnSpec_updated hf hfnd hsole hperm

variable {copies : List Copy}

structure Visits (job : Owner) (copies : List Copy) (a : Attempt) (secrets targets : List Secret) : Prop where
  names : (secrets.map Secret.name).Nodup
  copies : ∀ t∈secrets,∃ c∈copies,IsFor job c ∧ t=c.stored c.jobs
  found : ∀ t∈secrets,findKey Secret.name t.name targets=some t
  replies : ∀ t∈secrets,Repeatable job a t
  sharedLast : ∀ t∈secrets.dropLast,referenceSet t.references=[job.key]

structure LoopSpec (job : Owner) (copies : List Copy) (secrets before : List Secret)
    (after : List Secret × Bool) : Prop where
  names : (after.1.map Secret.name).Sublist (before.map Secret.name)
  others : ∀ n,n∉secrets.map Secret.name →
    findKey Secret.name n after.1=findKey Secret.name n before
  kept : ∀ c∈copies,c.stored c.jobs∈secrets →
    Kept job.key c (findKey Secret.name c.name after.1)
  released : after.2 → ∀ c∈copies,c.stored c.jobs∈secrets →
    Released job.key c (findKey Secret.name c.name after.1)

variable {before after : List Secret}

theorem Visits.tail {t : Secret} (h : Visits job copies a (t::secrets) before)
    (ho : ∀ n,n≠t.name → findKey Secret.name n after=findKey Secret.name n before) :
    Visits job copies a secrets after := by
  have hnd:=nodup_cons.mp (map_cons ▸ h.names)
  refine ⟨hnd.2,fun u hu => h.copies u (mem_cons_of_mem t hu),?_, fun u hu => h.replies u (mem_cons_of_mem t hu),?_⟩
  · intro u hu
    rw [ho u.name,h.found u (mem_cons_of_mem t hu)]
    intro hn
    exact hnd.1 (hn ▸ mem_map_of_mem hu)
  · intro u hu
    refine h.sharedLast u ?_
    cases secrets with
    | nil => cases hu
    | cons v secrets =>
      exact mem_cons_of_mem t hu

theorem copy_eq_or_mem (hcop : (copies.map Copy.name).Nodup) {c d : Copy} (hc : c∈copies)
    (hd : d∈copies) (hm : d.stored d.jobs∈c.stored c.jobs::secrets) : d=c ∨ d.stored d.jobs∈secrets := by
  obtain heq | hr := mem_cons.mp hm
  · exact .inl (inj_on_of_nodup_map hcop hd hc (congrArg Secret.name heq))
  · exact .inr hr

theorem releaseTargetSecrets_spec (hcop : (copies.map Copy.name).Nodup) (h : Visits job copies a secrets targets) :
    LoopSpec job copies secrets targets (releaseTargetSecrets job.key a secrets targets) := by
  induction secrets generalizing targets with
  | nil => exact ⟨.refl _,fun _ _ => rfl,fun _ _ => nofun,fun _ _ _ => nofun⟩
  | cons t secrets ih =>
    obtain ⟨c,hc,hf,rfl⟩ := h.copies t mem_cons_self
    have ht:=releaseSecret_spec hf (h.found _ mem_cons_self) (h.replies _ mem_cons_self)
    have hnotin : c.name∉secrets.map Secret.name := by
      have hnd:=h.names
      rw [map_cons,nodup_cons] at hnd
      exact hnd.1
    unfold releaseTargetSecrets
    generalize releaseSecret job.key a targets (c.stored c.jobs)=result at ht ⊢
    obtain ⟨after,turn⟩ := result
    have htail:=h.tail ht.others
    cases turn with
    | goOn =>
      have hl:=ih htail
      have hc_after:=hl.others c.name hnotin
      refine ⟨hl.names.trans ht.names,?_,?_,?_⟩
      · intro n hn
        rw [map_cons,mem_cons,not_or] at hn
        rw [hl.others n hn.2,ht.others n hn.1]
      · intro d hd hm
        obtain rfl | hr := copy_eq_or_mem hcop hc hd hm
        · exact .inr (hc_after ▸ ht.released (by simp))
        · exact hl.kept d hd hr
      · intro hok d hd hm
        obtain rfl | hr := copy_eq_or_mem hcop hc hd hm
        · exact hc_after ▸ ht.released (by simp)
        · exact hl.released hok d hd hr
    | done =>
      have hlast : secrets=[] := by
        cases secrets with
        | nil => rfl
        | cons u secrets =>
          exact absurd (h.sharedLast _ (by simp)) (ht.shared rfl)
      subst hlast
      refine ⟨ht.names,?_,?_,?_⟩
      · intro n hn
        rw [map_singleton,mem_singleton] at hn
        exact ht.others n hn
      · intro d hd hm
        obtain rfl := (copy_eq_or_mem hcop hc hd hm).resolve_right not_mem_nil
        exact ht.kept
      · intro _ d hd hm
        obtain rfl := (copy_eq_or_mem hcop hc hd hm).resolve_right not_mem_nil
        exact ht.released (by simp)
    | failed =>
      refine ⟨ht.names,?_,?_,nofun⟩
      · intro n hn
        rw [map_cons,mem_cons,not_or] at hn
        exact ht.others n hn.1
      · intro d hd hm
        obtain rfl | hr := copy_eq_or_mem hcop hc hd hm
        · exact ht.kept
        · exact .inl (htail.found _ hr)

theorem Visits.frame (h : Visits job copies a secrets before)
    (ho : ∀ t∈secrets,findKey Secret.name t.name after=findKey Secret.name t.name before) :
    Visits job copies a secrets after :=
  ⟨h.names,h.copies,fun t ht => (ho t ht).trans (h.found t ht),h.replies,h.sharedLast⟩

theorem Visits.mem_or (hcop : (copies.map Copy.name).Nodup)
    (h : Visits job copies a secrets targets) (hc : c∈copies) :
    c.stored c.jobs∈secrets ∨ c.name∉secrets.map Secret.name := by
  by_contra hn
  push Not at hn
  obtain ⟨t,ht,hname⟩ := mem_map.mp hn.2
  obtain ⟨d,hd,-,rfl⟩ := h.copies t ht
  obtain rfl := inj_on_of_nodup_map hcop hd hc hname
  exact hn.1 ht

end Kruise.ImagePullJob
