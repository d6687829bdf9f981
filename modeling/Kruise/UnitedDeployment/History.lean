import Kruise.UnitedDeployment.Revisions

/-!
# A history that can be used

The clean-up of `constructUnitedDeploymentRevisions`
(`pkg/controller/uniteddeployment/revision.go` 79-174) spares the current and the updated
revision, but what it hands on is cut by position: a spared revision among the oldest is stored
and yet not seen by the searches after it.
-/

namespace Kruise.UnitedDeployment

open Lib.Keyed List

namespace RevisionCall

variable (c : RevisionCall)

section

variable (stored : List ControllerRevision)

def firstCount : Int := c.collisionCount.getD 0

def equalRevisions : List ControllerRevision :=
  findEqualRevisions (c.kept stored)
    (c.newRevision (nextRevision (c.kept stored)) c.firstCount)

def renumbered (equal : ControllerRevision) : ControllerRevision :=
  {equal with revision := nextRevision (c.kept stored)}

variable {c stored}

theorem data_of_equalRevision {lhs rhs : ControllerRevision} (h : equalRevision lhs rhs) : lhs.data=rhs.data := by
  exact of_decide_eq_true (Bool.and_eq_true_iff.mp h).2

theorem mem_equalRevisions {r : ControllerRevision} (h : r∈c.equalRevisions stored) :
    r∈c.kept stored ∧ r.data=c.template := by
  obtain ⟨hm,he⟩ := mem_filter.mp h
  exact ⟨hm,data_of_equalRevision he⟩

/- The last revision, an older one that gets the next number, or the outcome of a creation. -/
inductive Chosen (c : RevisionCall) (stored : List ControllerRevision) :
    ControllerRevision → List ControllerRevision → List ControllerRevision → Prop
  | last (last : ControllerRevision) (hlast : (c.kept stored).getLast?=some last)
    (hdata : last.data=c.template) (hequal : c.equalRevisions stored≠[]) :
    Chosen c stored last (c.kept stored) (c.remaining stored)
  | rolledBack (equal last : ControllerRevision)
    (hlast : (c.kept stored).getLast?=some last) (hmem : equal∈c.equalRevisions stored)
    (hnonneg : 0≤nextRevision (c.kept stored)) :
    Chosen c stored (c.renumbered stored equal)
      (replaceKey ControllerRevision.name (c.renumbered stored equal) (c.kept stored))
      (replaceKey ControllerRevision.name (c.renumbered stored equal) (c.remaining stored))
  | created (update : ControllerRevision) (stored' : List ControllerRevision)
    (hequal : c.equalRevisions stored=[])
    (hcreated : Created c (c.newRevision (nextRevision (c.kept stored)) c.firstCount)
      (c.remaining stored) c.firstCount update stored') :
    Chosen c stored update (c.kept stored) stored'

variable {fuel : Nat}

theorem chooseUpdate_of_nil (h : c.equalRevisions stored=[]) :
    c.chooseUpdate fuel (c.kept stored) (c.remaining stored) =
      (c.createControllerRevision (c.newRevision (nextRevision (c.kept stored)) c.firstCount)
        (c.remaining stored) fuel c.firstCount).map fun created =>
          (created.1,c.kept stored,created.2.1,created.2.2) := by
  unfold equalRevisions firstCount at h
  unfold chooseUpdate firstCount
  dsimp only
  rw [h]
  rfl

theorem chooseUpdate_of_ne_nil (fuel : Nat) (h : c.equalRevisions stored≠[]) :
    ∃ equal last,equal∈c.equalRevisions stored ∧ (c.kept stored).getLast?=some last ∧
      c.chooseUpdate fuel (c.kept stored) (c.remaining stored) =
        if equalRevision last equal then
          .ok (last,c.kept stored,c.firstCount,c.remaining stored)
        else if c.api.update (c.renumbered stored equal) then
          .ok (c.renumbered stored equal,
            replaceKey ControllerRevision.name (c.renumbered stored equal) (c.kept stored),c.firstCount,
            replaceKey ControllerRevision.name (c.renumbered stored equal) (c.remaining stored))
        else .error .api := by
  have he:=List.getLast?_eq_some_getLast h
  have hm:=getLast_mem h
  have hk:=ne_nil_of_mem (mem_equalRevisions hm).1
  have hl:=List.getLast?_eq_some_getLast hk
  refine ⟨_,_,hm,hl,?_⟩
  unfold equalRevisions firstCount at he
  unfold chooseUpdate firstCount
  dsimp only
  rw [he,hl]
  rfl

theorem chooseUpdate_chosen (hnames : (stored.map ControllerRevision.name).Nodup)
    (hf : c.equalRevisions stored=[] → c.FindsName (c.remaining stored) c.firstCount fuel)
    (ha : c.chooseUpdate fuel (c.kept stored) (c.remaining stored)≠.error .api) :
    ∃ update revisions count stored',
      c.chooseUpdate fuel (c.kept stored) (c.remaining stored)=.ok (update,revisions,count,stored') ∧
        Chosen c stored update revisions stored' := by
  by_cases he : c.equalRevisions stored=[]
  · rw [chooseUpdate_of_nil he] at ha ⊢
    obtain ⟨created,count,stored',hok,hcreated⟩ :=
      createControllerRevision_created (nodup_remaining hnames) rfl (hf he) (fun herr => ha (by rw [herr]; rfl))
    rw [hok]
    exact ⟨_,_,_,_,rfl,.created _ _ he hcreated⟩
  · obtain ⟨equal,last,hm,hl,hcho⟩ := chooseUpdate_of_ne_nil fuel he
    rw [hcho] at ha ⊢
    split_ifs at ha ⊢ with hsame hu
    · refine ⟨_,_,_,_,rfl,.last _ hl ?_ he⟩
      exact (data_of_equalRevision hsame).trans (mem_equalRevisions hm).2
    · exact ⟨_,_,_,_,rfl,.rolledBack equal last hl hm (c.api.update_nonneg _ hu)⟩
    · exact absurd rfl ha

theorem construct_chosen (hnames : (stored.map ControllerRevision.name).Nodup)
    (hf : c.equalRevisions stored=[] → c.FindsName (c.remaining stored) c.firstCount fuel)
    (ha : c.constructUnitedDeploymentRevisions fuel stored≠.error .api) :
    ∃ outcome,c.constructUnitedDeploymentRevisions fuel stored=.ok outcome ∧ outcome.deleted=c.expired stored ∧
      outcome.currentRevision=(findKey ControllerRevision.name c.currentRevision
        outcome.revisions).getD outcome.updateRevision ∧
      Chosen c stored outcome.updateRevision outcome.revisions outcome.stored := by
  unfold constructUnitedDeploymentRevisions at ha ⊢
  rw [← history] at ha ⊢
  by_cases hl : (!c.api.list)
  · rw [if_pos hl] at ha
    exact absurd rfl ha
  rw [if_neg hl] at ha ⊢
  cases hclean : c.cleanExpiredRevision (history stored) with
  | none =>
    rw [hclean] at ha
    exact absurd rfl ha
  | some cleaned =>
    obtain ⟨deleted,revisions⟩ := cleaned
    obtain ⟨rfl,rfl⟩ := cleanExpiredRevision_some hclean
    rw [hclean] at ha
    dsimp only at ha ⊢
    rw [← remaining] at ha ⊢
    obtain ⟨update,revisions,count,stored',hok,hcho⟩ :=
      chooseUpdate_chosen hnames hf (fun herr => ha (by rw [herr]; rfl))
    rw [hok]
    exact ⟨_,rfl,rfl,rfl,hcho⟩

end

structure KeepsHistory (stored : List ControllerRevision) (outcome : RevisionOutcome) : Prop where
  live : ∀ r∈stored,r.name=c.currentRevision ∨ c.updatedRevision=some r.name →
    r.name∉outcome.deleted
  current : ∀ r∈stored,r.controlled → r.name=c.currentRevision →
    outcome.currentRevision∈outcome.stored ∧ outcome.currentRevision.name=c.currentRevision
  template : outcome.updateRevision.data=c.template
  newest : outcome.updateRevision∈outcome.stored ∧ ∀ r∈outcome.stored,r.controlled →
    r.revision≤outcome.updateRevision.revision

/- No current revision is cut off, unless the template leads back to it, and the number of the
template's revision is the largest. -/
structure HistoryIntact (stored : List ControllerRevision) : Prop where
  found : c.equalRevisions stored≠[] → ∀ r∈c.cutOff stored,r.name≠c.currentRevision
  reused : c.equalRevisions stored=[] →
    ∀ found,c.Reuses (c.remaining stored) c.firstCount found →
      (∀ r∈c.cutOff stored,r.name=c.currentRevision → r=found) ∧
      ∀ r∈c.remaining stored,r.controlled → r.revision≤found.revision
  created : c.equalRevisions stored=[] →
    (∀ found,¬c.Reuses (c.remaining stored) c.firstCount found) →
      (∀ r∈c.cutOff stored,r.name≠c.currentRevision) ∧
      (c.kept stored=[] → ∀ r∈c.remaining stored,r.controlled → r.revision≤1)

section

variable {c} {stored : List ControllerRevision} {update : ControllerRevision}
  {revisions stored' : List ControllerRevision}

variable {r : ControllerRevision}

theorem mem_of_cutOff (hr : r∈c.cutOff stored) :
    r∈stored ∧ r.controlled := mem_history.mp (mem_history_iff.mpr (.inl hr))

theorem mem_remaining_of_current (hr : r∈c.cutOff stored) (hn : r.name=c.currentRevision) :
    r∈c.remaining stored := by
  have hl : c.isLive r.name := by simp [isLive,hn]
  exact mem_filter.mpr ⟨(mem_of_cutOff hr).1,by
    simpa using notMem_expired_of_isLive hl⟩

variable (hnames : (stored.map ControllerRevision.name).Nodup)
include hnames

theorem cutOff_of_kept (hr : r∈c.kept stored) (hn : r.name=update.name) :
    (∀ t∈c.cutOff stored,t.name=c.currentRevision → update.name=t.name) ↔
      ∀ t∈c.cutOff stored,t.name≠c.currentRevision := by
  constructor
  · intro h t ht hcur
    exact name_ne_of_cutOff hnames ht hr (hn.trans (h t ht hcur))
  · intro h t ht hcur
    exact absurd hcur (h t ht)

/- What a call may miss: the template leads to the current revision if that is cut off, and to the
largest number. -/
def Leads (c : RevisionCall) (stored : List ControllerRevision) (update : ControllerRevision)
    (stored' : List ControllerRevision) : Prop :=
  (∀ r∈c.cutOff stored,r.name=c.currentRevision → update.name=r.name) ∧
    ∀ r∈stored',r.controlled → r.revision≤update.revision

structure Settled (c : RevisionCall) (stored : List ControllerRevision)
    (update : ControllerRevision) (revisions stored' : List ControllerRevision) : Prop where
  names : revisions.map ControllerRevision.name=(c.kept stored).map ControllerRevision.name
  subset : ∀ r∈revisions,r∈stored'
  data : update.data=c.template
  mem : update∈stored'

theorem Chosen.settled (h : Chosen c stored update revisions stored') :
    Settled c stored update revisions stored' := by
  cases h with
  | last _ hl hd he =>
    have hm : update∈c.kept stored := mem_of_getLast? hl
    exact ⟨rfl,fun r hr => mem_remaining_of_kept hnames hr,hd,mem_remaining_of_kept hnames hm⟩
  | rolledBack equal last hl hm hnonneg =>
    obtain ⟨hk,hd⟩ := mem_equalRevisions hm
    have hremaining:=mem_remaining_of_kept hnames hk
    have hi (r : ControllerRevision) := mem_replaceKey_iff (y := r)
      (x := c.renumbered stored equal)
      (nodup_remaining (c := c) hnames) (mem_map.mpr ⟨equal,hremaining,rfl⟩)
    refine ⟨map_key_replaceKey _ _ _,?_,hd,(hi _).mpr (.inl rfl)⟩
    intro r hr
    rw [hi]
    have hnd : ((c.kept stored).map ControllerRevision.name).Nodup :=
      (nodup_history hnames).sublist ((drop_sublist _ _).map _)
    rcases mem_replaceKey hnd hr with heq | ⟨hr,hne⟩
    · exact .inl heq
    · exact .inr ⟨mem_remaining_of_kept hnames hr,hne⟩
  | created _ _ he hcreated =>
    cases hcreated with
    | reused hreu =>
      exact ⟨rfl,fun r hr => mem_remaining_of_kept hnames hr,hreu.2.1,hreu.1⟩
    | fresh hn hname hd hrevision hnonneg =>
      exact ⟨rfl,fun r hr => mem_append_left _ (mem_remaining_of_kept hnames hr),hd,
        mem_append_right _ (mem_singleton_self _)⟩

theorem keepsHistory_iff {outcome : RevisionOutcome} (hd : outcome.deleted=c.expired stored)
    (hcur : outcome.currentRevision=(findKey ControllerRevision.name c.currentRevision
        outcome.revisions).getD outcome.updateRevision)
    (h : Settled c stored outcome.updateRevision outcome.revisions outcome.stored) :
    c.KeepsHistory stored outcome ↔ Leads c stored outcome.updateRevision outcome.stored := by
  -- the search for a current revision that is cut off fails
  have hm : ∀ r∈c.cutOff stored,r.name=c.currentRevision → outcome.currentRevision=outcome.updateRevision := by
    intro r hr hname
    rw [hcur,findKey_eq_none,Option.getD_none]
    rw [h.names,← hname]
    intro hmem
    obtain ⟨r',hr',hsame⟩ := mem_map.mp hmem
    exact name_ne_of_cutOff hnames hr hr' hsame
  constructor
  · intro hkp
    refine ⟨fun r hr hname => ?_,hkp.newest.2⟩
    obtain ⟨hmem,hctl⟩ := mem_of_cutOff hr
    obtain ⟨-,hsame⟩ := hkp.current r hmem hctl hname
    rw [← hm r hr hname,hsame,hname]
  · rintro ⟨hcut,hn⟩
    refine ⟨?_,?_,h.data,h.mem,hn⟩
    · intro r _ hl
      rw [hd]
      refine notMem_expired_of_isLive ?_
      rcases hl with hl | hl <;> simp [isLive,hl]
    · intro r hr hctl hname
      rcases mem_history_iff.mp (mem_history.mpr ⟨hr,hctl⟩) with ho | hk
      · rw [hm r ho hname]
        exact ⟨h.mem,(hcut r ho hname).trans hname⟩
      · have hmem : c.currentRevision∈outcome.revisions.map ControllerRevision.name := by
          rw [h.names,← hname]
          exact mem_map_of_mem hk
        obtain ⟨current,hf⟩ := findKey_isSome hmem
        obtain ⟨hin,hsame⟩ := findKey_some hf
        rw [hcur,hf,Option.getD_some]
        exact ⟨h.subset current hin,hsame⟩

omit hnames in
theorem HistoryIntact.of_found (he : c.equalRevisions stored≠[])
    (hcut : ∀ r∈c.cutOff stored,r.name≠c.currentRevision) : c.HistoryIntact stored :=
  ⟨fun _ => hcut,fun hn => absurd hn he,fun hn => absurd hn he⟩

theorem intact_iff_of_found (he : c.equalRevisions stored≠[]) (hr : r∈c.kept stored) (hname : r.name=update.name)
    (hn : ∀ r∈stored',r.controlled → r.revision≤update.revision) :
    Leads c stored update stored' ↔ c.HistoryIntact stored := by
  rw [Leads,cutOff_of_kept hnames hr hname]
  constructor
  · rintro ⟨hcut,-⟩
    exact .of_found he hcut
  · intro hi
    exact ⟨hi.found he,hn⟩

theorem intact_iff_of_reused (he : c.equalRevisions stored=[])
    (hreu : c.Reuses (c.remaining stored) c.firstCount update) :
    Leads c stored update (c.remaining stored) ↔ c.HistoryIntact stored := by
  have hsame : ∀ r∈c.cutOff stored,r.name=c.currentRevision → (update.name=r.name ↔ r=update) := by
    intro r hr hname
    constructor
    · intro heq
      exact (inj_on_of_nodup_map (nodup_remaining hnames) hreu.1 (mem_remaining_of_current hr hname) heq).symm
    · rintro rfl
      rfl
  constructor
  · rintro ⟨hcut,hn⟩
    refine ⟨fun hne => absurd he hne,?_,fun _ hnone => absurd hreu (hnone update)⟩
    intro _ found hf
    obtain rfl := hreu.unique (nodup_remaining hnames) hf
    exact ⟨fun r hr hname => (hsame r hr hname).mp (hcut r hr hname),hn⟩
  · intro hi
    obtain ⟨hcut,hn⟩ := hi.reused he update hreu
    exact ⟨fun r hr hname => (hsame r hr hname).mpr (hcut r hr hname),hn⟩

omit hnames in
theorem intact_iff_of_fresh (hequal : c.equalRevisions stored=[])
    (hn : ∀ found,¬c.Reuses (c.remaining stored) c.firstCount found)
    (hname : update.name∉(c.remaining stored).map ControllerRevision.name)
    (hnum : update.revision=nextRevision (c.kept stored))
    (hnext : ∀ last,(c.kept stored).getLast?=some last → last.revision<update.revision) :
    Leads c stored update (c.remaining stored++[update]) ↔ c.HistoryIntact stored := by
  have hnew : ∀ r∈c.cutOff stored,r.name=c.currentRevision → update.name≠r.name := by
    intro r hr hcur heq
    refine hname ?_
    rw [heq]
    exact mem_map_of_mem (mem_remaining_of_current hr hcur)
  constructor
  · rintro ⟨hcut,hnst⟩
    refine ⟨fun hne => absurd hequal hne,fun _ found hf => absurd hf (hn found),?_⟩
    refine fun _ _ => ⟨fun r hr hcur => hnew r hr hcur (hcut r hr hcur),?_⟩
    intro he r hr hctl
    have hle:=hnst r (mem_append_left _ hr) hctl
    rw [hnum,he] at hle
    exact hle
  · intro hi
    obtain ⟨hcut,hfst⟩ := hi.created hequal hn
    refine ⟨fun r hr hcur => absurd hcur (hcut r hr),?_⟩
    intro r hr hctl
    rcases mem_append.mp hr with hr | hr
    · cases hl : (c.kept stored).getLast? with
      | none =>
        have he:=List.getLast?_eq_none_iff.mp hl
        rw [hnum,he]
        exact hfst he r hr hctl
      | some last => exact (revision_le_last hl hr hctl).trans (hnext last hl).le
    · rw [mem_singleton.mp hr]

theorem Chosen.intact_iff (hi : ∀ r∈stored,-(2^63)≤r.revision ∧ r.revision<2^63)
    (h : Chosen c stored update revisions stored') : Leads c stored update stored' ↔ c.HistoryIntact stored := by
  have hg : ∀ last,(c.kept stored).getLast?=some last →
      0≤nextRevision (c.kept stored) → last.revision<nextRevision (c.kept stored) := by
    intro last hl
    have hk:=mem_of_getLast? hl
    exact nextRevision_gt hl (hi last (mem_history.mp (mem_history_iff.mpr (.inr hk))).1)
  cases h with
  | last _ hl hd he =>
    exact intact_iff_of_found hnames he (mem_of_getLast? hl) rfl fun r hr hctl => revision_le_last hl hr hctl
  | rolledBack equal last hl hm hnonneg =>
    refine intact_iff_of_found hnames (ne_nil_of_mem hm) (mem_equalRevisions hm).1 rfl ?_
    intro r hr hctl
    rcases mem_replaceKey (nodup_remaining hnames) hr with rfl | ⟨hr,-⟩
    · exact le_refl _
    · exact (revision_le_last hl hr hctl).trans (hg last hl hnonneg).le
  | created _ _ he hcreated =>
    cases hcreated with
    | reused hreu => exact intact_iff_of_reused hnames he hreu
    | fresh hnone hname hd hrevision hnonneg =>
      have hn : update.revision=nextRevision (c.kept stored) := hrevision
      rw [hn] at hnonneg
      refine intact_iff_of_fresh he hnone hname hn fun last hl => ?_
      rw [hn]
      exact hg last hl hnonneg

end

/-- A call without API errors returns, and it keeps the history usable exactly when no current
revision is cut off that the template does not lead back to, and a revision that the creation runs
into or starts anew has the largest number. -/
theorem construct_keeps_history_iff (fuel : Nat) (stored : List ControllerRevision)
    (hnames : (stored.map ControllerRevision.name).Nodup)
    (hint64 : ∀ r∈stored,-(2^63)≤r.revision ∧ r.revision<2^63)
    (hfinds : c.equalRevisions stored=[] → c.FindsName (c.remaining stored) c.firstCount fuel)
    (hapi : c.constructUnitedDeploymentRevisions fuel stored≠.error .api) :
    ∃ outcome,c.constructUnitedDeploymentRevisions fuel stored=.ok outcome ∧
      (c.KeepsHistory stored outcome ↔ c.HistoryIntact stored) := by
  obtain ⟨outcome,hok,hd,hcur,hcho⟩ := construct_chosen hnames hfinds hapi
  refine ⟨outcome,hok,?_⟩
  rw [keepsHistory_iff hnames hd hcur (hcho.settled hnames)]
  exact hcho.intact_iff hnames hint64

def willingApi : RevisionApi where
  list := true
  delete := fun _ => true
  update := fun r => decide (0≤r.revision)
  create := fun r => decide (0≤r.revision)
  get := fun _ => true
  update_nonneg := fun _ h => of_decide_eq_true h
  create_nonneg := fun _ h => of_decide_eq_true h

def rollingOut (template : String) (limit : Nat) : RevisionCall where
  udName := "ud"
  template := template
  revisionHistoryLimit := limit
  currentRevision := "ud-a"
  updatedRevision := some "ud-b"
  collisionCount := none
  hash := fun data _ => data
  now := 0
  api := willingApi

def twoRevisions : List ControllerRevision :=
  [⟨"ud-a",1,0,some "a", "a",true⟩,⟨"ud-b",2,0,some "b", "b",true⟩]

def threeRevisions : List ControllerRevision := ⟨"ud-z",0,0,some "z", "z",true⟩::twoRevisions

/- `ud-z` is cleaned up, and a revision is created for the template. -/
theorem threeRevisions_kept : ∃ outcome,
    (rollingOut "c" 2).constructUnitedDeploymentRevisions 1 threeRevisions=.ok outcome ∧
      (rollingOut "c" 2).KeepsHistory threeRevisions outcome := by
  have hfinds : (rollingOut "c" 2).FindsName ((rollingOut "c" 2).remaining threeRevisions)
      (rollingOut "c" 2).firstCount 1 := ⟨0,by decide,by decide +kernel⟩
  obtain ⟨outcome,hok,hi⟩ := construct_keeps_history_iff (rollingOut "c" 2) 1 threeRevisions
    (by decide) (by decide) (fun _ => hfinds) (by
      intro he
      have hf : ((rollingOut "c" 2).constructUnitedDeploymentRevisions 1
        threeRevisions).toOption.isSome := by decide +kernel
      rw [he] at hf
      cases hf)
  refine ⟨outcome,hok,hi.mpr ⟨?_,?_,?_⟩⟩
  · intro hne
    exact absurd (by decide +kernel) hne
  · -- the stored revisions have other data than the template
    rintro _ found ⟨hm,hdata,-⟩
    have hnone : ∀ r∈(rollingOut "c" 2).remaining threeRevisions,r.data ≠ "c" := by decide +kernel
    exact absurd hdata (hnone found hm)
  · intro _ _
    exact ⟨by decide +kernel,fun he => absurd he (by decide +kernel)⟩

/- With room for one revision, the current one is stored and the updated one is returned for it. -/
theorem current_revision_cut_off :
    (((rollingOut "b" 1).constructUnitedDeploymentRevisions 1 twoRevisions).toOption.map
      fun outcome => (outcome.currentRevision.name,outcome.deleted,
        outcome.stored.map ControllerRevision.name))=some ("ud-b",[],["ud-a", "ud-b"]) ∧
    ∀ outcome,(rollingOut "b" 1).constructUnitedDeploymentRevisions 1 twoRevisions=.ok outcome →
      ¬(rollingOut "b" 1).KeepsHistory twoRevisions outcome := by
  have hr : (((rollingOut "b" 1).constructUnitedDeploymentRevisions 1 twoRevisions).toOption.map
      fun outcome => (outcome.currentRevision.name,outcome.deleted,
        outcome.stored.map ControllerRevision.name))=some ("ud-b",[],["ud-a", "ud-b"]) := by
    decide +kernel
  refine ⟨hr,fun outcome hok hkp => ?_⟩
  obtain ⟨-,hn⟩ := hkp.current ⟨"ud-a",1,0,some "a", "a",true⟩ mem_cons_self rfl rfl
  rw [hok] at hr
  have hret:=(Prod.mk.inj (Option.some.inj hr)).1
  rw [hn] at hret
  exact absurd hret (by decide)

/- A template that leads back to the cut off revision does not get a new number. -/
example : (((rollingOut "a" 1).constructUnitedDeploymentRevisions 1 twoRevisions).toOption.map
    fun outcome => (outcome.updateRevision.revision,
      outcome.stored.map ControllerRevision.revision))=some (1,[1,2]) := by decide +kernel

example : (((rollingOut "c" 0).constructUnitedDeploymentRevisions 1 twoRevisions).toOption.map
    fun outcome => (outcome.updateRevision.revision,
      outcome.stored.map ControllerRevision.revision))=some (1,[1,2,1]) := by decide +kernel

end RevisionCall

end Kruise.UnitedDeployment
