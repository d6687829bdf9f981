import Kruise.ImagePullJob.Sync

/-!
# The parallelism of an ImagePullJob

A pull is in flight while the job owns the tag and the daemon has reported no end of its version.
The budget counts the NodeImages listed as pulling. One in flight is missing there when its image
has a status without an entry for the tag, or when it lacks one of the secrets.
-/

namespace Kruise.ImagePullJob

open Lib.Keyed Lib.Transition Util.IntStr List

variable {job : Job} {uid tag : String} {secrets : List ReferenceObject} {ni : NodeImage}

def inFlight (uid tag : String) (ni : NodeImage) : Bool :=
  ni.image.any fun image => image.tags.any fun t =>
    decide (t.tag=tag)&&decide (uid∈t.owners)&&!isFinished tag t.version ni.status

def pullsInFlight (uid tag : String) (nodeImages : List NodeImage) : Nat :=
  nodeImages.countP (inFlight uid tag)

def hasEntry (tag : String) (ni : NodeImage) : Bool :=
  ni.status.all fun tags => tags.any fun st => decide (st.tag=tag)

def ListedOnce (uid tag : String) (secrets : List ReferenceObject) (nodeImages : List NodeImage)
    (ni : NodeImage) : Prop :=
  (namesOf uid tag secrets nodeImages .notSynced).count ni.name +
    (namesOf uid tag secrets nodeImages .pulling).count ni.name +
    (namesOf uid tag secrets nodeImages .succeeded).count ni.name +
    (namesOf uid tag secrets nodeImages .failed).count ni.name=1

theorem inFlight_iff : inFlight uid tag ni ↔
    ∃ image t,ni.image=some image ∧ t∈image.tags ∧ t.tag=tag ∧ uid∈t.owners ∧
      isFinished tag t.version ni.status=false := by
  unfold inFlight
  cases hi : ni.image with
  | none => simp
  | some image =>
    simp only [Option.any_some,any_eq_true,Bool.and_eq_true,decide_eq_true_eq, Bool.not_eq_true',Option.some.injEq]
    constructor
    · rintro ⟨t,ht,⟨htag,hown⟩,ho⟩
      exact ⟨image,t,rfl,ht,htag,hown,ho⟩
    · rintro ⟨image',t,rfl,ht,htag,hown,ho⟩
      exact ⟨t,ht,⟨htag,hown⟩,ho⟩

variable {tags : List TagSpec}

theorem ownedVersion_of_ne (h : ∀ t∈tags,t.tag≠tag) (v : Int) : ownedVersion uid tag tags v=v := by
  induction tags with
  | nil => rfl
  | cons t tags ih =>
    unfold ownedVersion
    rw [if_pos (h t mem_cons_self)]
    exact ih fun s hs => h s (mem_cons_of_mem _ hs)

theorem ownedVersion_of_mem (hu : (tags.map TagSpec.tag).Nodup) {t : TagSpec} (ht : t∈tags)
    (htag : t.tag=tag) (ho : uid∈t.owners) (v : Int) : ownedVersion uid tag tags v=t.version := by
  induction tags with
  | nil => cases ht
  | cons s tags ih =>
    rw [map_cons,nodup_cons] at hu
    unfold ownedVersion
    rcases mem_cons.mp ht with rfl | ht
    · rw [if_neg (not_not_intro htag),if_pos ho]
      refine ownedVersion_of_ne ?_ _
      intro s hs hstag
      exact hu.1 ((htag.trans hstag.symm) ▸ mem_map_of_mem hs)
    · have hne : s.tag≠tag := by
        rintro rfl
        exact hu.1 (htag ▸ mem_map_of_mem ht)
      rw [if_pos hne]
      exact ih hu.2 ht

theorem mem_of_ownedVersion {v : Int} (h : ownedVersion uid tag tags v≠v) :
    ∃ t∈tags,t.tag=tag ∧ uid∈t.owners ∧ ownedVersion uid tag tags v=t.version := by
  induction tags generalizing v with
  | nil => exact absurd rfl h
  | cons t tags ih =>
    unfold ownedVersion at h ⊢
    split_ifs at h ⊢ with ht ho
    · obtain ⟨s,hs,hr⟩ := ih h
      exact ⟨s,mem_cons_of_mem _ hs,hr⟩
    · by_cases hsame : ownedVersion uid tag tags t.version=t.version
      · exact ⟨t,mem_cons_self,not_ne_iff.mp ht,ho,hsame⟩
      · obtain ⟨s,hs,hr⟩ := ih hsame
        exact ⟨s,mem_cons_of_mem _ hs,hr⟩
    · exact absurd rfl h

theorem classify_of_inFlight (hfl : inFlight uid tag ni)
    (hsec : secretsSynced secrets ni) (he : hasEntry tag ni) : classify uid tag secrets ni=some .pulling := by
  obtain ⟨image,t,hi,ht,htag,hown,ho⟩ := inFlight_iff.mp hfl
  have hver : tagVersion uid tag ni=t.version := by
    unfold tagVersion
    rw [hi]
    exact ownedVersion_of_mem image.valid.1 ht htag hown _
  have hnonneg : ¬t.version<0 := not_lt.mpr (image.valid.2 t ht)
  unfold classify
  rw [hsec,hver,if_neg (by simp),if_neg hnonneg]
  cases hsts : ni.status with
  | none => rfl
  | some tags =>
    simp only [hasEntry,hsts,Option.all_some,any_eq_true,decide_eq_true_eq] at he
    obtain ⟨st,hst⟩ := Option.isSome_iff_exists.mp
      (find?_isSome (p := fun st : TagStatus => decide (st.tag=tag)) |>.mpr
        (he.imp fun st h => ⟨h.1,decide_eq_true h.2⟩))
    simp only [isFinished,hsts,Option.bind_some,hst,Option.any_some] at ho
    simp only [hst,Option.map_some,Option.some.injEq]
    by_cases hsame : st.version=t.version
    · cases hph : st.phase <;> simp_all
    · rw [if_pos hsame]

theorem inFlight_of_classify_none (h : classify uid tag secrets ni=none) :
    inFlight uid tag ni ∧ hasEntry tag ni=false := by
  unfold classify at h
  split_ifs at h with hsec hver
  cases hsts : ni.status with
  | none => simp [hsts] at h
  | some tags =>
    simp only [hsts,Option.map_eq_none_iff] at h
    have he : hasEntry tag ni=false := by
      have hn:=List.find?_eq_none.mp h
      simp only [hasEntry,hsts,Option.all_some]
      exact any_eq_false.mpr hn
    refine ⟨inFlight_iff.mpr ?_,he⟩
    unfold tagVersion at hver
    cases hi : ni.image with
    | none => simp [hi] at hver
    | some image =>
      simp only [hi] at hver
      obtain ⟨t,ht,htag,ho,-⟩ := mem_of_ownedVersion (show ownedVersion uid tag image.tags (-1) ≠ -1 by omega)
      refine ⟨image,t,rfl,ht,htag,ho,?_⟩
      simp [isFinished,hsts,h]

theorem count_namesOf {nodeImages : List NodeImage} (hn : (nodeImages.map NodeImage.name).Nodup)
    (hni : ni∈nodeImages) (c : PullClass) :
    (namesOf uid tag secrets nodeImages c).count ni.name =
      if classify uid tag secrets ni=some c then 1 else 0 := by
  have hnd : (namesOf uid tag secrets nodeImages c).Nodup :=
    hn.sublist (filter_sublist.map NodeImage.name)
  split_ifs with hc
  · refine count_eq_one_of_mem hnd ?_
    exact mem_map_of_mem (mem_filter.mpr ⟨hni,decide_eq_true hc⟩)
  · refine count_eq_zero_of_not_mem ?_
    intro hm
    obtain ⟨other,ho,hname⟩ := mem_map.mp hm
    obtain ⟨ho,hcl⟩ := mem_filter.mp ho
    obtain rfl := inj_on_of_nodup_map hn ho hni hname
    exact hc (of_decide_eq_true hcl)

theorem listedOnce_of_classify {nodeImages : List NodeImage}
    (hn : (nodeImages.map NodeImage.name).Nodup) (hni : ni∈nodeImages)
    (h : classify uid tag secrets ni≠none) : ListedOnce uid tag secrets nodeImages ni := by
  obtain ⟨c,hc⟩ := Option.ne_none_iff_exists'.mp h
  unfold ListedOnce
  rw [count_namesOf hn hni,count_namesOf hn hni,count_namesOf hn hni,count_namesOf hn hni,hc]
  cases c <;> rfl

theorem name_of_syncNodeImage {ni' : NodeImage}
    (h : syncNodeImage uid tag secrets ni=.updated ni') : ni'.name=ni.name := by
  unfold syncNodeImage at h
  dsimp only at h
  split at h
  · split_ifs at h
    split at h
    · cases h
    · obtain rfl := SyncResult.updated.inj h
      rfl
  · split at h
    · cases h
    · obtain rfl := SyncResult.updated.inj h
      rfl

theorem syncLoop_le (updates : String → Bool) (names : List String)
    {nodeImages : List NodeImage} (hn : (nodeImages.map NodeImage.name).Nodup) :
    ((syncLoop uid tag secrets updates names nodeImages).1.map NodeImage.name).Nodup ∧
      pullsInFlight uid tag (syncLoop uid tag secrets updates names nodeImages).1 ≤
        pullsInFlight uid tag nodeImages+names.length := by
  induction names generalizing nodeImages with
  | nil => exact ⟨hn,le_rfl⟩
  | cons n names ih =>
    unfold syncLoop
    rw [length_cons]
    cases hf : findKey NodeImage.name n nodeImages with
    | none => exact ⟨hn,Nat.le_add_right _ _⟩
    | some ni =>
      dsimp only
      cases hsync : syncNodeImage uid tag secrets ni with
      | skip =>
        obtain ⟨hk,hle⟩ := ih hn
        exact ⟨hk,by dsimp only; omega⟩
      | rejected => exact ⟨hn,Nat.le_add_right _ _⟩
      | updated ni' =>
        split_ifs
        · have hname : ni'.name=n := (name_of_syncNodeImage hsync).trans (findKey_some hf).2
          have hcnt:=@countP_replaceKey _ _ _ NodeImage.name ni' ni nodeImages (inFlight uid tag) (hname ▸ hf)
          have hr : ((replaceKey NodeImage.name ni' nodeImages).map NodeImage.name).Nodup := by
            rwa [map_key_replaceKey]
          obtain ⟨hk,hle⟩ := ih hr
          refine ⟨hk,hle.trans ?_⟩
          unfold pullsInFlight
          split_ifs at hcnt <;> omega
        · exact ⟨hn,Nat.le_add_right _ _⟩

structure Inv (uid tag : String) (bound : Int) (w : World) : Prop where
  names : (w.nodeImages.map NodeImage.name).Nodup
  bounded : (pullsInFlight uid tag w.nodeImages : Int)≤bound

/- At a reconcile every pull in flight has its secrets, and an entry if its image has a status; and the
parallelism is not so far below zero that the NodeImages listed as pulling cannot be subtracted. -/
def Listed (job : Job) (tag : String) (w : World) : Label → Prop
  | .reconcile _ secrets _ => (∀ ni∈w.nodeImages,inFlight job.uid tag ni →
      secretsSynced secrets ni ∧ hasEntry tag ni) ∧
    -(2^63)≤parallelismLimit job-(namesOf job.uid tag secrets w.nodeImages .pulling).length
  | .report .. => True

theorem toNat_int64_le {x : Int} (h : -(2^63) ≤ x) : (int64 x).toNat ≤ x.toNat := by
  unfold int64
  by_cases hx : x<2^63
  · rw [Int.bmod_eq_of_le (by omega) (by omega)]
  · have hle:=Int.bmod_lt (x := x) (m := 2^64) (by decide)
    omega

variable {updates : String → Bool}

theorem pullsInFlight_le_active {w : World} {now : Int} (h : Listed job tag w (.reconcile now secrets updates)) :
    pullsInFlight job.uid tag w.nodeImages ≤ (namesOf job.uid tag secrets w.nodeImages .pulling).length := by
  unfold pullsInFlight namesOf
  rw [length_map,← countP_eq_length_filter]
  refine countP_mono_left fun ni hni hfl => ?_
  obtain ⟨hsec,he⟩ := h.1 ni hni hfl
  exact decide_eq_true (classify_of_inFlight hfl hsec he)

theorem calculateStatus_budget (job : Job) (tag : String) (startTime now : Int)
    (nodeImages : List NodeImage) (secrets : List ReferenceObject) :
    (calculateStatus job tag startTime now nodeImages secrets).2=[] ∨
      (calculateStatus job tag startTime now nodeImages secrets).1.active =
        (namesOf job.uid tag secrets nodeImages .pulling).length := by
  unfold calculateStatus
  by_cases he : (decide (job.completionPolicy≠.never) &&
      decide (nodeImages.length≠(namesOf job.uid tag secrets nodeImages .succeeded).length +
        (namesOf job.uid tag secrets nodeImages .failed).length) &&
      job.activeDeadlineSeconds.any fun deadline => decide (deadline≤now-startTime))
  · rw [if_pos he]
    exact .inl rfl
  · rw [if_neg he]
    exact .inr rfl

theorem Inv.reconcile (ht : job.imageTag=some tag) {w : World} {bound : Int}
    (h : Inv job.uid tag (max bound (parallelismLimit job)) w) {now : Int}
    (hl : Listed job tag w (.reconcile now secrets updates)) :
    Inv job.uid tag (max bound (parallelismLimit job)) (reconcile job now secrets updates w) := by
  unfold ImagePullJob.reconcile
  split_ifs
  · exact h
  · rw [ht]
    dsimp only
    unfold syncNodeImages
    have hbud:=calculateStatus_budget job tag (w.status.startTime.getD now) now w.nodeImages secrets
    generalize calculateStatus job tag (w.status.startTime.getD now) now w.nodeImages secrets = result at hbud
    obtain ⟨hnms,hle⟩ := @syncLoop_le job.uid tag secrets updates
      (result.2.take (int64 (parallelismLimit job-result.1.active)).toNat) w.nodeImages h.names
    refine ⟨hnms,?_⟩
    have ha:=pullsInFlight_le_active hl
    have hbd:=h.bounded
    have htake:=length_take_le (int64 (parallelismLimit job-result.1.active)).toNat result.2
    dsimp only
    rcases hbud with hn | hsame
    · have hz : (result.2.take (int64 (parallelismLimit job-result.1.active)).toNat).length=0 := by
        rw [hn,take_nil,length_nil]
      omega
    · have hl2:=hl.2
      rw [← hsame] at hl2
      have hint:=toNat_int64_le hl2
      omega

variable {status : Option (List TagStatus)}

theorem inFlight_of_report (hprog : progresses ni status)
    (h : inFlight uid tag {ni with status := status}) : inFlight uid tag ni := by
  obtain ⟨image,t,hi,ht,rfl,hown,ho⟩ := inFlight_iff.mp h
  refine inFlight_iff.mpr ⟨image,t,hi,ht,rfl,hown,?_⟩
  by_contra hd
  rw [hprog image hi t ht (by simpa using hd)] at ho
  cases ho

theorem Inv.report {w w' : World} {bound : Int} (h : Inv uid tag bound w) {name : String}
    (hn : next job w (.report name status)=some w') : Inv uid tag bound w' := by
  obtain ⟨ni,hf,hn⟩ := Option.bind_eq_some_iff.mp hn
  split_ifs at hn with hprog
  cases hn
  have hname:=(findKey_some hf).2
  have hcnt:=@countP_replaceKey _ _ _ NodeImage.name {ni with status := status} ni
    w.nodeImages (inFlight uid tag) (hname ▸ hf)
  have hm:=@inFlight_of_report uid tag ni status hprog
  refine ⟨by rw [map_key_replaceKey]; exact h.names,le_trans ?_ h.bounded⟩
  have hle : (replaceKey NodeImage.name {ni with status := status} w.nodeImages).countP
      (inFlight uid tag)≤w.nodeImages.countP (inFlight uid tag) := by
    split_ifs at hcnt with ho hnew hnew
    · omega
    · omega
    · exact absurd (hm hnew) ho
    · omega
  exact_mod_cast hle

/-- In a run whose reconciles all find the pulls in flight listed, they stay within the parallelism,
and every reconcile finds each NodeImage in exactly one list. -/
theorem imagePullJob_keeps_parallelism (htag : job.imageTag=some tag) {start w : World}
    (hnames : (start.nodeImages.map NodeImage.name).Nodup)
    (h : Reachable (· = start) (Restricted (step job) (Listed job tag)) w) :
    (pullsInFlight job.uid tag w.nodeImages : Int) ≤
        max (pullsInFlight job.uid tag start.nodeImages : Int) (parallelismLimit job) ∧
      ∀ now secrets updates,Listed job tag w (.reconcile now secrets updates) →
        ∀ ni∈w.nodeImages,ListedOnce job.uid tag secrets w.nodeImages ni := by
  have hi : Inv job.uid tag (max (pullsInFlight job.uid tag start.nodeImages : Int) (parallelismLimit job)) w := by
    refine h.invariant ?_ ?_
    · rintro s rfl
      exact ⟨hnames,le_max_left _ _⟩
    · rintro s l s' hs ⟨hstep,hl⟩
      cases l with
      | reconcile now secrets updates =>
        cases hstep
        exact hs.reconcile htag hl
      | report name status => exact hs.report hstep
  refine ⟨hi.bounded,?_⟩
  intro now secrets updates hl ni hni
  refine listedOnce_of_classify hi.names hni ?_
  intro hn
  obtain ⟨hfl,he⟩ := inFlight_of_classify_none hn
  rw [(hl.1 ni hni hfl).2] at he
  cases he

def oneAtATime : Job where
  uid := "job"
  imageTag := some "v2"
  parallelism := some (.int 1)
  completionPolicy := .always
  activeDeadlineSeconds := none
  deleting := false

def idleNode (name : String) (status : Option (List TagStatus)) : NodeImage := ⟨name,none,status⟩

def idleStatus : JobStatus := ⟨none,none,0,0,0,0,[]⟩

def syncTwice : List Label :=
  [.reconcile 1 [] (fun _ => true),.reconcile 2 [] (fun _ => true)]

/-- Node `a` has another tag of the image already. After the first reconcile it is in none of the
lists, and the second one starts a second pull. -/
theorem second_pull_starts : let start : World :=
      ⟨[idleNode "a" (some [⟨"v1",0,.succeeded⟩]),idleNode "b" none],idleStatus⟩
    ∃ w w',Reachable (· = start) (step oneAtATime) w ∧
      w.nodeImages.map (classify "job" "v2" [])=[none,some .notSynced] ∧
      Reachable (· = start) (step oneAtATime) w' ∧
      pullsInFlight "job" "v2" start.nodeImages=0 ∧
      pullsInFlight "job" "v2" w'.nodeImages=2 := by
  intro start
  have hf : (runLabels (next oneAtATime) (syncTwice.take 1) start).map
      (fun w => w.nodeImages.map (classify "job" "v2" []))=some [none,some .notSynced] := by
    decide +kernel
  have hsnd : (runLabels (next oneAtATime) syncTwice start).map
      (fun w => pullsInFlight "job" "v2" w.nodeImages)=some 2 := by decide +kernel
  obtain ⟨w,hw,hclasses⟩ := Option.map_eq_some_iff.mp hf
  obtain ⟨w',hw',hpulls⟩ := Option.map_eq_some_iff.mp hsnd
  exact ⟨w,w',reachable_of_runLabels (fun _ _ _ h => h) _ (Reachable.start rfl) hw,hclasses,
    reachable_of_runLabels (fun _ _ _ h => h) _ (Reachable.start rfl) hw',by decide +kernel,
    hpulls⟩

instance (job : Job) (tag : String) (w : World) (l : Label) : Decidable (Listed job tag w l) :=
  match l with
  | .reconcile .. => inferInstanceAs (Decidable (_ ∧ _))
  | .report .. => inferInstanceAs (Decidable True)

theorem one_pull_at_a_time :
    let start : World := ⟨[idleNode "a" none,idleNode "b" none],idleStatus⟩
    ∃ w : World,Reachable (· = start) (Restricted (step oneAtATime) (Listed oneAtATime "v2")) w ∧
      w.nodeImages.map (classify "job" "v2" [])=[some .pulling,some .notSynced] ∧
      (pullsInFlight "job" "v2" w.nodeImages : Int)≤1 := by
  intro start
  have hrun : (runLabels (restrict (next oneAtATime) (Listed oneAtATime "v2")) syncTwice start).map
      (fun w => w.nodeImages.map (classify "job" "v2" [])) =
      some [some .pulling,some .notSynced] := by
    decide +kernel
  obtain ⟨w,hw,hclasses⟩ := Option.map_eq_some_iff.mp hrun
  have hr : Reachable (· = start) (Restricted (step oneAtATime) (Listed oneAtATime "v2")) w :=
    reachable_of_restrict (fun _ _ _ h => h) _ (Reachable.start rfl) hw
  have hn : (start.nodeImages.map NodeImage.name).Nodup := by decide +kernel
  have hle:=(@imagePullJob_keeps_parallelism oneAtATime "v2" rfl start w hn hr).1
  exact ⟨w,hr,hclasses,hle⟩

end Kruise.ImagePullJob
