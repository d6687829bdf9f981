import Kruise.ImagePullJob.Parallelism

/-!
# What a synchronised NodeImage holds

One NodeImage in `syncNodeImages` (`imagepulljob_controller.go` 330-398) together with the policies
of its tags, by tag: a new entry gets the job's pull policy, an entry that is found its image pull
policy, and one that the job owns is left with the whole NodeImage as it is.
-/

namespace Kruise.ImagePullJob

open List Function

structure PullPolicy where
  timeoutSeconds : Option Int
  backoffLimit : Option Int

structure TagPolicies where
  pullPolicy : PullPolicy
  imagePullPolicy : String

structure PolicyImage extends NodeImage where
  policies : String → TagPolicies

def NodeImage.tagSpec (ni : NodeImage) (tag : String) : Option TagSpec :=
  ((ni.image.map ImageSpec.tags).getD []).find? fun t => t.tag=tag

def syncPolicies (job : TagPolicies) (tag : String) (ni : PolicyImage) : String → TagPolicies :=
  if (ni.tagSpec tag).isSome then
    update ni.policies tag {ni.policies tag with imagePullPolicy := job.imagePullPolicy}
  else update ni.policies tag ⟨job.pullPolicy, ""⟩

/-- The NodeImage after the turn, `none` for an error. -/
def syncPolicyImage (uid tag : String) (secrets : List ReferenceObject) (job : TagPolicies)
    (ni : PolicyImage) : Option PolicyImage :=
  match syncNodeImage uid tag secrets ni.toNodeImage with
  | .skip => some ni
  | .rejected => none
  | .updated ni' => some ⟨ni',syncPolicies job tag ni⟩

/-- The version of the tag in the spec, or else the one the daemon has reported. -/
def NodeImage.versionOf (ni : NodeImage) (tag : String) : Int :=
  ((ni.tagSpec tag).map TagSpec.version).getD (foundVersion tag ni)

structure Progressed (uid tag : String) (secrets : List ReferenceObject) (job : TagPolicies)
    (ni ni' : PolicyImage) : Prop where
  synced : classify uid tag secrets ni'.toNodeImage≠some .notSynced
  entry : ∃ image t,ni'.image=some image ∧ t∈image.tags ∧ t.tag=tag ∧ uid∈t.owners ∧
    (∀ s∈secrets,s∈image.pullSecrets) ∧
    ((ni.tagSpec tag).any (fun t => uid∈t.owners) ∨ ni.versionOf tag<t.version)
  policies : ni'.policies tag=job

def Compatible (uid tag : String) (secrets : List ReferenceObject) (job : TagPolicies)
    (ni : PolicyImage) : Prop :=
  match ni.tagSpec tag with
  | some t =>
    if uid∈t.owners then secretsSynced secrets ni.toNodeImage ∧ ni.policies tag=job
    else (ni.policies tag).pullPolicy=job.pullPolicy
  | none => job.imagePullPolicy = ""

variable {uid tag : String} {secrets : List ReferenceObject} {job : TagPolicies}
  {ni ni' : PolicyImage} {image : ImageSpec} {t : TagSpec}

theorem progressed_iff (hi : ni'.image=some image) (ht : t∈image.tags) (htag : t.tag=tag) (ho : uid∈t.owners)
    (hv : (ni.tagSpec tag).any (fun t => uid∈t.owners) ∨ ni.versionOf tag<t.version) :
    Progressed uid tag secrets job ni ni' ↔ secretsSynced secrets ni'.toNodeImage ∧ ni'.policies tag=job := by
  have hsec : secretsSynced secrets ni'.toNodeImage ↔ ∀ s∈secrets,s∈image.pullSecrets := by
    simp [secretsSynced,hi]
  have hver : tagVersion uid tag ni'.toNodeImage=t.version := by
    unfold tagVersion
    rw [hi]
    exact ownedVersion_of_mem image.valid.1 ht htag ho _
  rw [hsec]
  constructor
  · rintro ⟨-,⟨image',t',hi',-,-,-,hs,-⟩,hp⟩
    cases hi.symm.trans hi'
    exact ⟨hs,hp⟩
  · rintro ⟨hs,hp⟩
    refine ⟨?_,⟨image,t,hi,ht,htag,ho,hs,hv⟩,hp⟩
    have hpos:=image.valid.2 t ht
    unfold classify
    rw [hsec.mpr hs,hver,if_neg (by simp),if_neg (by omega)]
    cases ni'.status with
    | none => simp
    | some tags =>
      intro hc
      obtain ⟨st,-,hst⟩ := Option.map_eq_some_iff.mp hc
      split_ifs at hst
      split at hst <;> cases hst

theorem mem_addSecrets (secrets l : List ReferenceObject) :
    l ⊆ secrets.foldl (fun l s => if s∈l then l else l++[s]) l ∧
      secrets ⊆ secrets.foldl (fun l s => if s∈l then l else l++[s]) l := by
  induction secrets generalizing l with
  | nil => simp
  | cons s secrets ih =>
    obtain ⟨h1,h2⟩ := ih (if s∈l then l else l++[s])
    have hs : s∈(if s∈l then l else l++[s]) ∧ l ⊆ if s∈l then l else l++[s] := by
      split_ifs with h <;> simp [h]
    exact ⟨List.Subset.trans hs.2 h1,cons_subset.mpr ⟨h1 hs.1,h2⟩⟩

theorem secretsSynced_of_admit {tags : List TagSpec} {l : List ReferenceObject} {x : NodeImage}
    (h : admitImage (secrets.foldl (fun l s => if s∈l then l else l++[s]) l) tags=some image)
    (hx : x.image=some image) : image.tags=tags ∧ secretsSynced secrets x := by
  unfold admitImage at h
  split_ifs at h
  cases h
  refine ⟨rfl,?_⟩
  simpa [secretsSynced,hx] using fun s hs => (mem_addSecrets secrets l).2 hs

/-- A NodeImage processed without an error holds what the job asks for exactly when: it had no entry
for the tag and the job has no image pull policy; or it had an entry with the job's pull policy; or
the job owned the entry already, with its policies, and the secrets were all there. -/
theorem syncPolicyImage_progresses_iff (h : syncPolicyImage uid tag secrets job ni=some ni') :
    Progressed uid tag secrets job ni ni' ↔ Compatible uid tag secrets job ni := by
  obtain ⟨pullPolicy,imagePullPolicy⟩ := job
  unfold syncPolicyImage syncNodeImage at h
  unfold Compatible
  dsimp only at h
  cases hf : ni.tagSpec tag with
  | some t =>
    have hfind : ((ni.image.map ImageSpec.tags).getD []).find? (fun t => t.tag=tag)=some t := hf
    have hmem:=mem_of_find?_eq_some hf
    have htag : t.tag=tag := by simpa using find?_some hf
    rw [hfind] at h
    dsimp only at h ⊢
    split_ifs at h ⊢ with ho
    · cases h
      cases hi : ni.image with
      | none => simp [hi] at hmem
      | some image =>
        exact progressed_iff hi (by simpa [hi] using hmem) htag ho (.inl (by simp [hf,ho]))
    · generalize hadm : admitImage _ _=r at h
      cases r with
      | none => cases h
      | some image =>
        cases h
        obtain ⟨htags,hsec⟩ := secretsSynced_of_admit hadm (x := {ni.toNodeImage with image}) rfl
        have hin : addOwner uid tag t∈image.tags := by
          rw [htags,mem_insertionSort]
          exact mem_map_of_mem hmem
        rw [progressed_iff rfl hin (by simp [addOwner,htag]) (by simp [addOwner,htag])
          (.inr (by simp [NodeImage.versionOf,hf,addOwner,htag]))]
        simp [hsec,syncPolicies,hf]
  | none =>
    have hfind : ((ni.image.map ImageSpec.tags).getD []).find? (fun t => t.tag=tag)=none := hf
    rw [hfind] at h
    dsimp only at h
    generalize hadm : admitImage _ _=r at h
    cases r with
    | none => cases h
    | some image =>
      cases h
      obtain ⟨htags,hsec⟩ := secretsSynced_of_admit hadm (x := {ni.toNodeImage with image}) rfl
      have hin : ⟨tag,foundVersion tag ni.toNodeImage+1,[uid]⟩∈image.tags := by
        rw [htags,mem_insertionSort]
        exact mem_append_right _ mem_cons_self
      rw [progressed_iff rfl hin rfl mem_cons_self (.inr (by simp [NodeImage.versionOf,hf]))]
      simp [hsec,syncPolicies,hf,eq_comm]

def ownedNode (pullSecrets : List ReferenceObject) : PolicyImage :=
  ⟨⟨"node",some ⟨pullSecrets,[⟨"v1",0,["job"]⟩],by decide⟩,none⟩,
    fun _ => ⟨⟨some 600,some 3⟩, "Always"⟩⟩

/-- A secret that is new to an entry the job owns is never written. -/
theorem new_secret_ignored :
    let secrets : List ReferenceObject := [⟨"kruise-daemon-config", "login"⟩]
    (syncPolicyImage "job" "v1" secrets ⟨⟨some 600,some 3⟩, "Always"⟩ (ownedNode [])).map
        (fun ni => classify "job" "v1" secrets ni.toNodeImage)=some (some .notSynced) ∧
      classify "job" "v1" secrets (ownedNode []).toNodeImage=some .notSynced := by
  decide +kernel

/-- An entry of another job is taken over with a new secret and the job's image pull policy. -/
theorem shared_entry_progresses :
    let secrets : List ReferenceObject := [⟨"kruise-daemon-config", "login"⟩]
    let job : TagPolicies := ⟨⟨some 600,some 3⟩, "IfNotPresent"⟩
    let ni : PolicyImage := {ownedNode [] with image := some ⟨[],[⟨"v1",4,["other"]⟩],by decide⟩}
    classify "job" "v1" secrets ni.toNodeImage=some .notSynced ∧
      ∃ ni',syncPolicyImage "job" "v1" secrets job ni=some ni' ∧ Progressed "job" "v1" secrets job ni ni' := by
  intro secrets job ni
  have hs : (syncPolicyImage "job" "v1" secrets job ni).isSome := by decide +kernel
  obtain ⟨ni',hn⟩ := Option.isSome_iff_exists.mp hs
  refine ⟨by decide +kernel,ni',hn,(syncPolicyImage_progresses_iff hn).mpr ?_⟩
  rfl

end Kruise.ImagePullJob
