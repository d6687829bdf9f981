import Kruise.ContainerMeta.Env
import Mathlib.Data.List.Sort

/-!
# Hashes of the environment from metadata

`GetExpectHash` and `GetCurrentHash` (`env_hash.go` 51-126), `wrapEnvGetter` and
`manageContainerMetaSet` (`container_meta_controller.go` 321-407). One hash is of the values that
the metadata gives to the variables, the other of those that the command `env` reports. During an
in-place update a container whose hashes differ is restarted.
-/

namespace Kruise.ContainerMeta

open Lib.Text List Option

structure Metadata where
  labels : String → Option String
  annotations : String → Option String

def annotationsPath : String := "metadata.annotations"

def labelsPath : String := "metadata.labels"

def EnvVar.hashed (e : EnvVar) : Bool :=
  e.ref.any fun r => r.1=annotationsPath||r.1=labelsPath

def EnvVar.metaValue (m : Metadata) (e : EnvVar) : String :=
  match e.ref with
  | none => ""
  | some (path,subscript) =>
    if path=annotationsPath then (m.annotations subscript).getD ""
    else (m.labels subscript).getD ""

def sortByName (envs : List (String × String)) : List (String × String) :=
  envs.mergeSort fun a b => decide (a.1≤b.1)

def expectEnvs (env : List EnvVar) (m : Metadata) : List (String × String) :=
  sortByName ((env.filter EnvVar.hashed).map fun e => (e.name,e.metaValue m))

def currentEnvs (env : List EnvVar) (getter : String → Option String) : Option (List (String × String)) :=
  ((env.filter EnvVar.hashed).mapM fun e => (getter e.name).map fun v => (e.name,v)).map sortByName

variable (hash : List (String × String) → Nat) (value : String)

def getExpectHash (env : List EnvVar) (m : Metadata) : Nat := hash (expectEnvs env m)

def getCurrentHash (env : List EnvVar) (getter : String → Option String) : Option Nat :=
  (currentEnvs env getter).map hash

/-! ## The output of `env` -/

def isSpace (c : Char) : Bool :=
  [0x09,0x0a,0x0b,0x0c,0x0d,0x20,0x85,0xa0,0x1680,0x2028,0x2029,0x202f,0x205f,
    0x3000].contains c.toNat||(decide (0x2000≤c.toNat)&&decide (c.toNat≤0x200a))

def addTrimmed (envMap : String → String) (l : List Char) : String → String :=
  match cut ['='] l with
  | none => envMap
  | some (name,value) => Function.update envMap (String.ofList name) (String.ofList value)

def addLine (envMap : String → String) (l : List Char) : String → String := addTrimmed envMap (trim isSpace l)

def envMap (stdout : String) : String → String :=
  ((trim isSpace stdout.toList).splitOn '\n').foldl addLine fun _ => ""

/- `stdout` is missing when the command has failed. -/
def wrapEnvGetter (stdout : Option String) (key : String) : Option String :=
  stdout.map fun out => envMap out key

structure RuntimeContainerMeta where
  name : String
  containerID : String
  restartCount : Int
  plainHash : Nat
  extractedEnvFromMetadataHash : Nat
  deriving DecidableEq,Repr

structure KubeStatus where
  name : String
  id : String
  running : Bool
  restartCount : Int
  hash : Nat
  deriving DecidableEq,Repr

structure KubePodStatus where
  statuses : List KubeStatus
  distinct : (statuses.map KubeStatus.id).Nodup

structure Container where
  name : String
  env : List EnvVar
  deriving DecidableEq,Repr

/- `inPlaceUpdating` is that the condition InPlaceUpdateReady is False. -/
structure Pod where
  containers : List Container
  containerStatuses : List String
  metadata : Metadata
  inPlaceUpdating : Bool

def newContainerMeta (s : KubeStatus) : RuntimeContainerMeta :=
  ⟨s.name,s.id,s.restartCount,s.hash,0⟩

def recordedMeta (old : List RuntimeContainerMeta) (s : KubeStatus) : RuntimeContainerMeta :=
  ((old.filter fun m => m.containerID=s.id).getLast?).getD (newContainerMeta s)

def extractedHash (recorded : Nat) (s : KubeStatus) (c : Container) (exec : String → Option String) : Nat :=
  if recorded=0 ∧ s.running then
    (getCurrentHash hash c.env (wrapEnvGetter (exec s.id))).getD 0
  else recorded

/- One turn of the loop: the meta, and whether the container is put into the restarter's queue. -/
def manageContainer (envFromMetadata : Bool) (pod : Pod) (old : List RuntimeContainerMeta)
    (exec : String → Option String) (s : KubeStatus) (c : Container) : RuntimeContainerMeta × Bool :=
  let recorded:=recordedMeta old s
  if envFromMetadata then
    let extracted:=extractedHash hash recorded.extractedEnvFromMetadataHash s c exec
    ({recorded with extractedEnvFromMetadataHash := extracted},
      pod.inPlaceUpdating&&decide (extracted > 0) &&
        extracted != getExpectHash hash c.env pod.metadata)
  else (recorded,false)

def found (pod : Pod) (kube : KubePodStatus) : List (KubeStatus × Container) :=
  pod.containerStatuses.filterMap fun name =>
    match kube.statuses.find? fun s => s.name=name,
      pod.containers.find? fun c => c.name=name with
    | some s,some c => some (s,c)
    | _,_ => none

def manageContainerMetaSet (envFromMetadata : Bool) (pod : Pod) (kube : KubePodStatus)
    (old : List RuntimeContainerMeta) (exec : String → Option String) : List RuntimeContainerMeta × List String :=
  let turns:=(found pod kube).map fun sc =>
    (sc.1.id,manageContainer hash envFromMetadata pod old exec sc.1 sc.2)
  (turns.map fun t => t.2.1,(turns.filter fun t => t.2.2).map Prod.fst)

structure Environment where
  vars : List (String × String)
  distinct : (vars.map Prod.fst).Nodup
  named : ∀ v∈vars,v.1.toList≠[] ∧ ∀ c∈v.1.toList,c ≠ '=' ∧ isSpace c=false

def lineOf (v : String × String) : List Char := v.1.toList ++ '='::v.2.toList

/- What the command `env` prints. -/
def Environment.print (p : Environment) : String :=
  String.ofList (['\n'].intercalate (p.vars.map lineOf))

/- The value that a variable of the container spec gets, those from elsewhere by `others`. -/
def EnvVar.yields (m : Metadata) (others : EnvVar → String) (e : EnvVar) : String :=
  if e.hashed then e.metaValue m else if e.value ≠ "" then e.value else others e

/- The process has the variables of the spec, the last one of a name, and maybe others. -/
def StartedWith (p : Environment) (env : List EnvVar) (m : Metadata) (others : EnvVar → String) : Prop :=
  ∀ name e,(env.filter fun e => e.name=name).getLast?=some e →
    (name,e.yields m others)∈p.vars

/- What a line that begins with the name gives to it. -/
def assigned (name : String) (l : List Char) : Option (List Char) :=
  if name.toList ++ ['='] <+: trim isSpace l then some ((trim isSpace l).drop (name.toList.length+1)) else none

def firstLine : List Char := ((value.toList.splitOn '\n').headD []).rdropWhile isSpace

def otherLines : List (List Char) := (value.toList.splitOn '\n').tail

/- What is read of a value: its first line, unless a line after it, there or in the values that follow
in the output, begins with the name. -/
def lastAssigned (name value : String) (after : List (String × String)) : String :=
  String.ofList ((((otherLines value++after.flatMap fun v => otherLines v.2).filterMap
    (assigned name)).getLast?).getD (firstLine value))

/- The last variable of the name of a hashed one is read with the value that the metadata gives. -/
def ReadBack (p : Environment) (env : List EnvVar) (m : Metadata) (others : EnvVar → String) : Prop :=
  ∀ e∈env,e.hashed → ∀ last,(env.filter fun e' => e'.name=e.name).getLast?=some last →
    ∀ before after,p.vars=before++(e.name,last.yields m others)::after →
      lastAssigned e.name (last.yields m others) after=e.metaValue m

section

variable {name : String}

theorem addLine_apply (hname : '='∉name.toList) (envMap : String → String) (l : List Char) :
    addLine envMap l name=((assigned name l).map String.ofList).getD (envMap name) := by
  unfold addLine addTrimmed assigned
  split_ifs with hp
  · obtain ⟨rest,hr⟩ := hp
    rw [← hr,append_assoc,singleton_append,cut_singleton hname]
    simp
  · cases hc : cut ['='] (trim isSpace l) with
    | none => rfl
    | some parts =>
      have heq:=eq_append_of_cut hc
      refine Function.update_of_ne ?_ _ _
      rintro rfl
      exact hp ⟨parts.2,by rw [heq,String.toList_ofList,append_assoc]; rfl⟩

theorem foldl_addLine (hname : '='∉name.toList) (ls : List (List Char)) (envMap : String → String) :
    ls.foldl addLine envMap name=((ls.filterMap (assigned name)).getLast?.map String.ofList).getD (envMap name) := by
  induction ls generalizing envMap with
  | nil => rfl
  | cons l ls ih =>
    rw [foldl_cons,ih,addLine_apply hname]
    cases ha : assigned name l with
    | none => rw [filterMap_cons_none ha]; rfl
    | some v =>
      rw [filterMap_cons_some ha,getLast?_cons]
      cases (ls.filterMap (assigned name)).getLast? <;> rfl

variable {p : Environment} {v : String × String}

theorem trim_named (hv : v∈p.vars) (l : List Char) :
    trim isSpace (v.1.toList ++ '='::l)=v.1.toList ++ '='::l.rdropWhile isSpace := by
  obtain ⟨hne,hchars⟩ := p.named v hv
  obtain ⟨c,rest,hn⟩ := exists_cons_of_ne_nil hne
  have hc:=(hchars c (hn ▸ mem_cons_self)).2
  have hd : (v.1.toList ++ '='::l).dropWhile isSpace=v.1.toList ++ '='::l := by
    rw [hn,cons_append]
    exact dropWhile_cons_of_neg (by simp [hc])
  unfold trim
  rw [hd]
  exact rdropWhile_append_cons (by decide) _ _

theorem equals_notMem (hv : v∈p.vars) : '='∉v.1.toList := fun hm => ((p.named v hv).2 '=' hm).1 rfl

theorem assigned_self (hv : v∈p.vars) (l : List Char) :
    assigned v.1 (v.1.toList ++ '='::l)=some (l.rdropWhile isSpace) := by
  unfold assigned
  rw [trim_named hv,if_pos ⟨l.rdropWhile isSpace,by simp⟩]
  simp

theorem assigned_other (hv : v∈p.vars) (hname : '='∉name.toList) (hne : v.1≠name) (l : List Char) :
    assigned name (v.1.toList ++ '='::l)=none := by
  unfold assigned
  rw [trim_named hv]
  refine if_neg ?_
  rintro ⟨rest,hr⟩
  rw [append_assoc,singleton_append] at hr
  have hcut:=congrArg (cut ['=']) hr
  rw [cut_singleton hname,cut_singleton (equals_notMem hv)] at hcut
  exact hne (String.toList_inj.mp (Prod.mk.inj (some.inj hcut)).1.symm)

theorem splitOn_lineOf (hv : v∈p.vars) : ∃ l,l.rdropWhile isSpace=firstLine v.2 ∧
    (lineOf v).splitOn '\n'=(v.1.toList ++ '='::l)::otherLines v.2 := by
  have hn : '\n'∉v.1.toList ++ ['='] := by
    intro hm
    rcases mem_append.mp hm with hm | hm
    · exact absurd ((p.named v hv).2 '\n' hm).2 (by decide)
    · exact absurd hm (by decide)
  have hl : lineOf v=(v.1.toList ++ ['=']) ++ v.2.toList := by simp [lineOf]
  rw [hl,splitOn_append_of_notMem hn]
  unfold firstLine otherLines
  obtain ⟨l,ls,hls⟩ := exists_cons_of_ne_nil (splitOn_ne_nil '\n' v.2.toList)
  rw [hls]
  exact ⟨l,rfl,by simp⟩

theorem assigned_lines_self (hv : v∈p.vars) : ((lineOf v).splitOn '\n').filterMap (assigned v.1) =
    firstLine v.2::(otherLines v.2).filterMap (assigned v.1) := by
  obtain ⟨l,hl,hs⟩ := splitOn_lineOf hv
  rw [hs,filterMap_cons_some (assigned_self hv l),hl]

theorem assigned_lines_other (hname : '='∉name.toList) {vs : List (String × String)} (hvs : ∀ v∈vs,v∈p.vars)
    (hne : ∀ v∈vs,v.1≠name) :
    (vs.flatMap fun v => (lineOf v).splitOn '\n').filterMap (assigned name) =
      (vs.flatMap fun v => otherLines v.2).filterMap (assigned name) := by
  induction vs with
  | nil => rfl
  | cons v vs ih =>
    have hv:=hvs v mem_cons_self
    obtain ⟨l,-,hs⟩ := splitOn_lineOf hv
    rw [flatMap_cons,flatMap_cons,filterMap_append,filterMap_append,hs,
      filterMap_cons_none (assigned_other hv hname (hne v mem_cons_self) l),
      ih (fun u hu => hvs u (mem_cons_of_mem v hu)) fun u hu => hne u (mem_cons_of_mem v hu)]

/-- What is read for a variable of the process. -/
theorem envMap_print {value : String} {before after : List (String × String)}
    (hvars : p.vars=before++(name,value)::after) : envMap p.print name=lastAssigned name value after := by
  have hv : (name,value)∈p.vars := by simp [hvars]
  have hname : '='∉name.toList := equals_notMem hv
  have hafter : ∀ v∈after,v∈p.vars := fun v hm => by simp [hvars,hm]
  have hne : ∀ v∈after,v.1≠name := by
    intro v hm heq
    have hd:=p.distinct
    rw [hvars,map_append,map_cons,nodup_append,nodup_cons] at hd
    exact hd.2.1.1 (mem_map.mpr ⟨v,hm,heq⟩)
  have hfold : envMap p.print=((['\n'].intercalate (p.vars.map lineOf)).splitOn '\n').foldl addLine fun _ => "" := by
    unfold envMap Environment.print
    rw [String.toList_ofList]
    exact foldl_splitOn_trim (g := addTrimmed) (fun _ => rfl) '\n' _ _
  rw [hfold,splitOn_intercalate_eq (by simp [hvars]),flatMap_map,foldl_addLine hname,hvars,flatMap_append,
    flatMap_cons,filterMap_append,filterMap_append,assigned_lines_self hv,assigned_lines_other hname hafter hne]
  unfold lastAssigned
  rw [cons_append,← filterMap_append,getLast?_append,getLast?_cons]
  rfl

end

section

variable {p : Environment} {env : List EnvVar} {m : Metadata} {others : EnvVar → String}

theorem readBack_iff (hsta : StartedWith p env m others) :
    ReadBack p env m others ↔ ∀ e∈env,e.hashed → envMap p.print e.name=e.metaValue m := by
  refine forall_congr' fun e => forall_congr' fun he => forall_congr' fun _ => ?_
  have hm : e∈env.filter fun e' => e'.name=e.name := mem_filter.mpr ⟨he,decide_eq_true rfl⟩
  obtain ⟨last,hl⟩ := isSome_iff_exists.mp (getLast?_isSome.mpr (ne_nil_of_mem hm))
  obtain ⟨before,after,hvars⟩ := append_of_mem (hsta e.name last hl)
  constructor
  · intro h
    rw [envMap_print hvars]
    exact h last hl before after hvars
  · rintro h last' hl' before' after' hvars'
    rw [← envMap_print hvars',h]

theorem currentEnvs_eq (env : List EnvVar) (out : String) : currentEnvs env (wrapEnvGetter (some out)) =
    some (sortByName ((env.filter EnvVar.hashed).map fun e => (e.name,envMap out e.name))) :=
  congrArg (Option.map sortByName) mapM_pure

/-- Sorting by the names leaves each value with its variable. -/
theorem sortByName_inj {es : List EnvVar} {g g' : EnvVar → String} :
    sortByName (es.map fun e => (e.name,g e))=sortByName (es.map fun e => (e.name,g' e)) ↔ ∀ e∈es,g e=g' e := by
  have hs : ∀ g : EnvVar → String,sortByName (es.map fun e => (e.name,g e)) =
      (es.mergeSort fun a b => decide (a.name≤b.name)).map fun e => (e.name,g e) := by
    intro g
    unfold sortByName
    rw [map_mergeSort]
    intro a _ b _
    rfl
  rw [hs,hs,map_inj_left]
  simp only [mem_mergeSort,Prod.mk.injEq,true_and]

theorem currentEnvs_eq_iff (hsta : StartedWith p env m others) :
    currentEnvs env (wrapEnvGetter (some p.print))=some (expectEnvs env m) ↔ ReadBack p env m others := by
  rw [currentEnvs_eq,some_inj,expectEnvs,sortByName_inj,readBack_iff hsta]
  simp only [mem_filter,and_imp]

end

section

variable {pod : Pod} {kube : KubePodStatus} {s : KubeStatus} {c : Container}

theorem mem_found (h : (s,c)∈found pod kube) :
    s∈kube.statuses ∧ pod.containers.find? (fun c => c.name=s.name)=some c := by
  obtain ⟨name,-,hn⟩ := mem_filterMap.mp h
  split at hn
  · rename_i s' c' hs hc
    obtain ⟨rfl,rfl⟩ := Prod.mk.inj (some.inj hn)
    have heq : s'.name=name := by simpa using find?_some hs
    exact ⟨mem_of_find?_eq_some hs,heq ▸ hc⟩
  · cases hn

variable {old : List RuntimeContainerMeta} {exec : String → Option String}

theorem mem_restarts {feature : Bool} (hsc : (s,c)∈found pod kube)
    (h : s.id∈(manageContainerMetaSet hash feature pod kube old exec).2) :
    (manageContainer hash feature pod old exec s c).2 := by
  obtain ⟨turn,ht,hid⟩ := mem_map.mp h
  obtain ⟨hm,hf⟩ := mem_filter.mp ht
  obtain ⟨⟨s',c'⟩,hfnd,rfl⟩ := mem_map.mp hm
  obtain ⟨hs,hc⟩ := mem_found hsc
  obtain ⟨hs',hc'⟩ := mem_found hfnd
  obtain rfl : s'=s := inj_on_of_nodup_map kube.distinct hs' hs hid
  obtain rfl := some.inj (hc.symm.trans hc')
  exact hf

theorem recordedMeta_cases (old : List RuntimeContainerMeta) (s : KubeStatus) :
    recordedMeta old s=newContainerMeta s ∨ recordedMeta old s∈old ∧ (recordedMeta old s).containerID=s.id := by
  unfold recordedMeta
  cases hl : (old.filter fun m => m.containerID=s.id).getLast? with
  | none => exact .inl rfl
  | some m =>
    obtain ⟨hm,hid⟩ := mem_filter.mp (mem_of_getLast? hl)
    exact .inr ⟨hm,of_decide_eq_true hid⟩

theorem not_restarted (feature : Bool) (hcur : getCurrentHash hash c.env (wrapEnvGetter (exec s.id)) =
      some (getExpectHash hash c.env pod.metadata))
    (ho : ∀ r∈old,r.containerID=s.id → r.extractedEnvFromMetadataHash=0 ∨
      some r.extractedEnvFromMetadataHash=getCurrentHash hash c.env (wrapEnvGetter (exec s.id))) :
    (manageContainer hash feature pod old exec s c).2=false := by
  have hr : (recordedMeta old s).extractedEnvFromMetadataHash=0 ∨
      (recordedMeta old s).extractedEnvFromMetadataHash = getExpectHash hash c.env pod.metadata := by
    rcases recordedMeta_cases old s with hn | ⟨hm,hid⟩
    · rw [hn]
      exact .inl rfl
    · refine (ho _ hm hid).imp_right ?_
      intro h
      exact some.inj (h.trans hcur)
  have he : extractedHash hash (recordedMeta old s).extractedEnvFromMetadataHash s c exec =
      0 ∨ extractedHash hash (recordedMeta old s).extractedEnvFromMetadataHash s c exec =
        getExpectHash hash c.env pod.metadata := by
    unfold extractedHash
    split_ifs
    · rw [hcur,getD_some]
      exact .inr rfl
    · exact hr
  unfold manageContainer
  cases feature with
  | false => rfl
  | true =>
    rcases he with h | h <;> simp [h]

end

/-- A process started with the metadata is not restarted, and metadata with another value of a
variable gives another input of the hash, exactly when the values are read back. -/
theorem env_hash_follows_metadata_iff (p : Environment) (env : List EnvVar) (m : Metadata)
    (others : EnvVar → String) (hstart : StartedWith p env m others) :
    ((∀ hash,getCurrentHash hash env (wrapEnvGetter (some p.print))=some (getExpectHash hash env m)) ∧
      (∀ hash feature pod kube old exec s c,(s,c)∈found pod kube → c.env=env → pod.metadata=m →
        exec s.id=some p.print →
        (∀ r∈old,r.containerID=s.id → r.extractedEnvFromMetadataHash=0 ∨
          some r.extractedEnvFromMetadataHash=getCurrentHash hash c.env (wrapEnvGetter (exec s.id))) →
        s.id∉(manageContainerMetaSet hash feature pod kube old exec).2) ∧
      ∀ m',(∃ e∈env,e.hashed ∧ e.metaValue m≠e.metaValue m') →
        currentEnvs env (wrapEnvGetter (some p.print))≠some (expectEnvs env m')) ↔
    ReadBack p env m others := by
  rw [← currentEnvs_eq_iff hstart]
  constructor
  · rintro ⟨hall,-,-⟩
    -- a hash that tells the expected input from all others
    have hh:=hall fun envs => if envs=expectEnvs env m then 1 else 0
    unfold getCurrentHash getExpectHash at hh
    obtain ⟨envs,hc,he⟩ := map_eq_some_iff.mp hh
    dsimp only at he
    rw [if_pos rfl] at he
    split_ifs at he with heq
    rw [hc,heq]
  · intro hcur
    have hh : ∀ hash,getCurrentHash hash env (wrapEnvGetter (some p.print))=some (getExpectHash hash env m) := by
      intro hash
      unfold getCurrentHash
      rw [hcur]
      rfl
    refine ⟨hh,?_,?_⟩
    · rintro hash feature pod kube old exec s c hfound rfl rfl hexec hold hm
      have hf:=mem_restarts hash hfound hm
      rw [not_restarted hash feature (hexec ▸ hh hash) hold] at hf
      cases hf
    · rintro m' ⟨e,he,hhashe,hne⟩ heq
      rw [hcur,some_inj,expectEnvs,expectEnvs,sortByName_inj] at heq
      exact hne (heq e (mem_filter.mpr ⟨he,hhashe⟩))

def appEnv (path : String) : List EnvVar := [⟨"CONF", "",some path⟩]

def appPod (path : String) (m : Metadata) : Pod := ⟨[⟨"app",appEnv path⟩],["app"],m,true⟩

def appStatus : KubePodStatus := ⟨[⟨"app", "c1",true,0,7⟩],by decide⟩

theorem plainNames : ∀ n∈["PATH", "CONF"], n.toList≠[] ∧ ∀ c∈n.toList,c ≠ '=' ∧ isSpace c=false := by
  have ha : ["PATH", "CONF"].all (fun n => n.toList≠[] &&
      n.toList.all fun c => decide (c ≠ '=' ∧ isSpace c=false)) := by decide
  intro n hn
  obtain ⟨hne,hchars⟩ := Bool.and_eq_true_iff.mp (all_eq_true.mp ha n hn)
  exact ⟨of_decide_eq_true hne,fun c hc => of_decide_eq_true (all_eq_true.mp hchars c hc)⟩

def confProcess (path value : String) : Environment where
  vars := [("PATH",path),("CONF",value)]
  distinct := by simp
  named := fun v hv => plainNames v.1 (mem_map_of_mem hv)

def confNote : Metadata :=
  ⟨fun _ => none,fun k => if k = "conf" then some value else none⟩

def confPath : String := "metadata.annotations['conf']"

theorem confPath_ref : (⟨"CONF", "",some confPath⟩ : EnvVar).ref=some (annotationsPath, "conf") := by
  decide +kernel

theorem confProcess_started (path value : String) (others : EnvVar → String) :
    StartedWith (confProcess path value) (appEnv confPath) (confNote value) others := by
  intro name e he
  have hm:=mem_of_getLast? he
  obtain ⟨hm,hn⟩ := mem_filter.mp hm
  obtain rfl := mem_singleton.mp hm
  obtain rfl := of_decide_eq_true hn
  have hy : EnvVar.yields (confNote value) others ⟨"CONF", "",some confPath⟩=value := by
    simp [EnvVar.yields,EnvVar.hashed,EnvVar.metaValue,confPath_ref,confNote]
  rw [hy]
  simp [confProcess]

theorem expectEnvs_conf : expectEnvs (appEnv confPath) (confNote value)=[("CONF",value)] := by
  simp [expectEnvs,sortByName,appEnv,EnvVar.hashed,EnvVar.metaValue,confPath_ref,confNote]

theorem currentEnvs_conf (out value : String) (h : envMap out "CONF" = value) :
    currentEnvs (appEnv confPath) (wrapEnvGetter (some out))=some [("CONF",value)] := by
  simp [currentEnvs,sortByName,appEnv,EnvVar.hashed,confPath_ref,wrapEnvGetter,h]

/-- The second line is not read back, and the container is restarted again and again. -/
theorem twoLines_restarted :
    let pod:=appPod confPath (confNote "a\nb")
    let out:=(confProcess "/bin" "a\nb").print
    (∀ others,StartedWith (confProcess "/bin" "a\nb") (appEnv confPath) pod.metadata others) ∧
      currentEnvs (appEnv confPath) (wrapEnvGetter (some out))=some [("CONF", "a")] ∧
      expectEnvs (appEnv confPath) pod.metadata=[("CONF", "a\nb")] ∧
      ∀ hash : List (String × String) → Nat,0<hash [("CONF", "a")] → hash [("CONF", "a")]≠hash [("CONF", "a\nb")] →
        (manageContainerMetaSet hash true pod appStatus [] fun _ => some out).2=["c1"] := by
  intro pod out
  have hr : envMap out "CONF" = "a" := by decide +kernel
  have hcur:=currentEnvs_conf out "a" hr
  have he:=expectEnvs_conf "a\nb"
  refine ⟨confProcess_started "/bin" "a\nb",hcur,he,?_⟩
  intro hash hpos hne
  simp [manageContainerMetaSet,found,appStatus,pod,appPod,manageContainer,recordedMeta,
    newContainerMeta,extractedHash,getCurrentHash,getExpectHash,hcur,he,hpos,hne]

/-- A line break in another variable does no harm. -/
theorem oneLine_not_restarted :
    let pod:=appPod confPath (confNote "a b")
    let p:=confProcess "/bin\n/sbin" "a b"
    ReadBack p (appEnv confPath) (confNote "a b") (fun _ => "") ∧
      ∀ hash,"c1" ∉ (manageContainerMetaSet hash true pod appStatus [] fun _ => some p.print).2 := by
  intro pod p
  have hsta:=confProcess_started "/bin\n/sbin" "a b" fun _ => ""
  have hread : ReadBack p (appEnv confPath) (confNote "a b") fun _ => "" := by
    refine (readBack_iff hsta).mpr fun e he _ => ?_
    obtain rfl := mem_singleton.mp he
    decide +kernel
  have hf : (⟨"app", "c1",true,0,7⟩,⟨"app",appEnv confPath⟩)∈found pod appStatus := by
    simp [found,appStatus,pod,appPod]
  refine ⟨hread,fun hash => ?_⟩
  exact ((env_hash_follows_metadata_iff p _ _ _ hsta).mpr hread).2.1 hash true pod appStatus [] _ _ _ hf rfl rfl rfl
    fun r hr => by cases hr

end Kruise.ContainerMeta
