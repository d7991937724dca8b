import BenchmarkAi.Transpiler.ContainerViews
import BenchmarkAi.Transpiler.TemplatePods
/-!
# One container through the builders

What the steps of a builder leave of a container that they are not about: all of it, or all
but some of its mounts. And the containers that a template starts with.
-/

open Lib List

namespace BenchmarkAi.Transpiler

/-! ## Containers whose mounts change -/

def Remounted (t t' : Tree) : Prop := ∀ k, k ≠ "volumeMounts" → t'.get? k = t.get? k

def ScriptsKept (t t' : Tree) : Prop :=
  Remounted t t' ∧ listed "volumeMounts" scriptsVolumeName t' = listed "volumeMounts" scriptsVolumeName t

def Loose (R : Tree → Prop) : Prop := ∀ t t', Remounted t t' → R t → R t'

def Steady (R : Tree → Prop) : Prop := ∀ t t', ScriptsKept t t' → R t → R t'

theorem Loose.steady {R} (h : Loose R) : Steady R := fun t t' hk => h t t' hk.1

variable {t t' : Tree} {volume a b kind : String} {o : Outside} {v : Values} {h : RootObjectHelper} {replica : Option String}
  {place : Place}

theorem Remounted.nameOf (h : Remounted t t') : nameOf t' = nameOf t := nameOf_congr (h "name" (by decide))

theorem remounted_put (t : Tree) (ms : Tree) : Remounted t (t.put "volumeMounts" ms) := fun _ hk => Tree.get?_put_ne hk t ms

theorem remounted_dropVolume (h : dropVolume volume t = .ok t') : Remounted t t' :=
  fun _ hk => get?_dropVolume h hk

theorem scriptsKept_dropVolume (hv : volume ≠ scriptsVolumeName) (h : dropVolume volume t = .ok t') :
    ScriptsKept t t' := ⟨remounted_dropVolume h, listed_dropVolume (Ne.symm hv) h⟩

theorem scriptsKept_orEmptyList (h : orEmptyList "volumeMounts" t = .ok t') : ScriptsKept t t' := by
  refine ⟨fun k hk => get?_orEmptyList h hk, ?_⟩
  rw [listed, listOf_orEmptyList h]
  rfl

theorem scriptsKept_pure (h : (pure t : Py Tree) = .ok t') : ScriptsKept t t' := by
  rw [← pure_ok.1 h]
  exact ⟨fun _ _ => rfl, rfl⟩

theorem scriptsKept_extend {new} (hnew : ∀ m ∈ new, nameOf m ≠ some scriptsVolumeName)
    (h : extend "volumeMounts" new t = .ok t') : ScriptsKept t t' := by
  obtain ⟨old, hold, rfl⟩ := extend_ok h
  have hn : new.filter (nameOf · = some scriptsVolumeName) = [] := by
    apply filter_eq_nil_iff.2
    intro m hm
    simpa using hnew m hm
  refine ⟨remounted_put t _, ?_⟩
  rw [listed, listed, listOf_put_self hold, listOf_of_attr hold, filter_append, hn, append_nil]

/-! ## Edits that leave a property of the container -/

section Steady
variable {r : Option String} {name container : String} {places : List Place} {R : Tree → Prop}

theorem turns_edit_steady (hR : Steady R) {f} (hf : ∀ t t', f t = .ok t' → ScriptsKept t t') :
    Turns r name (Only places R) (editContainer container r f) (Only places R) := by
  by_cases heq : name = container
  · subst heq
    exact turns_editContainer_same fun t t' hok ht => ⟨hR t t' (hf t t' hok) ht, (hf t t' hok).1.nameOf⟩
  · exact turns_keeps (keeps_editContainer ⟨rfl, .inr heq⟩ fun t t' hok => (hf t t' hok).1.nameOf)

theorem turns_removeVolume_steady (hR : Steady R) (hv : volume ≠ scriptsVolumeName) :
    Turns r name (Only places R) (removeVolume volume r) (Only places R) :=
  turns_removeVolume fun t t' hok => hR t t' (scriptsKept_dropVolume hv hok)

theorem turns_addDataVolumeMounts (hR : Steady R) (hne : name ≠ dataPullerContainer) (o : Outside) (config : BaiConfig)
    (sources : List DownloadableContent) :
    Turns r name (Only places R) (addDataVolumeMounts o config sources container r) (Only places R) := by
  have he : Elsewhere r name r dataPullerContainer := ⟨rfl, .inr hne⟩
  refine (turns_edit_steady hR fun t t' hok => scriptsKept_pure hok).bind (Turns.bind (Q := Only places R) ?_ ?_)
  · cases sources with
    | nil => exact (turns_keeps (keeps_removeContainer he)).bind (turns_removeVolume_steady hR (by decide))
    | cons first rest =>
      refine turns_keeps (keeps_editContainer he fun t t' hok => ?_)
      obtain ⟨a, -, rfl⟩ := putArgs_ok hok
      exact nameOf_put_ne (by decide)
  · refine turns_edit_steady hR fun t t' hok => scriptsKept_extend (fun m hm => ?_) hok
    obtain ⟨dv, -, rfl⟩ := mem_map.1 hm
    intro heq
    have hv : some datasetsVolumeName = some scriptsVolumeName := heq
    exact absurd hv (by decide)

theorem turns_addExtendedShm (hR : Steady R) :
    Turns r name (Only places R) (addExtendedShm container r) (Only places R) := by
  have hv : AllowsPod (SameContainers r name) r ["volumes"] := allowsPod_containers rfl (by decide)
  refine (turns_edit_steady hR fun t t' hok => scriptsKept_pure hok).bind
    ((turns_keeps (hv _ (touches_extend _ _))).bind ?_)
  refine turns_edit_steady hR fun t t' hok => scriptsKept_extend (fun m hm => ?_) hok
  rw [mem_singleton.1 hm]
  decide

end Steady

/-! ## The variables of the builder -/

def Has (K : List (String × Tree) → Prop) (places : List Place) (R : Tree → Prop) (env : List (String × Tree))
    (xs : List (Place × Tree)) : Prop := K env ∧ Only places R xs

section Has
variable {r r' : Option String} {name : String} {K K' : List (String × Tree) → Prop} {places : List Place} {R S : Tree → Prop}
  {scripts : List (String × String)}

theorem tracks_turns {f} (hf : Turns r name (Only places R) f (Only places S)) :
    Tracks r name (Has K places R) (edit f) (Has K places S) := by
  refine tracks_edit fun env h h' hok hfi => ?_
  obtain ⟨spec, hp, hK, hR⟩ := hfi
  obtain ⟨spec', hp', hS⟩ := hf h h' hok ⟨spec, hp, hR⟩
  exact ⟨spec', hp', hK, hS⟩

theorem tracks_addScripts (he : scripts = [] → Loose R) (hne : name ≠ scriptsPullerContainer)
    (hK : ∀ env, K env → K' (internalVars scripts env)) :
    Tracks r name (Has K places R) (addScripts scripts r) (Has K' places R) := by
  have hel : Elsewhere r name r scriptsPullerContainer := ⟨rfl, .inr hne⟩
  intro b b' hok hf
  obtain ⟨spec, hp, hk, ho⟩ := hf
  have hk' := hK _ hk
  cases scripts with
  | nil =>
    obtain ⟨h₁, hh₁, hok⟩ := bind_ok.1 hok
    obtain ⟨h₂, hh₂, hok⟩ := bind_ok.1 hok
    cases hok
    obtain ⟨spec', hp', ho⟩ := turns_removeVolume (fun t t' hok => he rfl t t' (remounted_dropVolume hok)) _ _ hh₂
      (keeps_removeContainer hel _ _ hh₁ _ ⟨spec, hp, ho⟩)
    exact ⟨spec', hp', hk', ho⟩
  | cons script scripts =>
    obtain ⟨root, hr, hok⟩ := bind_ok.1 hok
    cases hok
    have hpu : Allows (SameContainers r name) scriptsPullerContainer r ["args"] := allows_containers hel (by decide)
    obtain ⟨spec', hp', ho⟩ := hpu _ (touches_put fun _ _ h => ⟨_, (pure_ok.1 h).symm⟩) _ _ hr _ ⟨spec, hp, ho⟩
    exact ⟨spec', hp', hk', ho⟩

end Has

/-! ## Steps that are not about the container -/

section Steps
variable {r r' : Option String} {name : String} {P : List (String × Tree) → List (Place × Tree) → Prop}

theorem tracks_addEnvVarsStep_else (he : Elsewhere r name r' benchmarkContainer) (vars : List (String × String)) :
    Tracks r name P (addEnvVarsStep vars r') P :=
  tracks_still fun _ => within_addEnvVarsStep (allows_containers he (by decide)) vars

theorem tracks_addParentLabel (hm : r ≠ some "metadata") (parent : Option String) :
    Tracks r name P (addParentLabel parent) P := tracks_still fun _ => within_addParentLabel (keeps_addLabel hm) parent

theorem tracks_parentStep_else (he : Elsewhere r name r' metricsPusherContainer) (hm : r ≠ some "metadata") (o : Outside)
    (parent : Option String) : Tracks r name P (parentStep o parent r') P :=
  tracks_still fun _ => within_parentStep (keeps_addLabel hm) (allows_containers he (by decide)) parent

theorem tracks_metricsStep_else (he : Elsewhere r name r' metricsPusherContainer)
    (he' : Elsewhere r name r' metricsExtractorContainer) (hm : r ≠ some "metadata") (o : Outside)
    (d : BenchmarkDescriptor) (output : Bool) : Tracks r name P (metricsStep o d output r') P :=
  tracks_still fun _ => within_metricsStep (keeps_addLabel hm) (allows_containers he (by decide))
    (fun _ => (keeps_removeContainer he').comp (keeps_removeContainer he)) d

end Steps

theorem tracks_horovodReplicaUpdate_ne {K : List (String × Tree) → Prop} {Q : List (Place × Tree) → Prop} {name}
    (h : a ≠ b) (hm : a ≠ "metadata") (o : Outside) (req : Request) {scripts}
    (hK : ∀ env, K env → K (internalVars scripts env)) :
    Tracks (some a) name (fun env xs => K env ∧ Q xs) (horovodReplicaUpdate o req scripts b)
      (fun env xs => K env ∧ Q xs) := by
  have hs : Within (Onward K (SameContainers (some a) name)) (horovodReplicaUpdate o req scripts b) :=
    within_horovodReplicaUpdate hK (keeps_addLabel fun heq => hm (Option.some.inj heq)) (keeps_onPodSpec_ne h) req
  intro st st' hok hf
  obtain ⟨spec, hp, hk, hQ⟩ := hf
  obtain ⟨hk', hc⟩ := hs st st' hok
  obtain ⟨spec', hp', hQ'⟩ := hc Q ⟨spec, hp, hQ⟩
  exact ⟨spec', hp', hk' hk, hQ'⟩

theorem keeps_addBenchmarkCmd {r r' name} (he : Elsewhere r name r' benchmarkContainer) (o : Outside) (job_id : String)
    (d : BenchmarkDescriptor) (hd : r' = none ∨ d.hardware.strategy = .horovod) :
    Keeps r name (addBenchmarkCmd o job_id d r') := by
  have ha : Allows (SameContainers r name) benchmarkContainer r' ["command", "args"] := allows_containers he (by decide)
  refine within_addBenchmarkCmd (fun _ _ _ => keeps_editConfigMap _ _) (fun hne => ?_) (fun _ => ha) o job_id
  obtain rfl := hd.resolve_right hne
  exact ha

/-! ## The containers of a template -/

def Doc.name? : Doc → Option String
  | .obj fs =>
    match fs.lookup "name" with
    | some (.lit (.str name)) => some name
    | _ => none
  | _ => none

variable {scalar : String → Option Tree} {ds : Values → List (Place × Doc)}
  {Q : List (String × Tree) → List (Place × Tree) → Prop}

theorem nameOf_read {d : Doc} {name} (h : d.name? = some name) (ht : d.read scalar = some t) : nameOf t = some name := by
  cases d with
  | obj fs =>
    rw [Doc.name?] at h
    split at h
    · rename_i name' hl
      cases h
      rw [nameOf, get?_read_text ht hl]
      rfl
    · cases h
  | _ => cases h

theorem forall₂_read_named {name} {ds : List Doc} {ts} (hr : Forall₂ (fun d t => d.read scalar = some t) ds ts)
    (hna : ds.all (·.name?.isSome) = true) :
    Forall₂ (fun d t => d.read scalar = some t) (ds.filter (·.name? = some name))
      (ts.filter (nameOf · = some name)) := by
  induction hr with
  | nil => exact .nil
  | cons ht _ ih =>
    rw [all_cons, Bool.and_eq_true] at hna
    obtain ⟨n, hn⟩ := Option.isSome_iff_exists.1 hna.1
    rw [filter_cons, filter_cons, nameOf_read hn ht, hn]
    split
    · exact .cons ht (ih hna.2)
    · exact ih hna.2

/-- The last document of the template is a `kind`, and in its pod for the replica type these are
the containers with the name. -/
def Template.Contains (t : Template) (kind : String) (replica : Option String) (name : String)
    (ds : Values → List (Place × Doc)) : Prop :=
  ∀ v, ∃ before fs pod mains inits, t.docs v = before ++ [.obj fs] ∧ fs.lookup "kind" = some (text kind) ∧
    (Doc.obj fs).getPath? (replicaPath replica) = some (.obj pod) ∧
    pod.lookup "containers" = some (.arr mains) ∧ pod.lookup "initContainers" = some (.arr inits) ∧
    mains.all (·.name?.isSome) = true ∧ inits.all (·.name?.isSome) = true ∧
    (mains.filter (·.name? = some name)).map (Prod.mk .main) ++ (inits.filter (·.name? = some name)).map (Prod.mk .init) = ds v

theorem finds_fillTemplate {t : Template} {docs} (hre : Doc.readItems o.yaml.scalar (t.docs v) = some docs)
    (hok : fillTemplate o t (.ok v) = .ok h) {name} (ht : t.Contains kind replica name ds) (hki : PodKind kind replica)
    {R} (hR : Steady R) (hd : ∀ x ∈ ds v, ∀ c, x.2.read o.yaml.scalar = some c → R c) :
    Finds replica name (Only ((ds v).map Prod.fst) R) h.root := by
  obtain ⟨before, fs, pod, mains, inits, hdo, hk, hpod, hm, hi, hmn, hin, ho⟩ := ht v
  refine fillTemplate_root hre hok hdo hk hki (fun root hro => ?_) fun r h h' hr hok hf =>
    turns_createEmptyFields hr (fun t t' hok => hR t t' (scriptsKept_orEmptyList hok)) h h' hok hf
  obtain ⟨spec, hs, hp⟩ := getPath?_read hpod hro
  have hl (k : String) (ds : List Doc) (hds : pod.lookup k = some (.arr ds)) :
      Forall₂ (fun d t => d.read o.yaml.scalar = some t) ds (listOf k spec) := by
    obtain ⟨ts, hget, hts⟩ := get?_read_arr hp hds
    rwa [listOf_of_get? hget]
  have hall : Forall₂ (fun x y => x.1 = y.1 ∧ x.2.read o.yaml.scalar = some y.2)
      ((mains.filter (·.name? = some name)).map (Prod.mk .main) ++ (inits.filter (·.name? = some name)).map (Prod.mk .init))
      (containersNamed name spec) := by
    apply rel_append
    · rw [forall₂_map_left_iff, forall₂_map_right_iff]
      exact (forall₂_read_named (hl _ _ hm) hmn).imp fun _ _ h => ⟨rfl, h⟩
    · rw [forall₂_map_left_iff, forall₂_map_right_iff]
      exact (forall₂_read_named (hl _ _ hi) hin).imp fun _ _ h => ⟨rfl, h⟩
  rw [ho] at hall
  refine ⟨spec, hs, ?_⟩
  generalize containersNamed name spec = xs at hall
  generalize ds v = ds at hall hd
  induction hall with
  | nil => exact .nil
  | cons hx _ ih =>
    rw [forall_mem_cons] at hd
    exact .cons ⟨hx.1.symm, hd.1 _ hx.2⟩ (ih hd.2)

theorem finds_build {t : Template} {docs labels update}
    (hok : build o t (.ok v) labels update = .ok h) (hr : Doc.readItems o.yaml.scalar (t.docs v) = some docs) {name}
    (ht : t.Contains kind replica name ds) (hk : PodKind kind replica) {R} (hR : Steady R)
    (hd : ∀ x ∈ ds v, ∀ c, x.2.read o.yaml.scalar = some c → R c)
    (htr : Tracks replica name (Has (· = []) ((ds v).map Prod.fst) R) update Q) :
    ∃ env, Finds replica name (Q env) h.root := by
  obtain ⟨h₀, h₀ok, hok⟩ := bind_ok.1 hok
  obtain ⟨h₁, h₁ok, hok⟩ := bind_ok.1 hok
  obtain ⟨b, hb, hok⟩ := bind_ok.1 hok
  cases hok
  have hl (kv : String × String) : Keeps replica name (addLabel kv.1 (.str kv.2)) :=
    keeps_addLabel hk.ne_metadata kv.1 (.str kv.2)
  obtain ⟨spec, hs, ho⟩ := Within.foldlM hl labels.entries h₀ h₁ h₁ok _ (finds_fillTemplate hr h₀ok ht hk hR hd)
  exact ⟨b.internal_env_vars, htr _ b hb ⟨spec, hs, rfl, ho⟩⟩

/-- The template has the container at the place, and the update leads from it to what `Q` says. -/
def Follows (o : Outside) (t : Template) (v : Values) (kind : String) (replica : Option String) (name : String)
    (place : Place) (update : Step) (Q : List (String × Tree) → List (Place × Tree) → Prop) : Prop :=
  ∃ (d : Values → Doc) (R : Tree → Prop), t.Contains kind replica name (fun v => [(place, d v)]) ∧ Steady R ∧
    (∀ c, (d v).read o.yaml.scalar = some c → R c) ∧ Tracks replica name (Has (· = []) [place] R) update Q

theorem Follows.finds {t : Template} {docs labels update name}
    (hf : Follows o t v kind replica name place update Q) (hok : build o t (.ok v) labels update = .ok h)
    (hr : Doc.readItems o.yaml.scalar (t.docs v) = some docs) (hk : PodKind kind replica) :
    ∃ env, Finds replica name (Q env) h.root := by
  obtain ⟨d, R, ht, hR, hd, htr⟩ := hf
  exact finds_build hok hr ht hk hR (forall_mem_singleton.2 hd) htr

theorem buildBenchmark_scripts {r : Request} (hok : buildBenchmark o r = .ok h) :
    ∃ scripts, r.scripts.mapM (fun dst => s3Object o "script" (some dst)) = .ok scripts := by
  obtain ⟨scripts, hs, -⟩ := bind_ok.1 hok
  exact ⟨scripts, hs⟩

/-- A container through the builder of a benchmark job: of a single node, or of the replica
types of an MPI job. -/
theorem finds_buildBenchmark {r : Request} {name scripts}
    {Q : Option String → List (String × Tree) → List (Place × Tree) → Prop} (hok : buildBenchmark o r = .ok h)
    (hs : Scalars o r.descriptor.hardware.strategy.template (benchmarkValues o r))
    (hsc : r.scripts.mapM (fun dst => s3Object o "script" (some dst)) = .ok scripts)
    (hsi : ∀ v, benchmarkValues o r = .ok v → r.descriptor.hardware.strategy ≠ .horovod → Follows o .job_single_node v "Job" none name place (singleRunUpdate o r scripts) (Q none))
    (hl : ∀ v, benchmarkValues o r = .ok v → r.descriptor.hardware.strategy = .horovod → Follows o .mpi_job_horovod v "MPIJob" (some "Launcher") name place (horovodUpdate o r scripts) (Q (some "Launcher")))
    (hw : ∀ v, benchmarkValues o r = .ok v → r.descriptor.hardware.strategy = .horovod → Follows o .mpi_job_horovod v "MPIJob" (some "Worker") name place (horovodUpdate o r scripts) (Q (some "Worker")))
    {plan : PodPlan} (hp : plan ∈ benchmarkPods r) : ∃ env, Finds plan.replica name (Q plan.replica env) h.root := by
  obtain ⟨scripts', hsc', hok⟩ := bind_ok.1 hok
  obtain rfl := Except.ok.inj (hsc.symm.trans hsc')
  obtain ⟨v, docs, hv, hr⟩ := hs
  unfold benchmarkPods at hp
  unfold benchmarkUpdate at hok
  rw [hv] at hok
  cases hst : r.descriptor.hardware.strategy with
  | horovod =>
    rw [hst] at hp hok hr
    rcases mem_cons.1 hp with rfl | hp
    · exact (hl v hv hst).finds hok hr (.inr ⟨rfl, .inl rfl⟩)
    · obtain rfl := mem_singleton.1 hp
      exact (hw v hv hst).finds hok hr (.inr ⟨rfl, .inr rfl⟩)
  | _ =>
    have hf := hsi v hv (by rw [hst]; decide)
    rw [hst] at hp hok hr
    obtain rfl := mem_singleton.1 hp
    exact hf.finds hok hr (.inl ⟨rfl, rfl⟩)

/-! ## Containers beside the benchmark -/

/-- In the pod that it is in, an edit of another container is elsewhere. -/
theorem elsewhere_of_ne {r name container} (h : name ≠ container) : Elsewhere r name r container :=
  ⟨rfl, .inr h⟩

/-- A container that takes part in the steps of the scripts and of the metrics, and in no others: it shows `R`, with the
scripts `S`, and `U` and `T` after the two steps of the metrics. -/
structure Bystander (o : Outside) (req : Request) (scripts : List (String × String)) (name : String) (place : Place)
    (places : List Place) (R S U T : Tree → Prop) : Prop where
  benchmark : name ≠ benchmarkContainer
  puller : name ≠ dataPullerContainer
  lock : name ≠ inferenceServerLockContainer
  before : Steady R
  after : Steady S
  scripts (r : Option String) (K : List (String × Tree) → Prop) :
    Tracks r name (Has K [place] R) (addScripts scripts r) (Has (fun _ => True) [place] S)
  metrics {r : Option String} (hm : r ≠ some "metadata") : Tracks r name (Has (fun _ => True) [place] S)
    (metricsStep o req.descriptor req.descriptor.output.isSome r) (Has (fun _ => True) places U)
  parent {r : Option String} (hm : r ≠ some "metadata") : Tracks r name (Has (fun _ => True) places U)
    (parentStep o req.event.parent_action_id r) (Has (fun _ => True) places T)

section Bystander
variable {req : Request} {scripts : List (String × String)} {name : String} {places : List Place} {R S U T : Tree → Prop}

theorem Bystander.singleRunUpdate (hb : Bystander o req scripts name place places R S U T) :
    Tracks none name (Has (· = []) [place] R) (singleRunUpdate o req scripts) (Has (fun _ => True) places T) := by
  have hm : none ≠ some "metadata" := nofun
  have hbe : Elsewhere none name none benchmarkContainer := elsewhere_of_ne hb.benchmark
  refine (tracks_keeps (keeps_setServiceAccount (akin_self _) _)).comp ?_
  refine (tracks_turns (turns_addDataVolumeMounts hb.before hb.puller o _ _)).comp ?_
  refine (hb.scripts _ _).comp ?_
  refine ((tracks_turns (turns_addExtendedShm hb.after)).doIf _).comp ?_
  refine (tracks_addEnvVarsStep_else hbe _).comp ?_
  refine (tracks_keeps (keeps_addBenchmarkCmd hbe o _ _ (.inl rfl))).comp ?_
  refine (hb.metrics hm).comp ((hb.parent hm).comp ?_)
  refine ((tracks_keeps (keeps_removeAffinity (akin_self _))).doIf _).comp ?_
  split
  · exact (tracks_keeps (keeps_setServiceAccount (akin_self _) _)).comp (tracks_keeps (within_addServerEnvVars (allows_containers hbe (by decide)) _ _))
  · exact (tracks_keeps (keeps_removeContainer (elsewhere_of_ne hb.lock))).doIf _

theorem Bystander.horovodReplicaUpdate (hb : Bystander o req scripts name place places R S U T)
    {K} (hm : a ≠ "metadata") :
    Tracks (some a) name (Has K [place] R) (horovodReplicaUpdate o req scripts a) (Has (fun _ => True) places T) := by
  have hm' : some a ≠ some "metadata" := fun heq => hm (Option.some.inj heq)
  refine (tracks_keeps (keeps_setServiceAccount (akin_self _) _)).comp ?_
  refine (hb.scripts _ _).comp ?_
  refine ((tracks_turns (turns_addExtendedShm hb.after)).doIf _).comp ?_
  refine (tracks_addEnvVarsStep_else (elsewhere_of_ne hb.benchmark) _).comp ?_
  refine (hb.metrics hm').comp ((hb.parent hm').comp ?_)
  exact (tracks_keeps (keeps_removeAffinity (akin_self _))).doIf _

theorem Bystander.launcher (hb : Bystander o req scripts name place places R S U T)
    (hs : req.descriptor.hardware.strategy = .horovod) :
    Tracks (some "Launcher") name (Has (· = []) [place] R) (horovodUpdate o req scripts) (Has (fun _ => True) places T) := by
  have hbe : Elsewhere (some "Launcher") name (some "Launcher") benchmarkContainer := elsewhere_of_ne hb.benchmark
  refine (tracks_keeps (within_addDataVolumeMounts (keeps_onPodSpec_ne (by decide)) _ _)).comp ?_
  refine (tracks_keeps (keeps_addBenchmarkCmd hbe o _ _ (.inr hs))).comp ?_
  refine (hb.horovodReplicaUpdate (by decide)).comp ?_
  exact tracks_horovodReplicaUpdate_ne (by decide) (by decide) o req fun _ _ => trivial

theorem Bystander.worker (hb : Bystander o req scripts name place places R S U T)
    (hs : req.descriptor.hardware.strategy = .horovod) :
    Tracks (some "Worker") name (Has (· = []) [place] R) (horovodUpdate o req scripts) (Has (fun _ => True) places T) := by
  have hl : Elsewhere (some "Worker") name (some "Launcher") benchmarkContainer := ⟨rfl, .inl (by decide)⟩
  have hne : "Worker" ≠ "Launcher" := by decide
  refine ((tracks_turns (turns_addDataVolumeMounts hb.before hb.puller o _ _)).weaken
    (R := Has (fun _ => True) [place] R) fun _ _ hhas => ⟨trivial, hhas.2⟩).comp ?_
  refine (tracks_keeps (keeps_addBenchmarkCmd hl o _ _ (.inr hs))).comp ?_
  refine (tracks_horovodReplicaUpdate_ne (K := fun _ => True) hne (by decide) o req fun _ _ => trivial).comp ?_
  exact hb.horovodReplicaUpdate (by decide)

/-- In every pod of a benchmark job the container shows what the two steps leave. -/
theorem Bystander.finds (hb : Bystander o req scripts name place places R S U T) (hok : buildBenchmark o req = .ok h)
    (hs : Scalars o req.descriptor.hardware.strategy.template (benchmarkValues o req))
    (hsc : req.scripts.mapM (fun dst => s3Object o "script" (some dst)) = .ok scripts)
    (hsi : ∃ d : Values → Doc, Template.Contains .job_single_node "Job" none name (fun v => [(place, d v)]) ∧
      ∀ v, benchmarkValues o req = .ok v → ∀ c, (d v).read o.yaml.scalar = some c → R c)
    (hmpi : ∀ replica, replica = "Launcher" ∨ replica = "Worker" →
      ∃ d : Values → Doc, Template.Contains .mpi_job_horovod "MPIJob" (some replica) name (fun v => [(place, d v)]) ∧
        ∀ v, benchmarkValues o req = .ok v → ∀ c, (d v).read o.yaml.scalar = some c → R c)
    {plan : PodPlan} (hp : plan ∈ benchmarkPods req) : Finds plan.replica name (Only places T) h.root := by
  obtain ⟨env, hf⟩ : ∃ env, Finds plan.replica name (Has (fun _ => True) places T env) h.root := by
    refine @finds_buildBenchmark o h place req name scripts (fun _ => Has (fun _ => True) places T) hok hs hsc
      (fun v hv _ => ?_) (fun v hv hst => ?_) (fun v hv hst => ?_) plan hp
    · obtain ⟨d, hd, hr⟩ := hsi
      exact ⟨d, R, hd, hb.before, hr v hv, hb.singleRunUpdate⟩
    · obtain ⟨d, hd, hr⟩ := hmpi _ (.inl rfl)
      exact ⟨d, R, hd, hb.before, hr v hv, hb.launcher hst⟩
    · obtain ⟨d, hd, hr⟩ := hmpi _ (.inr rfl)
      exact ⟨d, R, hd, hb.before, hr v hv, hb.worker hst⟩
  exact hf.imp fun xs hhas => hhas.2

end Bystander

theorem Finds.of_getPodSpec {name P spec} (hf : Finds replica name P h.root)
    (hs : getPodSpec h replica = .ok spec) : P (containersNamed name spec) := by
  obtain ⟨spec', hp, hP⟩ := hf
  obtain ⟨path, hpa, hs⟩ := bind_ok.1 hs
  obtain rfl := podSpecPath_of_getPath? hp hpa
  obtain rfl := Except.ok.inj ((attrs_of_getPath? hp).symm.trans hs)
  exact hP

theorem finds_getPodSpec {name R} (hf : Finds replica name (Only [place] R) h.root) :
    ∃ spec c, getPodSpec h replica = .ok spec ∧ containersNamed name spec = [(place, c)] ∧ R c := by
  obtain ⟨spec, hp, ho⟩ := hf
  obtain ⟨c, hc, hR⟩ := only_one.1 ho
  refine ⟨spec, c, getPodSpec_of_getPath? hp ?_, hc, hR⟩
  cases spec with
  | obj fs =>
    cases fs with
    | nil => cases hc
    | cons f fs => rfl
  | _ => cases hc

end BenchmarkAi.Transpiler
