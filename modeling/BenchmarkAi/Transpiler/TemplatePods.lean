import BenchmarkAi.Transpiler.PodBuilders
import BenchmarkAi.Transpiler.TemplateLabels
/-!
# The pods of the templates

Where each value is one scalar in its place, a filled template shows a pod that is known
in advance. From there the edits of the builder lead to the pod of the specification.
-/

open Lib List

namespace BenchmarkAi.Transpiler

/-! ## Documents that show a pod -/

def Draws {α : Type} (R : Tree → α → Prop) (d : Doc) (x : α) : Prop :=
  ∀ scalar t, d.read scalar = some t → R t x

variable {α : Type} {R : Tree → α → Prop} {xs : List α} {ts : List Tree} {p : PodShape} {replica : Option String} {kind : String}
  {h : RootObjectHelper} {o : Outside} {r : Request}

variable {ds : List Doc} {d : Doc} {t' spec spec' : Tree} {X : Tree → Prop} {server : ServerDescriptor}

section Draws
variable {scalar : String → Option Tree} {fs : List (String × Doc)} {t : Tree} {k : String}

theorem get?_read_text {s} (h : (Doc.obj fs).read scalar = some t) (hk : fs.lookup k = some (Template.text s)) :
    t.get? k = some (.str s) := by
  obtain ⟨u, hu, hs⟩ := get?_read h hk
  rw [hu, ← hs]
  rfl

theorem get?_read_none (h : (Doc.obj fs).read scalar = some t) (hk : fs.lookup k = none) : t.get? k = none := by
  have hu := read_obj h k
  rwa [hk, Option.map_none, Option.map_eq_none_iff] at hu

theorem listShows_read (h : (Doc.obj fs).read scalar = some t) (hk : fs.lookup k = some (.arr ds)) (hds : Forall₂ (Draws R) ds xs) :
    ListShows R t k xs := by
  obtain ⟨ts, hget, hts⟩ := get?_read_arr h hk
  exact ⟨ts, hget, forall₂_comp (fun t _ _ ht hd => hd scalar t ht) hts.flip hds⟩

end Draws

theorem draws_name {fs : List (String × Doc)} {name} (h : fs.lookup "name" = some (Template.text name)) :
    Draws NameIs (.obj fs) name := fun _ _ ht => get?_read_text ht h

theorem draws_mount (name path : String) : Draws MountShows (Template.mount name path) name := by
  intro scalar t ht
  cases ht
  exact ⟨rfl, by simp [Tree.pyEq, Tree.pyEqFields, lookup_cons_if]⟩

theorem draws_mountFile (name path file : String) : Draws MountShows (Template.mountFile name path file) name := by
  intro scalar t ht
  cases ht
  exact ⟨rfl, by simp [Tree.pyEq, Tree.pyEqFields, lookup_cons_if]⟩

theorem draws_container {fs : List (String × Doc)} {name ms volumes}
    (hn : fs.lookup "name" = some (Template.text name)) (hm : fs.lookup "volumeMounts" = some (.arr ms))
    (hms : Forall₂ (Draws MountShows) ms volumes) (ha : isPuller name = false ∨ fs.lookup "args" = none)
    (he : name ≠ metricsExtractorContainer) : Draws ContainerShows (.obj fs) (.of name volumes) := by
  intro scalar t ht
  refine ⟨get?_read_text ht hn, .inr (listShows_read ht hm hms), fun hp => ?_, fun heq => absurd heq he⟩
  rcases ha with ha | ha
  · cases hp.symm.trans ha
  · exact get?_read_none ht ha

theorem draws_container_bare {fs : List (String × Doc)} {name}
    (hn : fs.lookup "name" = some (Template.text name)) (hm : fs.lookup "volumeMounts" = none)
    (hw : watched name = none) : Draws ContainerShows (.obj fs) (.of name []) := by
  intro scalar t ht
  refine ⟨get?_read_text ht hn, .inl ⟨get?_read_none ht hm, rfl⟩, fun hp => ?_, fun he => ?_⟩
  · have hp : isPuller name = true := hp
    rw [watched, if_pos hp] at hw
    cases hw
  · rw [show name = metricsExtractorContainer from he] at hw
    cases hw

theorem draws_pod {fs : List (String × Doc)} {inits mains volumes}
    (hi : fs.lookup "initContainers" = some (.arr inits)) (hm : fs.lookup "containers" = some (.arr mains))
    (hv : fs.lookup "volumes" = some (.arr volumes)) (hin : Forall₂ (Draws ContainerShows) inits p.inits)
    (hma : Forall₂ (Draws ContainerShows) mains p.mains) (hvo : Forall₂ (Draws NameIs) volumes p.volumes) :
    Draws Shows (.obj fs) p := by
  intro scalar t ht
  exact ⟨listShows_read ht hi hin, listShows_read ht hm hma, listShows_read ht hv hvo⟩

/-- The text that is read between single quotes, if there is one. -/
def unquoted (quoted : String) : String := (Scalar.single quoted).getD ""

/-- A variable that is written in single quotes, behind variables of other names. -/
theorem envValue_readItems {scalar name quoted before after}
    (hb : ∀ var ∈ before, ∃ fs other, var = .obj fs ∧ fs.lookup "name" = some (Template.text other) ∧ other ≠ name)
    (h : Forall₂ (fun d t => d.read scalar = some t) (before ++ Template.envValue name (.single quoted) :: after) ts) :
    ((ts.find? fun var => nameOf var = some name).bind fun var => (var.get? "value").bind (·.asString)) =
      some (unquoted quoted) := by
  induction before generalizing ts with
  | nil =>
    obtain ⟨t, us, ht, -, rfl⟩ := forall₂_cons_left_iff.1 h
    have hn : nameOf t = some name := by
      rw [nameOf, get?_read_text ht rfl]
      rfl
    obtain ⟨u, hu, hv⟩ := get?_read (k := "value") ht rfl
    rw [find?_cons_of_pos (by rw [hn]; simp), Option.bind_some, hu, Option.bind_some]
    rw [Doc.read, Option.map_eq_some_iff] at hv
    obtain ⟨text, ht, rfl⟩ := hv
    rw [unquoted, ht]
    rfl
  | cons var before ih =>
    rw [forall_mem_cons] at hb
    obtain ⟨⟨fs, other, rfl, ho, hne⟩, hb⟩ := hb
    obtain ⟨t, us, ht, hus, rfl⟩ := forall₂_cons_left_iff.1 h
    have hn : nameOf t = some other := by
      rw [nameOf, get?_read_text ht ho]
      rfl
    rw [find?_cons_of_neg (by rw [hn]; simpa using hne)]
    exact ih hb hus

/-! ## Where the pod of a document is -/

def Doc.getPath? : Doc → List String → Option Doc
  | d, [] => some d
  | .obj fs, k :: ks => (fs.lookup k).bind (·.getPath? ks)
  | _, _ :: _ => none

theorem getPath?_read {scalar ks} {d e : Doc} {t : Tree} (hd : d.getPath? ks = some e) (ht : d.read scalar = some t) :
    ∃ u, t.getPath? ks = some u ∧ e.read scalar = some u := by
  induction ks generalizing d t with
  | nil =>
    cases hd
    exact ⟨t, rfl, ht⟩
  | cons k ks ih =>
    cases d with
    | obj fs =>
      obtain ⟨d', hd', he⟩ := Option.bind_eq_some_iff.1 hd
      obtain ⟨t', ht', hr⟩ := get?_read ht hd'
      rw [Tree.getPath?, ht']
      exact ih he hr
    | _ => cases hd

theorem at_read {scalar pod t} (hpod : d.getPath? (replicaPath replica) = some pod)
    (hp : Draws Shows pod p) (ht : d.read scalar = some t) : At replica p t := by
  obtain ⟨spec, hs, hr⟩ := getPath?_read hpod ht
  exact ⟨spec, hs, hp scalar spec hr⟩

/-! ## Empty lists -/

/-- Only an empty list is made a list. -/
theorem orEmptyList_cases {k} {t : Tree} (h : ListShows R t k xs) (hok : orEmptyList k t = .ok t') :
    t' = t ∨ xs = [] ∧ t' = t.put k (.arr []) := by
  obtain ⟨ts, hget, hall⟩ := h
  unfold orEmptyList at hok
  rw [attr_of_get? hget] at hok
  obtain ⟨u, hu, hok⟩ := bind_ok.1 hok
  cases hu
  split at hok
  · exact .inl (pure_ok.1 hok).symm
  · rename_i hf
    cases hall with
    | nil => exact .inr ⟨rfl, (pure_ok.1 hok).symm⟩
    | cons _ _ => exact absurd rfl hf

theorem shows_orEmptyList_inits (h : Shows spec p) (hok : orEmptyList "initContainers" spec = .ok spec') : Shows spec' p := by
  rcases orEmptyList_cases h.inits hok with rfl | ⟨hnil, rfl⟩
  · exact h
  · exact ⟨h.inits.put_self (hnil ▸ .nil), h.mains.put_ne (by decide), h.volumes.put_ne (by decide)⟩

theorem shows_orEmptyList_volumes (h : Shows spec p) (hok : orEmptyList "volumes" spec = .ok spec') : Shows spec' p := by
  rcases orEmptyList_cases h.volumes hok with rfl | ⟨hnil, rfl⟩
  · exact h
  · exact ⟨h.inits.put_ne (by decide), h.mains.put_ne (by decide), h.volumes.put_self (hnil ▸ .nil)⟩

theorem containerShows_orEmptyList {t c} (h : ContainerShows t c)
    (hok : orEmptyList "volumeMounts" t = .ok t') : ContainerShows t' c := by
  rcases h.mounts with ⟨-, hnil⟩ | hl
  · obtain ⟨u, -, hok⟩ := bind_ok.1 hok
    split at hok
    · cases hok
      exact h
    · cases hok
      have hput := h.put_mounts .nil
      rwa [← hnil] at hput
  · rcases orEmptyList_cases hl hok with rfl | ⟨hnil, rfl⟩
    · exact h
    · have hput := h.put_mounts .nil
      rwa [← hnil] at hput

theorem forall₂_orEmptyList {us cs} (h : Forall₂ ContainerShows ts cs)
    (hus : Forall₂ (fun t u => orEmptyList "volumeMounts" t = .ok u) ts us) : Forall₂ ContainerShows us cs := by
  induction h generalizing us with
  | nil =>
    cases hus
    exact .nil
  | cons ht _ ih =>
    cases hus with
    | cons hu hus => exact .cons (containerShows_orEmptyList ht hu) (ih hus)

theorem quiet_createEmptyFields {r r'} (hr : Akin r r') : Within (SameShape r) (createEmptyFields r') := by
  refine quiet_onPodSpec hr fun spec spec' p hsp hf => ?_
  obtain ⟨spec₁, h₁, hf⟩ := bind_ok.1 hf
  obtain ⟨spec₂, h₂, hf⟩ := bind_ok.1 hf
  have hs := shows_orEmptyList_volumes (shows_orEmptyList_inits hsp h₁) h₂
  obtain ⟨u, hu, hf⟩ := bind_ok.1 hf
  obtain ⟨containers, hc, hf⟩ := bind_ok.1 hf
  obtain ⟨us, hus, hf⟩ := bind_ok.1 hf
  cases hf
  have hall := hs.mains.items (bind_ok.2 ⟨u, hu, hc⟩)
  exact ⟨hs.inits.put_ne (by decide), hs.mains.put_self (forall₂_orEmptyList hall (forall₂_of_mapM hus)),
    hs.volumes.put_ne (by decide)⟩

/-! ## Loading -/

theorem readDoc_root {l} {d : Tree} (hk : d.get? "kind" = some (.str kind))
    (hr : kind ∈ ["CronJob", "Job", "MPIJob"]) : readDoc l d = .ok { l with kind := some (.str kind), root := some d } := by
  simp only [mem_cons, not_mem_nil, or_false] at hr
  rcases hr with rfl | rfl | rfl <;> simp [readDoc, hk, isStr] <;> rfl

def PodKind (kind : String) (replica : Option String) : Prop :=
  kind = "Job" ∧ replica = none ∨ kind = "MPIJob" ∧ (replica = some "Launcher" ∨ replica = some "Worker")

theorem PodKind.ne_metadata (h : PodKind kind replica) : replica ≠ some "metadata" := by
  rcases h with ⟨-, rfl⟩ | ⟨-, rfl | rfl⟩ <;> decide

/-- The root is the last document of a template; it keeps what it keeps while the empty lists
are made. -/
theorem ofDocs_root {before} {d : Tree} (hok : ofDocs (before ++ [d]) = .ok h) (hk : d.get? "kind" = some (.str kind))
    (hki : PodKind kind replica) (hX : X d)
    (hf : ∀ r h h', Akin replica r → createEmptyFields r h = .ok h' → X h.root → X h'.root) : X h.root := by
  unfold ofDocs at hok
  rw [foldlM_append] at hok
  obtain ⟨l, hl, hok⟩ := bind_ok.1 hok
  obtain ⟨l₀, -, hl⟩ := bind_ok.1 hl
  rw [foldlM_cons, readDoc_root hk (by rcases hki with ⟨rfl, -⟩ | ⟨rfl, -⟩ <;> decide)] at hl
  cases hl
  rcases hki with ⟨rfl, rfl⟩ | ⟨rfl, hr⟩
  · obtain ⟨_, -, hok⟩ := bind_ok.1 hok
    exact hf none _ h rfl hok hX
  · have ha (a : String) : Akin replica (some a) := by
      rcases hr with rfl | rfl <;> rfl
    obtain ⟨_, -, hok⟩ := bind_ok.1 hok
    obtain ⟨h₁, h₁ok, hok⟩ := bind_ok.1 hok
    exact hf _ h₁ h (ha _) hok (hf _ _ h₁ (ha _) h₁ok hX)

/-- Each value is one node in its place: the loader reads the template's documents with it. -/
def Scalars (o : Outside) (t : Template) (v : Py Values) : Prop :=
  ∃ vs docs, v = .ok vs ∧ Doc.readItems o.yaml.scalar (t.docs vs) = some docs

theorem readItems_append {scalar before} (h : Doc.readItems scalar (before ++ [d]) = some ts) :
    ∃ us t, ts = us ++ [t] ∧ d.read scalar = some t := by
  replace h := forall₂_read h
  induction before generalizing ts with
  | nil =>
    obtain ⟨t, _, ht, ⟨⟩, rfl⟩ := forall₂_cons_left_iff.1 h
    exact ⟨[], t, rfl, ht⟩
  | cons e before ih =>
    obtain ⟨u, us, -, hus, rfl⟩ := forall₂_cons_left_iff.1 h
    obtain ⟨us, t, rfl, ht⟩ := ih hus
    exact ⟨u :: us, t, rfl, ht⟩

/-- What the last document of a template reads as, however its scalars are read, and what is
kept while the empty lists are made, holds of the filled template. -/
theorem fillTemplate_root {t : Template} {v docs}
    (hr : Doc.readItems o.yaml.scalar (t.docs v) = some docs) (hok : fillTemplate o t (.ok v) = .ok h) {before}
    {fs : List (String × Doc)} (hdo : t.docs v = before ++ [.obj fs]) (hk : fs.lookup "kind" = some (Template.text kind))
    (hki : PodKind kind replica) (hX : ∀ d, (Doc.obj fs).read o.yaml.scalar = some d → X d)
    (hf : ∀ r h h', Akin replica r → createEmptyFields r h = .ok h' → X h.root → X h'.root) : X h.root := by
  obtain ⟨_, hv, hok⟩ := bind_ok.1 hok
  cases hv
  obtain ⟨docs', hl, hok⟩ := bind_ok.1 hok
  obtain rfl := Except.ok.inj ((o.yaml.load_scalars t _ docs hr).symm.trans hl)
  rw [hdo] at hr
  obtain ⟨us, d, rfl, hd⟩ := readItems_append hr
  exact ofDocs_root hok (get?_read_text hd hk) hki (hX d hd) hf

/-- The last document of the template is a `kind`, and its pod for the replica type shows
as `p`. -/
def Template.Holds (t : Template) (kind : String) (replica : Option String) (p : Values → Pod) : Prop :=
  ∀ v, ∃ before fs pod, t.docs v = before ++ [.obj fs] ∧ fs.lookup "kind" = some (text kind) ∧
    (Doc.obj fs).getPath? (replicaPath replica) = some pod ∧ Draws Shows pod (p v).toPodShape

theorem at_fillTemplate {t : Template} {v docs}
    (hre : Doc.readItems o.yaml.scalar (t.docs v) = some docs) (hok : fillTemplate o t (.ok v) = .ok h) {p}
    (ht : t.Holds kind replica p) (hki : PodKind kind replica) : At replica (p v).toPodShape h.root := by
  obtain ⟨before, fs, pod, hdo, hk, hpod, hp⟩ := ht v
  exact fillTemplate_root hre hok hdo hk hki (fun d hd => at_read hpod hp hd) fun r h h' hr hok hat =>
    quiet_createEmptyFields hr h h' hok (p v) hat

/-! ## The pods of the templates -/

section Containers
variable (v : Values)

theorem draws_metricsPusher : Draws ContainerShows (Template.metricsPusher v) (.of "metrics-pusher" ["benchmark-ai"]) :=
  draws_container rfl rfl (.cons (draws_mount _ _) .nil) (.inl (by decide)) (by decide)

theorem draws_metricsExtractor {container} (metrics : String)
    (hc : ∀ var ∈ container, ∃ fs other, var = .obj fs ∧ fs.lookup "name" = some (Template.text other) ∧ other ≠ metricsVariable) :
    Draws ContainerShows (Template.metricsExtractor v container metrics)
      (setMetrics (unquoted metrics) (.of "metrics-extractor" ["benchmark-ai"])) := by
  intro scalar t ht
  refine ⟨get?_read_text ht rfl, .inr (listShows_read ht rfl (.cons (draws_mount _ _) .nil)), (nomatch ·), fun _ => ?_⟩
  obtain ⟨vars, henv, hv⟩ := get?_read_arr (k := "env") ht rfl
  rw [envValue, listOf, henv]
  refine envValue_readItems (fun var hvar => ?_) hv
  rcases mem_append.1 hvar with hvar | hvar
  · simp only [mem_cons, not_mem_nil, or_false] at hvar
    rcases hvar with rfl | rfl
    · exact ⟨_, "ANUBIS_POD_NAME", rfl, rfl, by decide⟩
    · exact ⟨_, "ANUBIS_POD_NAMESPACE", rfl, rfl, by decide⟩
  · exact hc var hvar

theorem draws_puller {name} (hn : name ≠ metricsExtractorContainer) (volume path : String) :
    Draws ContainerShows (Template.puller name volume path v) (.of name [volume]) :=
  draws_container rfl rfl (.cons (draws_mount _ _) .nil) (.inr rfl) hn

theorem draws_mpiPuller {name} (hn : name ≠ metricsExtractorContainer) (volume path : String) :
    Draws ContainerShows (Template.mpiPuller name volume path v) (.of name ["entrypoints-volume", volume]) :=
  draws_container rfl rfl (.cons (draws_mountFile _ _ _) (.cons (draws_mount _ _) .nil)) (.inr rfl) hn

theorem draws_statusTrigger (name job statuses : String) (command : Doc) (hw : watched name = none) :
    Draws ContainerShows (Template.statusTrigger name job statuses command v) (.of name []) :=
  draws_container_bare rfl rfl hw

theorem draws_emptyDir (name : String) : Draws NameIs (Template.emptyDir name) name := draws_name rfl

def mpiMains : List PodContainer :=
  [.of "benchmark" ["entrypoints-volume", "benchmark-ai", "scripts-volume"],
    .of "metrics-pusher" ["benchmark-ai"], .of "metrics-extractor" ["benchmark-ai"]]

theorem draws_mpiMains {k} (d : Doc) (hk : "volumeMounts" ≠ k) : Forall₂ (Draws ContainerShows)
    [Template.mpiBenchmark (k, d) v, Template.metricsPusher v, Template.metricsExtractor v [] v.metrics]
    (mpiMains.map (atName metricsExtractorContainer (setMetrics (unquoted v.metrics)))) := by
  have mounts := Forall₂.cons (draws_mountFile "entrypoints-volume" "/bin/entrypoint.sh" "entrypoint.sh")
    (.cons (draws_mount "benchmark-ai" "/tmp/benchmark-ai") (.cons (draws_mount "scripts-volume" "/bai/scipts") .nil))
  refine .cons (draws_container rfl ?_ mounts (.inl (by decide)) (by decide)) (.cons (draws_metricsPusher v)
    (.cons (draws_metricsExtractor v _ nofun) .nil))
  simp [lookup_cons_if, hk]

end Containers

def singleNodePod : Pod where
  inits := [.of "data-puller" ["datasets-volume"], .of "script-puller" ["scripts-volume"],
    .of "inference-server-lock" []]
  mains := [.of "benchmark" ["benchmark-ai", "scripts-volume"], .of "metrics-pusher" ["benchmark-ai"],
    .of "metrics-extractor" ["benchmark-ai"]]
  volumes := ["benchmark-ai", "datasets-volume", "scripts-volume"]
  mounted := by decide
  volumes_nodup := by decide
  names_nodup := by decide

def inferenceServerPod : Pod where
  inits := [.of "data-puller" ["datasets-volume"]]
  mains := [.of "inference-server" [], .of "client-lock" [], .of "metrics-pusher" ["benchmark-ai"],
    .of "metrics-extractor" ["benchmark-ai"]]
  volumes := ["benchmark-ai", "datasets-volume"]
  mounted := by decide
  volumes_nodup := by decide
  names_nodup := by decide

def launcherPod : Pod where
  inits := [.of "script-puller" ["entrypoints-volume", "scripts-volume"]]
  mains := mpiMains
  volumes := ["entrypoints-volume", "benchmark-ai", "scripts-volume"]
  mounted := by decide
  volumes_nodup := by decide
  names_nodup := by decide

def workerPod : Pod where
  inits := [.of "data-puller" ["entrypoints-volume", "datasets-volume"],
    .of "script-puller" ["entrypoints-volume", "scripts-volume"]]
  mains := mpiMains
  volumes := ["entrypoints-volume", "benchmark-ai", "scripts-volume", "datasets-volume"]
  mounted := by decide
  volumes_nodup := by decide
  names_nodup := by decide

theorem jobSingleNode_pod : Template.Holds .job_single_node "Job" none
    (fun v => singleNodePod.metricsAt metricsExtractorContainer (unquoted v.metrics)) := by
  intro v
  refine ⟨[], _, _, rfl, rfl, rfl, draws_pod rfl rfl rfl ?_ ?_ ?_⟩
  · exact .cons (draws_puller v (by decide) _ _) (.cons (draws_puller v (by decide) _ _)
      (.cons (draws_statusTrigger v _ _ _ _ (by decide)) .nil))
  · have benchmark := Forall₂.cons (draws_mount "benchmark-ai" "/tmp/benchmark-ai")
      (.cons (draws_mount "scripts-volume" "/bai/scripts") .nil)
    exact .cons (draws_container rfl rfl benchmark (.inl (by decide)) (by decide)) (.cons (draws_metricsPusher v)
      (.cons (draws_metricsExtractor v _ nofun) .nil))
  · exact .cons (draws_emptyDir _) (.cons (draws_emptyDir _) (.cons (draws_emptyDir _) .nil))

theorem inferenceServerJob_pod : Template.Holds .inference_server_job "Job" none
    (fun v => inferenceServerPod.metricsAt metricsExtractorContainer (unquoted v.server_metrics)) := by
  intro v
  refine ⟨[_], _, _, rfl, rfl, rfl, draws_pod rfl rfl rfl ?_ ?_ ?_⟩
  · exact .cons (draws_puller v (by decide) _ _) .nil
  · have hc : ∀ var ∈ [Template.envValue "ANUBIS_POD_CONTAINER" (Template.text "inference-server")],
        ∃ fs other, var = .obj fs ∧ fs.lookup "name" = some (Template.text other) ∧ other ≠ metricsVariable := by
      intro var hvar
      obtain rfl := mem_singleton.1 hvar
      exact ⟨_, _, rfl, rfl, by decide⟩
    exact .cons (draws_container_bare rfl rfl (by decide)) (.cons (draws_statusTrigger v _ _ _ _ (by decide))
      (.cons (draws_metricsPusher v) (.cons (draws_metricsExtractor v _ hc) .nil)))
  · exact .cons (draws_emptyDir _) (.cons (draws_emptyDir _) .nil)

theorem mpiJobHorovod_launcher : Template.Holds .mpi_job_horovod "MPIJob" (some "Launcher")
    (fun v => launcherPod.metricsAt metricsExtractorContainer (unquoted v.metrics)) := by
  intro v
  refine ⟨[_, _], _, _, rfl, rfl, rfl, draws_pod rfl rfl rfl ?_ (draws_mpiMains v _ (by decide)) ?_⟩
  · exact .cons (draws_mpiPuller v (by decide) _ _) .nil
  · exact .cons (draws_name rfl) (.cons (draws_emptyDir _) (.cons (draws_emptyDir _) .nil))

theorem mpiJobHorovod_worker : Template.Holds .mpi_job_horovod "MPIJob" (some "Worker")
    (fun v => workerPod.metricsAt metricsExtractorContainer (unquoted v.metrics)) := by
  intro v
  refine ⟨[_, _], _, _, rfl, rfl, rfl, draws_pod rfl rfl rfl ?_ (draws_mpiMains v _ (by decide)) ?_⟩
  · exact .cons (draws_mpiPuller v (by decide) _ _) (.cons (draws_mpiPuller v (by decide) _ _) .nil)
  · exact .cons (draws_name rfl) (.cons (draws_emptyDir _) (.cons (draws_emptyDir _) (.cons (draws_emptyDir _) .nil)))

/-! ## The pods of a specification -/

structure PodPlan where
  replica : Option String
  data_sources : List DownloadableContent
  scripts : List String
  output : Option (List MetricDescriptor)

def benchmarkPods (r : Request) : List PodPlan :=
  let output := r.descriptor.output
  match r.descriptor.hardware.strategy with
  | .single_node | .inference => [⟨none, r.fetched_data_sources, r.scripts, output⟩]
  | .horovod => [⟨some "Launcher", [], r.scripts, output⟩, ⟨some "Worker", r.fetched_data_sources, r.scripts, output⟩]

def serverPods (r : Request) (server : ServerDescriptor) : List PodPlan := [⟨none, r.fetched_models, [], server.output⟩]

/-- The pod of the plan is there, with the metrics as the loader reads their text, and with what
its pullers have to pull. -/
def Fulfils (o : Outside) (r : Request) (h : RootObjectHelper) (plan : PodPlan) : Prop :=
  ∃ scripts, plan.scripts.mapM (fun dst => s3Object o "script" (some dst)) = .ok scripts ∧
    ∃ p : Pod, At plan.replica p.toPodShape h.root ∧
      Stage (keptMetrics plan.output.isSome (some (some (unquoted (metricsText o plan.output)))))
        (pulledData o r.config.bai_config plan.data_sources) (pulledScripts scripts) [] true p

theorem leads_build {t : Template} {v docs labels update}
    (hok : build o t (.ok v) labels update = .ok h) (hr : Doc.readItems o.yaml.scalar (t.docs v) = some docs)
    {p} (ht : t.Holds kind replica p) (hk : PodKind kind replica) {P Q} (hp : P (p v))
    (hle : Leads replica P update Q) : ∃ q : Pod, At replica q.toPodShape h.root ∧ Q q := by
  obtain ⟨h₀, h₀ok, hok⟩ := bind_ok.1 hok
  obtain ⟨h₁, h₁ok, hok⟩ := bind_ok.1 hok
  obtain ⟨b, hb, hok⟩ := bind_ok.1 hok
  cases hok
  have hl := Within.foldlM (fun kv : String × String => quiet_addLabel hk.ne_metadata kv.1 (.str kv.2)) labels.entries
  have hat := hl h₀ h₁ h₁ok (p v) (at_fillTemplate hr h₀ok ht hk)
  exact hle _ b (p v) hb hat hp

theorem stage_singleNodePod :
    Stage (some none) (some none) (some none) [datasetsVolumeName, scriptsVolumeName] false singleNodePod :=
  ⟨by decide, by decide, by decide, by decide, by decide⟩

theorem stage_inferenceServerPod : Stage (some none) (some none) none [datasetsVolumeName] false inferenceServerPod :=
  ⟨by decide, by decide, by decide, by decide, by decide⟩

theorem stage_launcherPod : Stage (some none) none (some none) [scriptsVolumeName] false launcherPod :=
  ⟨by decide, by decide, by decide, by decide, by decide⟩

theorem stage_workerPod :
    Stage (some none) (some none) (some none) [datasetsVolumeName, scriptsVolumeName] false workerPod :=
  ⟨by decide, by decide, by decide, by decide, by decide⟩

theorem metrics_benchmarkValues {v : Values} (h : benchmarkValues o r = .ok v) :
    v.metrics = metricsText o r.descriptor.output := by
  iterate 2 obtain ⟨_, -, h⟩ := bind_ok.1 h
  rw [← pure_ok.1 h]

theorem metrics_serverValues {v : Values} (h : serverValues o r server = .ok v) :
    v.server_metrics = metricsText o server.output := by
  iterate 3 obtain ⟨_, -, h⟩ := bind_ok.1 h
  rw [← pure_ok.1 h]

variable {plan : PodPlan}

theorem fulfils_benchmark (hok : buildBenchmark o r = .ok h)
    (hs : Scalars o r.descriptor.hardware.strategy.template (benchmarkValues o r)) (hp : plan ∈ benchmarkPods r) :
    Fulfils o r h plan := by
  obtain ⟨scripts, hsc, hok⟩ := bind_ok.1 hok
  obtain ⟨v, docs, hv, hr⟩ := hs
  have hm := metrics_benchmarkValues hv
  unfold benchmarkPods at hp
  unfold benchmarkUpdate at hok
  rw [hv] at hok
  cases hst : r.descriptor.hardware.strategy with
  | horovod =>
    rw [hst] at hp hok hr
    rcases mem_cons.1 hp with rfl | hp
    · refine ⟨scripts, hsc, leads_build hok hr mpiJobHorovod_launcher (.inr ⟨rfl, .inl rfl⟩)
        (stage_launcherPod.withMetrics (unquoted v.metrics)) ?_⟩
      exact hm ▸ leads_horovodUpdate_launcher o r scripts hst
    · obtain rfl := mem_singleton.1 hp
      refine ⟨scripts, hsc, leads_build hok hr mpiJobHorovod_worker (.inr ⟨rfl, .inr rfl⟩)
        (stage_workerPod.withMetrics (unquoted v.metrics)) ?_⟩
      exact hm ▸ leads_horovodUpdate_worker o r scripts hst
  | _ =>
    have hl := leads_singleRunUpdate (m := some (some (unquoted v.metrics))) o r scripts (by rw [hst]; decide)
    rw [hst] at hp hok hr
    obtain rfl := mem_singleton.1 hp
    refine ⟨scripts, hsc, leads_build hok hr jobSingleNode_pod (.inl ⟨rfl, rfl⟩)
      (stage_singleNodePod.withMetrics (unquoted v.metrics)) ?_⟩
    exact hm ▸ hl

theorem fulfils_server (hok : buildInferenceServer o r server = .ok h)
    (hs : Scalars o .inference_server_job (serverValues o r server)) (hp : plan ∈ serverPods r server) :
    Fulfils o r h plan := by
  obtain ⟨v, docs, hv, hr⟩ := hs
  obtain rfl := mem_singleton.1 hp
  rw [buildInferenceServer, hv] at hok
  refine ⟨[], rfl, leads_build hok hr inferenceServerJob_pod (.inl ⟨rfl, rfl⟩)
    (stage_inferenceServerPod.withMetrics (unquoted v.server_metrics)) ?_⟩
  exact metrics_serverValues hv ▸ leads_inferenceServerUpdate o r server

end BenchmarkAi.Transpiler
