import BenchmarkAi.Transpiler.BenchmarkContainer
import BenchmarkAi.Transpiler.VolumeTheorems
import BenchmarkAi.Transpiler.Puller
/-!
# Scripts

The script puller downloads the scripts into a volume, and the benchmark finds them under
`BAI_SCRIPTS_PATH`: if its container has that volume mounted there. In the pods of an MPI job
it does not, as their template mounts the scripts at `/bai/scipts`.
-/

open Lib List

namespace BenchmarkAi.Transpiler

/-! ## The script puller -/

structure PullerShows (A : Option Tree → Prop) (t : Tree) : Prop where
  name : nameOf t = some scriptsPullerContainer
  mounts : mountPaths scriptsVolumeName t = [scriptsMountPath]
  args : A (t.get? "args")

theorem PullerShows.steady {A} : Steady (PullerShows A) := by
  intro t t' hk h
  refine ⟨hk.1.nameOf.trans h.name, ?_, ?_⟩
  · rw [mountPaths, hk.2]
    exact h.mounts
  · rw [hk.1 "args" (by decide)]
    exact h.args

section Builders
variable {A : Option Tree → Prop} {K : List (String × Tree) → Prop} {scripts : List (String × String)} {a : String × String}

theorem tracks_addScripts_puller {r} (ha : scriptArgs scripts = some a) :
    Tracks r scriptsPullerContainer (Has K [.init] (PullerShows A)) (addScripts scripts r)
      (Has (fun _ => True) [.init] (PullerShows (· = some (pullerArgs a)))) := by
  intro b b' hok hf
  rw [addScripts_args ha] at hok
  obtain ⟨root, hr, hok⟩ := bind_ok.1 hok
  cases hok
  obtain ⟨spec, hp, -, ho⟩ := hf
  have htu : Turns r scriptsPullerContainer (Only [.init] (PullerShows A))
      (editContainer scriptsPullerContainer r fun c => return c.put "args" (pullerArgs a))
      (Only [.init] (PullerShows (· = some (pullerArgs a)))) := by
    refine turns_editContainer fun t t' hok ht => ?_
    cases hok
    have hn : nameOf (t.put "args" (pullerArgs a)) = nameOf t := nameOf_put_ne (by decide)
    refine ⟨⟨hn.trans ht.name, ?_, Tree.get?_put_self (nameIs_of_nameOf ht.name) _⟩, hn⟩
    rw [mountPaths, listed, listOf_put_ne (by decide)]
    exact ht.mounts
  obtain ⟨spec', hp', ho'⟩ := htu _ _ hr ⟨spec, hp, ho⟩
  exact ⟨spec', hp', trivial, ho'⟩

theorem bystander_puller (o : Outside) (req : Request) (ha : scriptArgs scripts = some a) :
    Bystander o req scripts scriptsPullerContainer .init [.init] (PullerShows fun _ => True) (PullerShows (· = some (pullerArgs a)))
      (PullerShows (· = some (pullerArgs a))) (PullerShows (· = some (pullerArgs a))) where
  benchmark := by decide
  puller := by decide
  lock := by decide
  before := PullerShows.steady
  after := PullerShows.steady
  scripts _ _ := tracks_addScripts_puller ha
  metrics hm := tracks_metricsStep_else (elsewhere_of_ne (by decide)) (elsewhere_of_ne (by decide)) hm o _ _
  parent hm := tracks_parentStep_else (elsewhere_of_ne (by decide)) hm o _

end Builders

theorem pullerShows_read {scalar} {fs : List (String × Doc)} {c ms}
    {mounts : List Tree} (hc : (Doc.obj fs).read scalar = some c)
    (hn : fs.lookup "name" = some (Template.text scriptsPullerContainer)) (hm : fs.lookup "volumeMounts" = some (.arr ms))
    (hms : (Doc.arr ms).read scalar = some (.arr mounts))
    (hp : ((mounts.filter (nameOf · = some scriptsVolumeName)).filterMap fun m => (m.get? "mountPath").bind (·.asString)) =
      [scriptsMountPath]) : PullerShows (fun _ => True) c := by
  refine ⟨nameOf_read (d := .obj fs) (by rw [Doc.name?, hn]; rfl) hc, ?_, trivial⟩
  obtain ⟨u, hu, hr⟩ := get?_read hc hm
  obtain rfl := Option.some.inj (hms.symm.trans hr)
  rw [mountPaths, listed, listOf_of_get? hu]
  exact hp

theorem contains_jobSingleNode_puller : ∃ d : Values → Doc, Template.Contains .job_single_node "Job" none scriptsPullerContainer (fun v => [(.init, d v)]) ∧
    ∀ v scalar c, (d v).read scalar = some c → PullerShows (fun _ => True) c := by
  refine ⟨_, fun v => ⟨[], _, _, _, _, rfl, rfl, rfl, rfl, rfl, rfl, rfl, rfl⟩, fun v scalar c hc => ?_⟩
  exact pullerShows_read hc rfl rfl rfl rfl

theorem contains_mpiJobHorovod_puller {replica} (hr : replica = "Launcher" ∨ replica = "Worker") :
    ∃ d : Values → Doc, Template.Contains .mpi_job_horovod "MPIJob" (some replica) scriptsPullerContainer (fun v => [(.init, d v)]) ∧
      ∀ v scalar c, (d v).read scalar = some c → PullerShows (fun _ => True) c := by
  rcases hr with rfl | rfl
  · refine ⟨_, fun v => ⟨[_, _], _, _, _, _, rfl, rfl, rfl, rfl, rfl, rfl, rfl, rfl⟩, fun v scalar c hc => ?_⟩
    exact pullerShows_read hc rfl rfl rfl rfl
  · refine ⟨_, fun v => ⟨[_, _], _, _, _, _, rfl, rfl, rfl, rfl, rfl, rfl, rfl, rfl⟩, fun v scalar c hc => ?_⟩
    exact pullerShows_read hc rfl rfl rfl rfl

/-- With scripts, every pod of a benchmark job has one script puller. -/
theorem script_puller {o} {r : Request} {h} (hok : buildBenchmark o r = .ok h)
    (hs : Scalars o r.descriptor.hardware.strategy.template (benchmarkValues o r)) {scripts}
    (hsc : r.scripts.mapM (fun dst => s3Object o "script" (some dst)) = .ok scripts) {a}
    (ha : scriptArgs scripts = some a) {plan : PodPlan} (hp : plan ∈ benchmarkPods r) :
    ∃ spec c, getPodSpec h plan.replica = .ok spec ∧ containersNamed scriptsPullerContainer spec = [(.init, c)] ∧
      PullerShows (· = some (pullerArgs a)) c := by
  have hf : Finds plan.replica scriptsPullerContainer (Only [.init] (PullerShows (· = some (pullerArgs a)))) h.root := by
    refine (bystander_puller o r ha).finds hok hs hsc ?_ (fun replica hr => ?_) hp
    · obtain ⟨d, hd, hsh⟩ := contains_jobSingleNode_puller
      exact ⟨d, hd, fun v _ c => hsh v _ c⟩
    · obtain ⟨d, hd, hsh⟩ := contains_mpiJobHorovod_puller hr
      exact ⟨d, hd, fun v _ c => hsh v _ c⟩
  exact finds_getPodSpec hf

/-! ## From the puller to the benchmark -/

def InDirectory (directory path : String) : Prop :=
  ∃ file, path = directory ++ "/" ++ file ∧ '/' ∉ file.toList ∧ file ∉ ["", ".", ".."]

/-- The puller of the pod has a file for each object, with a target in the directory where it has the
volume mounted. If the names of the objects are clean, it reads these files. -/
def ScriptsPulled (spec : Tree) (objects : List String) : Prop :=
  ∃ p path bucket files, containersNamed scriptsPullerContainer spec = [(.init, p)] ∧
    mountPaths scriptsVolumeName p = [path] ∧ p.get? "args" = some (pullerArgs (bucket, encodeFiles files)) ∧
    files.map (·.S3FILE) = objects ∧ (∀ f ∈ files, InDirectory path f.TARGET) ∧
    ((∀ object ∈ objects, Clean object) → pullerFiles (encodeFiles files) = files)

/-- The benchmark of the pod has the volume mounted where its environment says, whatever the other
variables are. -/
def ScriptsFound (spec : Tree) : Prop :=
  ∃ c path, containersNamed benchmarkContainer spec = [(.main, c)] ∧ mountPaths scriptsVolumeName c = [path] ∧
    ∀ refs base, (containerEnviron refs base c).get? "BAI_SCRIPTS_PATH" = some path

theorem inDirectory_scriptFiles {objects} {f : PullerFile} (hf : f ∈ scriptFiles objects) :
    InDirectory scriptsMountPath f.TARGET := by
  obtain ⟨i, hi, rfl⟩ := mem_mapIdx.1 hf
  refine ⟨"s" ++ toString i, ?_, ?_, ?_⟩
  · show scriptsMountPath ++ ("/s" ++ toString i) = _
    rw [← String.toList_inj]
    simp
  · intro hc
    rw [String.toList_append, mem_append, toList_toString] at hc
    rcases hc with hc | hc
    · simp at hc
    · exact nomatch (Nat.isDigit_of_mem_toDigits (by decide) (by decide) hc)
  · intro hmem
    have hh : ("s" ++ toString i).toList.head? = some 's' := by simp
    simp only [mem_cons, not_mem_nil, or_false] at hmem
    rcases hmem with heq | heq | heq <;> rw [heq] at hh <;> simp at hh

theorem map_key_scriptFiles (objects : List String) : (scriptFiles objects).map (·.S3FILE) = objects := by
  refine ext_getElem (by simp [scriptFiles]) fun i _ _ => ?_
  simp [scriptFiles]

theorem scriptsPulled_of_shows {spec p} {scripts : List (String × String)} {a}
    (ha : scriptArgs scripts = some a) (hp : containersNamed scriptsPullerContainer spec = [(.init, p)])
    (hs : PullerShows (· = some (pullerArgs a)) p) : ScriptsPulled spec (scripts.map Prod.snd) := by
  cases scripts with
  | nil => cases ha
  | cons script scripts =>
    cases ha
    refine ⟨p, _, _, _, hp, hs.mounts, hs.args, map_key_scriptFiles _, fun f hf => inDirectory_scriptFiles hf,
      fun hc => ?_⟩
    rw [pullerFiles_encode_iff fun f hf => targets_scriptFiles hf, clean_scriptFiles_iff]
    exact hc

theorem scriptsFound_iff {spec c scripts} (hne : scripts ≠ []) {path}
    {C} (hc : containersNamed benchmarkContainer spec = [(.main, c)])
    (hs : BenchmarkShows scripts path true C c) : ScriptsFound spec ↔ path = scriptsMountPath := by
  have henv := containerEnviron_of_oneVar (hs.vars rfl hne) (by decide)
  constructor
  · rintro ⟨c', path', hc', hp, hf⟩
    obtain rfl := (Prod.mk.inj (cons.inj (hc.symm.trans hc')).1).2
    have heq : path = path' := (cons.inj ((hs.mounts hne).symm.trans hp)).1
    have hb := (henv (fun _ => "") Dict.empty).symm.trans (hf (fun _ => "") Dict.empty)
    rw [heq]
    exact (Option.some.inj hb).symm
  · rintro rfl
    exact ⟨c, _, hc, hs.mounts hne, henv⟩

theorem templateScriptsPath_iff {r : Request} {plan : PodPlan} (hp : plan ∈ benchmarkPods r) :
    templateScriptsPath plan.replica = scriptsMountPath ↔ r.descriptor.hardware.strategy ≠ .horovod := by
  unfold benchmarkPods at hp
  cases hs : r.descriptor.hardware.strategy with
  | horovod =>
    rw [hs] at hp
    simp only [mem_cons, not_mem_nil, or_false] at hp
    rcases hp with rfl | rfl <;> simp [templateScriptsPath, scriptsMountPath]
  | _ =>
    rw [hs] at hp
    obtain rfl := mem_singleton.1 hp
    simp [templateScriptsPath, scriptsMountPath]

/-- In every pod of a benchmark with scripts the puller fills its volume, and the benchmark finds
the scripts there unless it is an MPI job. -/
theorem scripts_found_iff (o : Outside) (r : Request) (h : RootObjectHelper) (hok : buildBenchmark o r = .ok h)
    (hs : Scalars o r.descriptor.hardware.strategy.template (benchmarkValues o r)) (hne : r.scripts ≠ []) :
    ∃ scripts, r.scripts.mapM (fun dst => s3Object o "script" (some dst)) = .ok scripts ∧
      ∀ plan ∈ benchmarkPods r, ∃ spec, getPodSpec h plan.replica = .ok spec ∧
        ScriptsPulled spec (scripts.map Prod.snd) ∧ (ScriptsFound spec ↔ r.descriptor.hardware.strategy ≠ .horovod) := by
  obtain ⟨scripts, hsc⟩ := buildBenchmark_scripts hok
  have hne' : scripts ≠ [] := ne_nil_of_forall₂ (forall₂_of_mapM hsc) hne
  obtain ⟨a, ha⟩ : ∃ a, scriptArgs scripts = some a := by
    cases scripts with
    | nil => exact absurd rfl hne'
    | cons script scripts => exact ⟨_, rfl⟩
  refine ⟨scripts, hsc, fun plan hpl => ?_⟩
  obtain ⟨spec, c, hsp, hc, hb⟩ := benchmark_container hok hs hsc hpl
  obtain ⟨spec', p, hsp', hp, hpu⟩ := script_puller hok hs hsc ha hpl
  obtain rfl := Except.ok.inj (hsp.symm.trans hsp')
  refine ⟨spec, hsp, scriptsPulled_of_shows ha hp hpu, ?_⟩
  rw [scriptsFound_iff hne' hc hb, templateScriptsPath_iff hpl]

def scriptsOutside : Outside := { s3Outside with yaml := plainYaml }

def scriptRequest : Request := { exampleRequest trainingLabels with scripts := ["s3://bucket/scripts/run.tar"] }

theorem scripts_found_single : ∃ h spec, buildBenchmark scriptsOutside scriptRequest = .ok h ∧
    getPodSpec h none = .ok spec ∧ ScriptsPulled spec ["scripts/run.tar"] ∧ ScriptsFound spec := by
  have hb : (buildBenchmark scriptsOutside scriptRequest).toOption.any (fun _ => true) = true := by decide +kernel
  obtain ⟨h, hok, -⟩ := exists_ok_of_any hb
  obtain ⟨scripts, hs, hpo⟩ := scripts_found_iff _ _ h hok (scalars_of_buildBenchmark rfl hok) (cons_ne_nil _ _)
  obtain ⟨spec, hsp, hp, hf⟩ := hpo _ mem_cons_self
  obtain rfl : [("bucket", "scripts/run.tar")] = scripts := Except.ok.inj hs
  exact ⟨h, spec, hok, hsp, hp, hf.2 (by decide)⟩

def mpiScriptRequest : Request :=
  { scriptRequest with
    descriptor := { scriptRequest.descriptor with hardware := { scriptRequest.descriptor.hardware with
      strategy := .horovod } }
    config := { scriptRequest.config with descriptor_config := { valid_strategies := ["horovod"], valid_frameworks := [""] } } }

/-- The launcher has the scripts at a path that its environment does not have. -/
theorem mpi_scripts_not_found : ∃ objs h spec c, createJobSpec scriptsOutside mpiScriptRequest = .ok objs ∧
    buildBenchmark scriptsOutside mpiScriptRequest = .ok h ∧ objs = h.objects ∧
    getPodSpec h (some "Launcher") = .ok spec ∧ containersNamed benchmarkContainer spec = [(.main, c)] ∧
    mountPaths scriptsVolumeName c = ["/bai/scipts"] ∧
    (∀ refs base, (containerEnviron refs base c).get? "BAI_SCRIPTS_PATH" = some "/bai/scripts") ∧ ¬ ScriptsFound spec := by
  have hv : (mpiScriptRequest.descriptor.fromDict scriptsOutside.cronValid
      mpiScriptRequest.config.descriptor_config).toOption.any (fun d => d.hardware.strategy ≠ .inference) = true := by
    decide +kernel
  have hb : (buildBenchmark scriptsOutside mpiScriptRequest).toOption.any (fun _ => true) = true := by decide +kernel
  obtain ⟨h, hok, -⟩ := exists_ok_of_any hb
  have hs : mpiScriptRequest.scripts.mapM (fun dst => s3Object scriptsOutside "script" (some dst)) =
      .ok [("bucket", "scripts/run.tar")] := rfl
  obtain ⟨spec, c, hsp, hc, hsh⟩ := benchmark_container hok (scalars_of_buildBenchmark rfl hok) hs mem_cons_self
  have hne : [("bucket", "scripts/run.tar")] ≠ [] := cons_ne_nil _ _
  refine ⟨_, h, spec, c, createJobSpec_of_valid hv hok, hok, rfl, hsp, hc, hsh.mounts hne,
    containerEnviron_of_oneVar (hsh.vars rfl hne) (by decide), ?_⟩
  rw [scriptsFound_iff hne hc hsh]
  decide

end BenchmarkAi.Transpiler
