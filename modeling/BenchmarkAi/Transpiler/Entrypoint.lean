import BenchmarkAi.Lib.Shlex
import BenchmarkAi.Transpiler.Scripts
/-!
# The entrypoint script of an MPI job

The launcher of an MPI job starts a script, which a config map holds. `add_benchmark_cmd_to_config_map`
writes the command of the descriptor to it; no other edit changes it. All edits but those of labels
do not even look at the config maps.
-/

open Lib

namespace BenchmarkAi.Transpiler

/-! ## Scripts of config maps -/

def mapName (m : Tree) : Option String := ((m.get? "metadata").bind (·.get? "name")).bind (·.asString)

def namedMap (name : String) (m : Tree) : Bool := mapName m = some name

def scriptIn (m : Tree) : Option String := ((m.get? "data").bind (·.get? "entrypoint.sh")).bind (·.asString)

def scriptOf (name : String) (h : RootObjectHelper) : Option String := (h.config_maps.find? (namedMap name)).bind scriptIn

variable {h h' : RootObjectHelper} {m : Tree} {o : Outside} {code : String} {ml : MLDescriptor}

theorem scriptOf_congr {name}
    (hma : List.Forall₂ (fun m m' => namedMap name m' = namedMap name m ∧ scriptIn m' = scriptIn m) h.config_maps h'.config_maps) :
    scriptOf name h' = scriptOf name h := by
  unfold scriptOf
  generalize h.config_maps = maps, h'.config_maps = maps' at hma
  induction hma with
  | nil => rfl
  | cons hm _ ih =>
    rw [List.find?_cons, List.find?_cons, hm.1]
    split
    · exact hm.2
    · exact ih

/-! ## Edits that leave the scripts alone -/

def SameScripts (h h' : RootObjectHelper) : Prop := ∀ name, scriptOf name h' = scriptOf name h

instance : IsPreorder _ SameScripts where
  refl _ _ := rfl
  trans _ _ _ h₁ h₂ name := (h₂ name).trans (h₁ name)

def Aside (f : RootObjectHelper → Py RootObjectHelper) : Prop :=
  ∀ h config_maps, f { h with config_maps } = (f h).map fun h' => { h' with config_maps }

section Aside
variable {f g : RootObjectHelper → Py RootObjectHelper}

theorem aside_pure : Aside pure := fun _ _ => rfl

theorem Aside.bind (hf : Aside f) (hg : Aside g) : Aside (fun h => f h >>= g) := by
  intro h config_maps
  dsimp only
  rw [hf, bind_of_map, map_of_bind]
  exact congrArg _ (funext fun h' => hg h' config_maps)

theorem aside_onPodSpec (replica : Option String) (f : Tree → Py Tree) : Aside (onPodSpec replica f) := by
  intro h config_maps
  unfold onPodSpec
  simp only [map_of_bind]
  rfl

theorem Aside.retains (hf : Aside f) : Within SameScripts f := by
  intro h h' hok name
  have hs := hf h h.config_maps
  rw [hok] at hs
  have hm : h' = { h' with config_maps := h.config_maps } := Except.ok.inj hs
  rw [hm]
  rfl

theorem aside_addEnvVars (container : String) (env : List (String × Tree)) (replica : Option String) :
    Aside (addEnvVars container env replica) := by
  unfold addEnvVars
  split
  · exact aside_pure
  · exact aside_onPodSpec _ _

theorem aside_addExtendedShm (container : String) (replica : Option String) : Aside (addExtendedShm container replica) :=
  (aside_onPodSpec _ _).bind ((aside_onPodSpec _ _).bind (aside_onPodSpec _ _))

theorem aside_removeMetricsSidecars (replica : Option String) : Aside (removeMetricsSidecars replica) :=
  (aside_onPodSpec _ _).bind (aside_onPodSpec _ _)

end Aside

/-! ## Labels -/

theorem name_setLabel (key : String) (value : Tree) (fs : List (String × Tree)) :
    ((setLabel key value fs).lookup "metadata").bind (·.get? "name") = (fs.lookup "metadata").bind (·.get? "name") := by
  have ha (m : String × Tree) (ms : List (String × Tree)) (labels : Tree)
      (hm : fs.lookup "metadata" = some (.obj (m :: ms))) :
      ((assign "metadata" (.obj (assign "labels" labels (m :: ms))) fs).lookup "metadata").bind (·.get? "name") =
        (fs.lookup "metadata").bind (·.get? "name") := by
    rw [lookup_assign_self, hm]
    exact lookup_assign_ne (by decide) _ _
  unfold setLabel
  split
  · rename_i m ms hm
    split
    · exact ha m ms _ hm
    · split
      · rfl
      · exact ha m ms _ hm
    · exact ha m ms _ hm
  · rfl

theorem mapName_mapDicts (key : String) (value m : Tree) : mapName (m.mapDicts (setLabel key value)) = mapName m := by
  cases m with
  | obj fs =>
    have hn : (((Tree.obj fs).mapDicts (setLabel key value)).get? "metadata").bind (·.get? "name") =
        ((fs.lookup "metadata").map (·.mapDicts (setLabel key value))).bind (·.get? "name") := by
      refine (name_setLabel key value _).trans ?_
      rw [Tree.lookup_mapValues]
    unfold mapName
    rw [hn, Tree.get?]
    cases fs.lookup "metadata" with
    | none => rfl
    | some t => rw [Option.map_some, Option.bind_some, Option.bind_some, asString_get?_mapDicts]
  | _ => rfl

theorem scriptIn_mapDicts (key : String) (value m : Tree) : scriptIn (m.mapDicts (setLabel key value)) = scriptIn m := by
  unfold scriptIn
  rw [get?_mapDicts_ne key value m (by decide)]
  cases m.get? "data" with
  | none => rfl
  | some t => rw [Option.map_some, Option.bind_some, Option.bind_some, asString_get?_mapDicts]

theorem retains_addLabel (key : String) (value : Tree) : Within SameScripts (addLabel key value) := by
  intro h h' hok name
  obtain ⟨_, -, hok⟩ := bind_ok.1 hok
  obtain ⟨maps, hma, hok⟩ := bind_ok.1 hok
  iterate 2 obtain ⟨_, -, hok⟩ := bind_ok.1 hok
  cases hok
  refine scriptOf_congr ((forall₂_of_mapM hma).imp fun m m' hm => ?_)
  obtain ⟨rfl, -⟩ := addLabelTo_ok.1 hm
  exact ⟨by rw [namedMap, mapName_mapDicts, namedMap], scriptIn_mapDicts key value m⟩

theorem keeping_horovodReplicaUpdate (o : Outside) (r : Request) (scripts : List (String × String)) (replica : String) :
    Within (Onward (fun _ => True) SameScripts) (horovodReplicaUpdate o r scripts replica) :=
  within_horovodReplicaUpdate (fun _ => id) retains_addLabel (fun f => (aside_onPodSpec _ f).retains) r

/-! ## The script of an MPI job -/

def entrypointScript (code : String) (args : Option String) : String := stripLines (code ++ args.getD "")

theorem namedMap_of_metadataName {name b} (h : metadataName name m = .ok b) : namedMap name m = b := by
  obtain ⟨t, ht, hb⟩ := bind_ok.1 h
  cases hb
  obtain ⟨metadata, hm, ht⟩ := bind_ok.1 ht
  obtain ⟨t', ht', ht⟩ := bind_ok.1 ht
  cases ht
  cases m with
  | obj fs =>
    cases hm
    cases hfs : fs.lookup "metadata" with
    | none =>
      rw [hfs] at ht'
      cases ht'
      simp [namedMap, mapName, Tree.get?, hfs, isStr]
    | some metadata =>
      rw [hfs] at ht'
      cases metadata with
      | obj ms =>
        cases ht'
        rw [namedMap, mapName, Tree.get?, hfs, Option.bind_some, Tree.get?]
        cases ms.lookup "name" with
        | none => simp [isStr]
        | some t => cases t <;> simp [isStr, Tree.asString, Bool.beq_eq_decide_eq, eq_comm]
      | _ => cases ht'
  | _ => cases hm

theorem find?_editFirst {name f} {maps maps' : List Tree}
    (hf : ∀ m m', f m = .ok m' → namedMap name m' = namedMap name m)
    (h : editFirst (metadataName name) f maps = .ok (some maps')) :
    ∃ m m', f m = .ok m' ∧ maps'.find? (namedMap name) = some m' := by
  induction maps generalizing maps' with
  | nil => cases pure_ok.1 h
  | cons m maps ih =>
    obtain ⟨b, hb, h⟩ := bind_ok.1 h
    have hn := namedMap_of_metadataName hb
    split at h
    · rename_i ht
      obtain ⟨m', hm', h⟩ := bind_ok.1 h
      obtain rfl := Option.some.inj (pure_ok.1 h)
      refine ⟨m, m', hm', ?_⟩
      rw [List.find?_cons, hf m m' hm', hn, ht]
    · rename_i hfa
      obtain ⟨rest, hr, h⟩ := bind_ok.1 h
      obtain ⟨rest', rfl, rfl⟩ := Option.map_eq_some_iff.1 (pure_ok.1 h)
      obtain ⟨m₁, m₁', hm₁, hfi⟩ := ih hr
      refine ⟨m₁, m₁', hm₁, ?_⟩
      rw [List.find?_cons, hn, Bool.not_eq_true b |>.mp hfa]
      exact hfi

def writeScript (text : String) (config_map : Tree) : Py Tree := do
  match ← attr "data" config_map with
  | .obj data => return config_map.put "data" (.obj (assign "entrypoint.sh" (.str text) data))
  | _ => throw .builtin

theorem addBenchmarkCmdToConfigMap_eq {job_id replica} (hc : ml.benchmark_code = some code) (hne : code ≠ "") :
    addBenchmarkCmdToConfigMap o job_id (some ml) replica =
      editConfigMap ("entrypoint-" ++ job_id) (writeScript (entrypointScript code ml.args)) := by
  funext h
  unfold addBenchmarkCmdToConfigMap
  simp [hc, truthy, hne]
  rfl

theorem of_writeScript {text m'} (h : writeScript text m = .ok m') :
    mapName m' = mapName m ∧ scriptIn m' = some text := by
  obtain ⟨data, hd, h⟩ := bind_ok.1 h
  cases m with
  | obj fs =>
    split at h
    · cases h
      constructor
      · rw [mapName, Tree.get?_put_ne (by decide), mapName]
      · simp [scriptIn, Tree.put, Tree.get?, lookup_assign_self, Tree.asString]
    · cases h
  | _ => cases hd

theorem scriptOf_editConfigMap {name text} (hok : editConfigMap name (writeScript text) h = .ok h') :
    scriptOf name h' = some text := by
  obtain ⟨found, hf, hok⟩ := bind_ok.1 hok
  cases found with
  | none =>
    obtain ⟨_, -, hok⟩ := bind_ok.1 hok
    cases hok
  | some maps =>
    cases hok
    have hs (m m' : Tree) (hm : writeScript text m = .ok m') : namedMap name m' = namedMap name m := by
      rw [namedMap, (of_writeScript hm).1, namedMap]
    obtain ⟨m, m', hm, hfi⟩ := find?_editFirst hs hf
    rw [scriptOf, hfi]
    exact (of_writeScript hm).2

theorem scriptOf_buildBenchmark {r : Request} (hok : buildBenchmark o r = .ok h) (hs : r.descriptor.hardware.strategy = .horovod)
    (hml : r.descriptor.ml = some ml) (hc : ml.benchmark_code = some code) (hne : code ≠ "") :
    scriptOf ("entrypoint-" ++ r.jobId o) h = some (entrypointScript code ml.args) := by
  obtain ⟨scripts, -, hok⟩ := bind_ok.1 hok
  iterate 2 obtain ⟨_, -, hok⟩ := bind_ok.1 hok
  obtain ⟨b, hb, hok⟩ := bind_ok.1 hok
  cases hok
  unfold benchmarkUpdate at hb
  rw [hs] at hb
  obtain ⟨b₁, -, hb⟩ := kleisli_ok.1 hb
  obtain ⟨b₂, hb₂, hb⟩ := kleisli_ok.1 hb
  obtain ⟨h₂, hcmd, hb₂⟩ := bind_ok.1 hb₂
  cases hb₂
  have hr := (keeping_horovodReplicaUpdate o r scripts "Launcher").comp (keeping_horovodReplicaUpdate o r scripts "Worker")
  rw [(hr _ _ hb).2]
  unfold addBenchmarkCmd at hcmd
  rw [hs, hml, addBenchmarkCmdToConfigMap_eq hc hne] at hcmd
  exact scriptOf_editConfigMap hcmd

/-! ## An MPI job with any command -/

theorem editFirst_ok {p f g ts ts'}
    (hfg : ∀ t t', f t = .ok t' → ∃ u, g t = .ok u) (h : editFirst p f ts = .ok (some ts')) :
    ∃ us, editFirst p g ts = .ok (some us) := by
  induction ts generalizing ts' with
  | nil => cases pure_ok.1 h
  | cons t ts ih =>
    obtain ⟨b, hb, h⟩ := bind_ok.1 h
    cases b with
    | true =>
      obtain ⟨t', ht', h⟩ := bind_ok.1 h
      obtain ⟨u, hu⟩ := hfg t t' ht'
      exact ⟨u :: ts, bind_ok.2 ⟨true, hb, bind_ok.2 ⟨u, hu, rfl⟩⟩⟩
    | false =>
      obtain ⟨rest, hr, h⟩ := bind_ok.1 h
      obtain ⟨rest', rfl, rfl⟩ := Option.map_eq_some_iff.1 (pure_ok.1 h)
      obtain ⟨us, hus⟩ := ih hr
      exact ⟨t :: us, bind_ok.2 ⟨false, hb, bind_ok.2 ⟨some us, hus, rfl⟩⟩⟩

/-- Whether the script can be written does not depend on its text. -/
theorem writeScript_ok {text text' m m'} (h : writeScript text m = .ok m') :
    ∃ u, writeScript text' m = .ok u := by
  obtain ⟨data, hd, h⟩ := bind_ok.1 h
  split at h
  · exact ⟨_, bind_ok.2 ⟨_, hd, rfl⟩⟩
  · cases h

def StepsAside (s : Step) : Prop :=
  ∀ b config_maps, s { b with root := { b.root with config_maps } } =
    (s b).map fun b' => { b' with root := { b'.root with config_maps } }

section StepsAside
variable {s t : Step} {f : RootObjectHelper → Py RootObjectHelper}

theorem stepsAside_pure : StepsAside pure := fun _ _ => rfl

theorem Aside.step (hf : Aside f) : StepsAside (edit f) := by
  intro b config_maps
  unfold edit
  rw [hf, bind_of_map, map_of_bind]
  rfl

theorem StepsAside.comp (hs : StepsAside s) (ht : StepsAside t) : StepsAside (s >=> t) := by
  intro b config_maps
  change (s _ >>= t) = (s b >>= t).map _
  rw [hs, bind_of_map, map_of_bind]
  exact congrArg _ (funext fun b' => ht b' config_maps)

theorem StepsAside.doIf (hs : StepsAside s) (c : Bool) : StepsAside (Transpiler.doIf c s) := by
  cases c with
  | true => exact hs
  | false => exact stepsAside_pure

theorem stepsAside_addEnvVarsStep (vars : List (String × String)) (replica : Option String) :
    StepsAside (addEnvVarsStep vars replica) := by
  intro b config_maps
  unfold addEnvVarsStep
  rw [aside_addEnvVars, bind_of_map, map_of_bind]
  refine congrArg _ (funext fun h => ?_)
  rw [aside_addEnvVars, bind_of_map, map_of_bind]
  rfl

theorem stepsAside_addScripts_nil (replica : Option String) : StepsAside (addScripts [] replica) := by
  intro b config_maps
  unfold addScripts
  dsimp only
  rw [removeContainer, aside_onPodSpec, bind_of_map, map_of_bind]
  refine congrArg _ (funext fun h => ?_)
  rw [removeVolume, aside_onPodSpec, bind_of_map, map_of_bind]
  rfl

end StepsAside

def mpiRequest (ml : Option MLDescriptor) : Request :=
  let r := exampleRequest .empty
  { r with
    descriptor := { r.descriptor with
      hardware := { r.descriptor.hardware with strategy := .horovod }
      output := none
      ml := ml }
    event := { r.event with parent_action_id := none } }

theorem stepsAside_horovodReplicaUpdate (o : Outside) (ml : Option MLDescriptor) (replica : String) :
    StepsAside (horovodReplicaUpdate o (mpiRequest ml) [] replica) := by
  refine (aside_onPodSpec _ _).step.comp ?_
  refine (stepsAside_addScripts_nil _).comp ?_
  refine ((aside_addExtendedShm _ _).step.doIf _).comp ?_
  refine (stepsAside_addEnvVarsStep _ _).comp ?_
  refine (aside_removeMetricsSidecars _).step.comp ?_
  -- there is no parent action
  refine (stepsAside_pure.comp stepsAside_pure).comp ?_
  exact (aside_onPodSpec _ _).step.doIf _

/-- `shlex.split` raises `ValueError` for a text that it can not split. -/
def shlexSplit (text : String) : Py (List String) :=
  match Shlex.split text with
  | some words => .ok words
  | none => .error .builtin

def shlexOutside : Outside := { plainOutside with shlexSplit }

def mpiBefore (ml : Option MLDescriptor) : Py RootObjectHelper :=
  fillTemplate shlexOutside .mpi_job_horovod (benchmarkValues shlexOutside (mpiRequest ml)) >>=
    addDataVolumeMounts shlexOutside (mpiRequest ml).config.bai_config [] benchmarkContainer (some "Worker")

def mpiAfter (ml : Option MLDescriptor) : Step :=
  horovodReplicaUpdate shlexOutside (mpiRequest ml) [] "Launcher" >=>
    horovodReplicaUpdate shlexOutside (mpiRequest ml) [] "Worker"

/-- An MPI job is built whatever its command is. -/
theorem exists_mpi_build (ml : MLDescriptor) (hco : ml.benchmark_code = some code) (hne : code ≠ "") :
    ∃ h, buildBenchmark shlexOutside (mpiRequest (some ml)) = .ok h := by
  have hc : (mpiBefore none).toOption.any (fun h =>
      (editFirst (metadataName "entrypoint-job-1") (writeScript "") h.config_maps).toOption.any (·.isSome) &&
        (mpiAfter none { root := h }).toOption.any (fun _ => true)) = true := by decide +kernel
  obtain ⟨h₁, hb, hr⟩ := exists_ok_of_any hc
  rw [Bool.and_eq_true] at hr
  obtain ⟨maps?, hf, hs⟩ := exists_ok_of_any hr.1
  obtain ⟨maps, rfl⟩ := Option.isSome_iff_exists.1 hs
  obtain ⟨maps', hm'⟩ := editFirst_ok (fun _ _ h => @writeScript_ok _ (entrypointScript code ml.args) _ _ h) hf
  obtain ⟨b, ha, -⟩ := exists_ok_of_any hr.2
  obtain ⟨h₀, hfi, hd⟩ := bind_ok.1 hb
  have has : StepsAside (mpiAfter none) :=
    (stepsAside_horovodReplicaUpdate _ _ _).comp (stepsAside_horovodReplicaUpdate _ _ _)
  refine ⟨{ b.root with config_maps := maps' }, bind_ok.2 ⟨[], rfl, bind_ok.2 ⟨h₀, hfi, bind_ok.2 ⟨h₀, rfl, ?_⟩⟩⟩⟩
  refine bind_ok.2 ⟨{ b with root := { b.root with config_maps := maps' } }, ?_, rfl⟩
  refine kleisli_ok.2 ⟨{ root := h₁ }, bind_ok.2 ⟨h₁, hd, rfl⟩, ?_⟩
  refine kleisli_ok.2 ⟨{ root := { h₁ with config_maps := maps' } }, ?_, ?_⟩
  · refine bind_ok.2 ⟨{ h₁ with config_maps := maps' }, ?_, rfl⟩
    change addBenchmarkCmdToConfigMap _ _ (some ml) _ _ = _
    rw [addBenchmarkCmdToConfigMap_eq hco hne]
    exact bind_ok.2 ⟨some maps', hm', rfl⟩
  · refine (has { root := h₁ } maps').trans ?_
    rw [ha]
    rfl

end BenchmarkAi.Transpiler
