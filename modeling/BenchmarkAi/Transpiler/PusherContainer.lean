import BenchmarkAi.Transpiler.BenchmarkContainer
/-!
# The metrics pusher

The container that sends the metrics, through the builders of all jobs: what stands in its
environment besides the variables of its template. Without an output section it is removed.
-/

open Lib List

namespace BenchmarkAi.Transpiler

/-! ## The variables that are added -/

def labelVar (o : Outside) (key value : String) : Tree :=
  .obj [("name", .str (o.upper metricsPusherCustomLabelPrefix ++ o.upper key)), ("value", .str value)]

def customVars (o : Outside) (params : Option CustomParamsDescriptor) : List Tree :=
  let dashboard := params.bind (·.dashboard)
  let region := params.bind (·.region)
  (if truthy dashboard then [labelVar o "dashboard-name" (dashboard.getD "")] else []) ++
    if truthy region then [labelVar o "region" (region.getD "")] else []

def metricsVars (o : Outside) (d : BenchmarkDescriptor) : List Tree :=
  d.info.labels.entries.map (fun kv => labelVar o kv.1 kv.2) ++ customVars o d.custom_params

def parentVars (o : Outside) (parent : Option String) : List Tree :=
  if truthy parent then [labelVar o "parent-action-id" (parent.getD "")] else []

/-- The pusher: the variables `added` behind those of its template. -/
structure PusherShows (E : List Tree → Prop) (added : List Tree) (t : Tree) : Prop where
  name : nameOf t = some metricsPusherContainer
  env : ∃ base, E base ∧ t.get? "env" = some (.arr (base ++ added))

theorem PusherShows.loose {E added} : Loose (PusherShows E added) := by
  intro t t' ht h
  refine ⟨ht.nameOf.trans h.name, ?_⟩
  rw [ht "env" (by decide)]
  exact h.env

/-! ## Containers that are not found -/

variable {t : Tree} {e : Raised} {h : RootObjectHelper} {o : Outside} {v : Values}

theorem attr_error {k} (h : attr k t = .error e) : e.isValueError = false := by
  cases t with
  | obj fs => cases h
  | _ =>
    cases h
    rfl

theorem items_error (h : items t = .error e) : e.isValueError = false := by
  unfold items at h
  split at h
  · cases h
  · cases h
  · cases h
  · cases h
    rfl

theorem splitNamed_error {name ts} (h : splitNamed name ts = .error e) : e.isValueError = false := by
  induction ts with
  | nil => cases h
  | cons t ts ih =>
    rcases bind_error.1 h with h | ⟨b, -, h⟩
    · rcases bind_error.1 h with h | ⟨u, -, h⟩
      · exact attr_error h
      · cases h
    · split at h
      · cases h
      · rcases bind_error.1 h with h | ⟨r, -, h⟩
        · exact ih h
        · cases h

/-- Only an edit of a container that is not there is a `ValueError`, if the edit itself is none. -/
theorem onContainer_error {name f spec}
    (hf : ∀ c e, f c = .error e → e.isValueError = false) (h : onContainer name f spec = .error e) (he : e.isValueError = true) :
    containersNamed name spec = [] := by
  have hno {e' : Raised} (heq : e'.isValueError = false) : e' ≠ e := by
    rintro rfl
    exact nomatch heq.symm.trans he
  rcases bind_error.1 h with h | ⟨u, hu, h⟩
  · exact absurd rfl (hno (attr_error h))
  · rcases bind_error.1 h with h | ⟨containers, hc, h⟩
    · exact absurd rfl (hno (items_error h))
    · rcases bind_error.1 h with h | ⟨r, hr, h⟩
      · exact absurd rfl (hno (splitNamed_error h))
      · rcases splitNamed_ok hr with ⟨rfl, hn⟩ | ⟨before, c, after, rfl, -⟩
        · rcases bind_error.1 h with h | ⟨w, hw, h⟩
          · exact absurd rfl (hno (attr_error h))
          · rcases bind_error.1 h with h | ⟨inits, hi, h⟩
            · exact absurd rfl (hno (items_error h))
            · rcases bind_error.1 h with h | ⟨r, hr, h⟩
              · exact absurd rfl (hno (splitNamed_error h))
              · rcases splitNamed_ok hr with ⟨rfl, hn'⟩ | ⟨before, c, after, rfl, -⟩
                · rw [containersNamed, listed, listed, listOf_of_items hu hc, listOf_of_items hw hi, hn, hn']
                  rfl
                · rcases bind_error.1 h with h | ⟨ts, -, h⟩
                  · exact absurd rfl (hno (hf _ _ h))
                  · cases h
        · rcases bind_error.1 h with h | ⟨ts, -, h⟩
          · exact absurd rfl (hno (hf _ _ h))
          · cases h

theorem attrs_error {ks} (h : attrs ks t = .error e) : e.isValueError = false := by
  induction ks generalizing t with
  | nil => cases h
  | cons k ks ih =>
    rcases bind_error.1 h with h | ⟨u, -, h⟩
    · exact attr_error h
    · exact ih h

theorem podSpecPath_error {root replica} (h : podSpecPath root replica = .error e) :
    e.isValueError = false := by
  cases replica with
  | some replica =>
    rcases bind_error.1 h with h | ⟨u, -, h⟩
    · exact attrs_error h
    · split at h
      · cases h
      · cases h
        rfl
  | none =>
    rcases bind_error.1 h with h | ⟨u, -, h⟩
    · exact attrs_error h
    · split at h
      · cases h
      · rcases bind_error.1 h with h | ⟨u, -, h⟩
        · exact attrs_error h
        · split at h
          · rcases bind_error.1 h with h | ⟨u, -, h⟩
            · exact attrs_error h
            · split at h <;> cases h
          · cases h
            rfl

theorem editContainer_error {name r f}
    (hf : ∀ c e, f c = .error e → e.isValueError = false) (hok : editContainer name r f h = .error e) (he : e.isValueError = true)
    {spec} (hp : h.root.getPath? (replicaPath r) = some spec) : containersNamed name spec = [] := by
  rcases bind_error.1 hok with hok | ⟨path, hpa, hok⟩
  · exact nomatch (podSpecPath_error hok).symm.trans he
  · obtain rfl := podSpecPath_of_getPath? hp hpa
    rw [attrs_of_getPath? hp] at hok
    rcases bind_error.1 hok with hok | ⟨_, hs, hok⟩
    · cases hok
    · cases hs
      rcases bind_error.1 hok with hok | ⟨spec', -, hok⟩
      · refine onContainer_error (fun c e hc => ?_) hok he
        rcases bind_error.1 hc with hc | ⟨t, -, hc⟩
        · exact hf c e hc
        · cases hc
      · cases hok

/-! ## Through the builders -/

section Steps
variable {r : Option String} {E : List Tree → Prop} {added : List Tree} {K : List (String × Tree) → Prop}

theorem turns_addMetricsPusherEnvVar (o : Outside) (key value : String) :
    Turns r metricsPusherContainer (Only [.main] (PusherShows E added)) (addMetricsPusherEnvVar o key value r)
      (Only [.main] (PusherShows E (added ++ [labelVar o key value]))) := by
  intro h h' hok hf
  unfold addMetricsPusherEnvVar at hok
  dsimp only at hok
  split at hok
  · rename_i e hed
    split at hok
    · -- the container is there
      rename_i he
      obtain ⟨spec, hp, ho⟩ := hf
      obtain ⟨t, ht, -⟩ := only_one.1 ho
      refine absurd (editContainer_error (fun c e hc => ?_) hed he hp) (by rw [ht]; exact cons_ne_nil _ _)
      split at hc
      · cases hc
      · rcases bind_error.1 hc with hc | ⟨u, -, hc⟩
        · exact attr_error hc
        · rcases bind_error.1 hc with hc | ⟨us, -, hc⟩
          · cases u with
            | arr us => cases hc
            | _ =>
              cases hc
              rfl
          · cases hc
    · cases hok
  · rename_i h'' hed
    cases hok
    refine turns_editContainer (fun t t' hok ht => ?_) h _ hed hf
    obtain ⟨base, hb, henv⟩ := ht.env
    rw [if_neg (by rw [henv]; simp)] at hok
    obtain ⟨old, hold, rfl⟩ := extend_ok hok
    rw [attr_of_get? henv] at hold
    obtain rfl := Tree.arr.inj (Except.ok.inj hold)
    have hn : ∀ ts, nameOf (t.put "env" ts) = nameOf t := fun ts => nameOf_put_ne (by decide)
    refine ⟨⟨(hn _).trans ht.name, base, hb, ?_⟩, hn _⟩
    rw [Tree.get?_put_self (nameIs_of_nameOf ht.name), append_assoc]
    rfl

theorem turns_labelVars (o : Outside) (labels : List (String × String)) :
    Turns r metricsPusherContainer (Only [.main] (PusherShows E added))
      (fun h => labels.foldlM (fun h kv => addMetricsPusherEnvVar o kv.1 kv.2 r h) h)
      (Only [.main] (PusherShows E (added ++ labels.map fun kv => labelVar o kv.1 kv.2))) := by
  induction labels generalizing added with
  | nil =>
    rw [map_nil, append_nil]
    exact turns_keeps within_pure
  | cons kv labels ih =>
    have hr := @ih (added ++ [labelVar o kv.1 kv.2])
    rw [append_assoc] at hr
    intro h h'' hok hf
    obtain ⟨h', h₁, h₂⟩ := bind_ok.1 hok
    exact hr h' h'' h₂ (turns_addMetricsPusherEnvVar o kv.1 kv.2 h h' h₁ hf)

/-- A label of the objects, and its variable, if there is one. -/
theorem tracks_labelledVar (hm : r ≠ some "metadata") (o : Outside) (c : Bool) (key : String) (value : Tree) (var : String) :
    Tracks r metricsPusherContainer (Has K [.main] (PusherShows E added))
      (doIf c (edit (addLabel key value) >=> edit (addMetricsPusherEnvVar o key var r)))
      (Has K [.main] (PusherShows E (added ++ if c then [labelVar o key var] else []))) := by
  cases c with
  | true => exact (tracks_keeps (keeps_addLabel hm key value)).comp (tracks_turns (turns_addMetricsPusherEnvVar o key var))
  | false =>
    rw [if_neg Bool.false_ne_true, append_nil]
    exact tracks_pure

theorem tracks_metricsStep_labels (hm : r ≠ some "metadata") (o : Outside) (d : BenchmarkDescriptor) :
    Tracks r metricsPusherContainer (Has K [.main] (PusherShows E [])) (metricsStep o d true r)
      (Has K [.main] (PusherShows E (metricsVars o d))) := by
  have hl := @turns_labelVars r E [] o d.info.labels.entries
  have hc := (@tracks_labelledVar r E (d.info.labels.entries.map fun kv => labelVar o kv.1 kv.2) K hm o
    (truthy (d.custom_params.bind (·.dashboard))) "dashboard-name" (labelValue (d.custom_params.bind (·.dashboard)))
    ((d.custom_params.bind (·.dashboard)).getD "")).comp (tracks_labelledVar hm o
    (truthy (d.custom_params.bind (·.region))) "region" (labelValue (d.custom_params.bind (·.dashboard)))
    ((d.custom_params.bind (·.region)).getD ""))
  rw [append_assoc] at hc
  exact (tracks_turns hl).comp hc

def pusherPlaces (output : Bool) : List Place := if output then [.main] else []

theorem tracks_metricsStep_pusher (hm : r ≠ some "metadata") (o : Outside) (d : BenchmarkDescriptor) (output : Bool) :
    Tracks r metricsPusherContainer (Has K [.main] (PusherShows E [])) (metricsStep o d output r)
      (Has K (pusherPlaces output) (PusherShows E (metricsVars o d))) := by
  cases output with
  | true => exact tracks_metricsStep_labels hm o d
  | false =>
    have he : Elsewhere r metricsPusherContainer r metricsExtractorContainer := elsewhere_of_ne (by decide)
    have ht : Turns r metricsPusherContainer (Only [.main] (PusherShows E [])) (removeMetricsSidecars r)
        (Only [] (PusherShows E (metricsVars o d))) := (turns_keeps (keeps_removeContainer he)).bind turns_removeContainer
    refine tracks_edit fun env h h' hok hf => ?_
    obtain ⟨spec, hp, hK, ho⟩ := hf
    obtain ⟨spec', hp', ho'⟩ := ht h h' hok ⟨spec, hp, ho⟩
    exact ⟨spec', hp', hK, ho'⟩

theorem turns_addMetricsPusherEnvVar_none {R S} (o : Outside) (key value : String) :
    Turns r metricsPusherContainer (Only [] R) (addMetricsPusherEnvVar o key value r) (Only [] S) := by
  intro h h' hok hf
  unfold addMetricsPusherEnvVar at hok
  dsimp only at hok
  split at hok
  · split at hok
    · cases hok
      exact hf.imp fun xs ho => only_nil.2 (only_nil.1 ho)
    · cases hok
  · rename_i h'' he
    obtain ⟨spec, hp, ho⟩ := hf
    obtain ⟨spec', hs', -⟩ := onPodSpec_root hp he
    obtain ⟨place, c, ts, rest, -, -, hold, -⟩ := onContainer_containers hs'
    exact nomatch hold.symm.trans (only_nil.1 ho)

theorem tracks_parentStep_pusher (hm : r ≠ some "metadata") (o : Outside) (parent : Option String) (output : Bool) :
    Tracks r metricsPusherContainer (Has K (pusherPlaces output) (PusherShows E added)) (parentStep o parent r)
      (Has K (pusherPlaces output) (PusherShows E (added ++ parentVars o parent))) := by
  refine (tracks_addParentLabel hm parent).comp ?_
  unfold parentVars
  cases truthy parent with
  | true =>
    cases output with
    | true => exact tracks_turns (turns_addMetricsPusherEnvVar o _ _)
    | false => exact tracks_turns (turns_addMetricsPusherEnvVar_none o _ _)
  | false =>
    rw [if_neg Bool.false_ne_true, append_nil]
    exact tracks_pure

end Steps

section Builders
variable {E : List Tree → Prop} {K : List (String × Tree) → Prop}

theorem bystander_pusher (o : Outside) (req : Request) (scripts : List (String × String)) :
    Bystander o req scripts metricsPusherContainer .main (pusherPlaces req.descriptor.output.isSome) (PusherShows E [])
      (PusherShows E []) (PusherShows E (metricsVars o req.descriptor))
      (PusherShows E (metricsVars o req.descriptor ++ parentVars o req.event.parent_action_id)) where
  benchmark := by decide
  puller := by decide
  lock := by decide
  before := PusherShows.loose.steady
  after := PusherShows.loose.steady
  scripts _ _ := tracks_addScripts (fun _ => PusherShows.loose) (by decide) fun _ _ => trivial
  metrics hm := tracks_metricsStep_pusher hm o _ _
  parent hm := tracks_parentStep_pusher hm o _ _

theorem tracks_inferenceServerUpdate {name places R Q} (o : Outside) (req : Request) (server : ServerDescriptor)
    (hR : Steady R) (hne : name ≠ inferenceServerContainer) (hne' : name ≠ dataPullerContainer)
    (hme : Tracks none name (Has K places R) (metricsStep o req.descriptor server.output.isSome none) Q) :
    Tracks none name (Has K places R) (inferenceServerUpdate o req server) Q := by
  have he : Elsewhere none name none inferenceServerContainer := elsewhere_of_ne hne
  have hm : none ≠ some "metadata" := nofun
  refine (tracks_keeps (keeps_setServiceAccount (akin_self _) _)).comp ?_
  refine ((tracks_keeps (within_addExtendedShm (allowsPod_containers rfl (by decide)) (allows_containers he (by decide)))).doIf _).comp ?_
  refine (tracks_keeps (within_addServerCommand (allows_containers he (by decide)) o _)).comp ?_
  refine (tracks_turns (turns_addDataVolumeMounts hR hne' o _ _)).comp ?_
  refine (tracks_keeps (within_addEnvVars (allows_containers he (by decide)) _)).comp ?_
  refine (tracks_keeps (keeps_addTcpPorts _ _)).comp ?_
  refine (tracks_keeps (within_addContainerPorts (allows_containers he (by decide)) _)).comp ?_
  refine (tracks_keeps (within_addProbe (allows_containers he (by decide)) _)).comp ?_
  refine (tracks_addParentLabel hm _).comp (hme.comp ?_)
  exact (tracks_keeps (keeps_removeAffinity (akin_self _))).doIf _

end Builders

/-! ## The pods -/

def Template.pusherEnv (v : Values) : List Doc :=
  match (metricsPusher v) with
  | .obj fs =>
    match fs.lookup "env" with
    | some (.arr vars) => vars
    | _ => []
  | _ => []

def PusherEnv (o : Outside) (v : Values) (vars : List Tree) : Prop :=
  Doc.readItems o.yaml.scalar (Template.pusherEnv v) = some vars

theorem pusherShows_read {c} (hc : (Template.metricsPusher v).read o.yaml.scalar = some c) :
    PusherShows (PusherEnv o v) [] c := by
  refine ⟨nameOf_read rfl hc, ?_⟩
  obtain ⟨u, hu, hr⟩ := get?_read (k := "env") hc rfl
  obtain ⟨vars, hv, rfl⟩ := Option.map_eq_some_iff.1 (by rwa [Doc.read] at hr)
  refine ⟨vars, hv, ?_⟩
  rw [append_nil]
  exact hu

theorem contains_jobSingleNode_pusher :
    Template.Contains .job_single_node "Job" none metricsPusherContainer fun v => [(.main, Template.metricsPusher v)] :=
  fun _ => ⟨[], _, _, _, _, rfl, rfl, rfl, rfl, rfl, rfl, rfl, rfl⟩

theorem contains_mpiJobHorovod_pusher {replica} (hr : replica = "Launcher" ∨ replica = "Worker") :
    Template.Contains .mpi_job_horovod "MPIJob" (some replica) metricsPusherContainer
      fun v => [(.main, Template.metricsPusher v)] := by
  intro v
  rcases hr with rfl | rfl <;> exact ⟨[_, _], _, _, _, _, rfl, rfl, rfl, rfl, rfl, rfl, rfl, rfl⟩

theorem contains_inferenceServerJob_pusher : Template.Contains .inference_server_job "Job" none metricsPusherContainer
      fun v => [(.main, Template.metricsPusher v)] :=
  fun _ => ⟨[_], _, _, _, _, rfl, rfl, rfl, rfl, rfl, rfl, rfl, rfl⟩

/-- The pusher of each pod of a benchmark job, or that there is none. -/
theorem pusher_container {r : Request} (hok : buildBenchmark o r = .ok h)
    (hs : Scalars o r.descriptor.hardware.strategy.template (benchmarkValues o r)) (hv : benchmarkValues o r = .ok v)
    {plan : PodPlan} (hp : plan ∈ benchmarkPods r) :
    Finds plan.replica metricsPusherContainer (Only (pusherPlaces r.descriptor.output.isSome)
      (PusherShows (PusherEnv o v) (metricsVars o r.descriptor ++ parentVars o r.event.parent_action_id))) h.root := by
  obtain ⟨scripts, hsc⟩ := buildBenchmark_scripts hok
  have hre (v' : Values) (hv' : benchmarkValues o r = .ok v') (c : Tree)
      (hc : (Template.metricsPusher v').read o.yaml.scalar = some c) : PusherShows (PusherEnv o v) [] c := by
    obtain rfl := Except.ok.inj (hv.symm.trans hv')
    exact pusherShows_read hc
  exact (bystander_pusher o r scripts).finds hok hs hsc ⟨_, contains_jobSingleNode_pusher, hre⟩
    (fun _ hr => ⟨_, contains_mpiJobHorovod_pusher hr, hre⟩) hp

theorem server_pusher_container {r : Request} {server : ServerDescriptor} (hok : buildInferenceServer o r server = .ok h)
    (hs : Scalars o .inference_server_job (serverValues o r server)) (hv : serverValues o r server = .ok v) :
    Finds none metricsPusherContainer (Only (pusherPlaces server.output.isSome)
      (PusherShows (PusherEnv o v) (metricsVars o r.descriptor))) h.root := by
  obtain ⟨v', docs, hv', hr⟩ := hs
  obtain rfl := Except.ok.inj (hv.symm.trans hv')
  rw [buildInferenceServer, hv] at hok
  have hm : none ≠ some "metadata" := (Option.some_ne_none _).symm
  obtain ⟨env, hf⟩ := finds_build hok hr contains_inferenceServerJob_pusher (.inl ⟨rfl, rfl⟩) PusherShows.loose.steady
    (forall_mem_singleton.2 fun c hc => pusherShows_read hc)
    (tracks_inferenceServerUpdate o r server PusherShows.loose.steady (by decide) (by decide)
      (tracks_metricsStep_pusher hm o _ _))
  exact hf.imp fun xs hhas => hhas.2

theorem server_benchmark_container {r server} (hok : buildInferenceServer o r server = .ok h)
    (hs : Scalars o .inference_server_job (serverValues o r server)) : Finds none benchmarkContainer (· = []) h.root := by
  obtain ⟨v, docs, hv, hr⟩ := hs
  rw [buildInferenceServer, hv] at hok
  have ht : Template.Contains .inference_server_job "Job" none benchmarkContainer fun _ => [] :=
    fun _ => ⟨[_], _, _, _, _, rfl, rfl, rfl, rfl, rfl, rfl, rfl, rfl⟩
  have hm : none ≠ some "metadata" := (Option.some_ne_none _).symm
  have hp : Elsewhere none benchmarkContainer none metricsPusherContainer := elsewhere_of_ne (by decide)
  have he : Elsewhere none benchmarkContainer none metricsExtractorContainer := elsewhere_of_ne (by decide)
  obtain ⟨env, hf⟩ := finds_build (R := fun _ => True) hok hr ht (.inl ⟨rfl, rfl⟩) (fun _ _ _ _ => trivial)
    (forall_mem_nil _) (tracks_inferenceServerUpdate o r server (fun _ _ _ _ => trivial) (by decide) (by decide)
      (tracks_metricsStep_else hp he hm o _ _))
  exact hf.imp fun xs hhas => only_nil.1 hhas.2

end BenchmarkAi.Transpiler
