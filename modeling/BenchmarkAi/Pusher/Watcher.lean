import BenchmarkAi.Transpiler.VolumeTheorems
import BenchmarkAi.Transpiler.PusherContainer
/-!
# The end of the metrics pusher

`bai_metrics_pusher/kubernetes_pod_watcher.py`: a thread of the pusher polls the status of the
pod until the benchmark has terminated, and then stops the pusher. `watch_contract_iff` says in
which of the generated pods the thread finds the container that it waits for.
-/

open Lib BenchmarkAi.Transpiler List

namespace BenchmarkAi.Pusher

/-! ## The thread -/

inductive ContainerState
  | waiting
  | running
  | terminated
deriving DecidableEq, Repr

structure ContainerStatus where
  name : String
  state : ContainerState
deriving DecidableEq, Repr

/-- What `read_namespaced_pod_status` comes to. A pod that has not been started has no list of
statuses. -/
inductive Poll
  | apiException
  | pod (container_statuses : Option (List ContainerStatus))
deriving DecidableEq, Repr

inductive Failure
  | apiException
  | typeError
  | keyError (name : String)
deriving DecidableEq, Repr

inductive Watch
  | watching
  | signalled
  | failed (e : Failure)
deriving DecidableEq, Repr

def awaited : String := "benchmark"

def watchRound : Poll → Watch
  | .apiException => .failed .apiException
  | .pod none => .failed .typeError
  | .pod (some container_statuses) =>
    match (Dict.ofFields (container_statuses.map fun c => (c.name, c))).get? awaited with
    | none => .failed (.keyError awaited)
    | some c => if c.state = .terminated then .signalled else .watching

def watchKubernetesPod : List Poll → Watch
  | [] => .watching
  | p :: ps =>
    match watchRound p with
    | .watching => watchKubernetesPod ps
    | w => w

/-! ## The pods -/

def Reports (spec : Tree) : Poll → Prop
  | .apiException => True
  | .pod none => False
  | .pod (some container_statuses) =>
    (container_statuses.map fun c => some c.name).Perm ((listOf "containers" spec).map nameOf)

def Poll.Ended : Poll → Prop
  | .pod (some container_statuses) => ⟨awaited, .terminated⟩ ∈ container_statuses
  | _ => False

def Pushes (spec : Tree) : Prop := ∃ c, (Place.main, c) ∈ containersNamed metricsPusherContainer spec

/-- The container is there, the thread never misses it, and while the API server answers, the
pusher is stopped as soon as a poll finds that the container has terminated. -/
structure WatchContract (spec : Tree) : Prop where
  found : ∃ c, (Place.main, c) ∈ containersNamed awaited spec
  present : ∀ polls, (∀ p ∈ polls, Reports spec p) → watchKubernetesPod polls ≠ .failed (.keyError awaited)
  stops : ∀ polls, (∀ p ∈ polls, Reports spec p ∧ p ≠ .apiException) →
    (watchKubernetesPod polls = .signalled ↔ ∃ p ∈ polls, p.Ended)

section Rounds
variable {spec : Tree} {c : Tree}

theorem filter_statuses (hc : containersNamed awaited spec = [(.main, c)]) {container_statuses : List ContainerStatus}
    (h : Reports spec (.pod (some container_statuses))) : ∃ s, container_statuses.filter (·.name = awaited) = [s] := by
  have hl : (listed "containers" awaited spec).length = 1 := by
    have hm : ((containersNamed awaited spec).filter (·.1 = .main)).length = 1 := by rw [hc]; rfl
    simpa [containersNamed, filter_map, Function.comp_def] using hm
  have hco := (h.filter (· = some awaited)).length_eq
  rw [filter_map, length_map, filter_map, length_map] at hco
  apply length_eq_one_iff.1
  rw [listed] at hl
  simpa [Function.comp_def, hl] using hco

theorem watchRound_cases (hc : containersNamed awaited spec = [(.main, c)]) {p : Poll} (h : Reports spec p)
    (hp : p ≠ .apiException) : (p.Ended ∧ watchRound p = .signalled) ∨ (¬ p.Ended ∧ watchRound p = .watching) := by
  cases p with
  | apiException => exact absurd rfl hp
  | pod statuses =>
    cases statuses with
    | none => exact h.elim
    | some container_statuses =>
      obtain ⟨s, hs⟩ := filter_statuses hc h
      have hmem (t : ContainerStatus) : t ∈ container_statuses ∧ t.name = awaited ↔ t = s := by
        rw [← mem_singleton (b := s), ← hs, mem_filter, decide_eq_true_iff]
      obtain ⟨hin, hn⟩ := (hmem s).2 rfl
      have hget : (Dict.ofFields (container_statuses.map fun c => (c.name, c))).get? awaited = some s := by
        rw [Dict.get?_ofFields]
        apply lookup_of_unique
        · rw [mem_reverse, ← hn]
          exact mem_map_of_mem hin
        · intro t ht
          rw [mem_reverse, mem_map] at ht
          obtain ⟨t', hin', heq⟩ := ht
          obtain ⟨hn', rfl⟩ := Prod.mk.inj heq
          exact (hmem t').1 ⟨hin', hn'⟩
      have hr : watchRound (.pod (some container_statuses)) = if s.state = .terminated then .signalled else .watching := by
        rw [watchRound, hget]
      have he : Poll.Ended (.pod (some container_statuses)) ↔ s.state = .terminated := by
        constructor
        · intro hte
          exact congrArg (·.state) ((hmem _).1 ⟨hte, rfl⟩).symm
        · intro hst
          have heq : s = ⟨awaited, .terminated⟩ := by rw [← hn, ← hst]
          rw [heq] at hin
          exact hin
      rw [he, hr]
      by_cases hst : s.state = .terminated
      · exact .inl ⟨hst, if_pos hst⟩
      · exact .inr ⟨hst, if_neg hst⟩

theorem watchContract_of_one (hc : containersNamed awaited spec = [(.main, c)]) : WatchContract spec where
  found := ⟨c, by rw [hc]; exact mem_cons_self⟩
  present := by
    intro polls hpo
    induction polls with
    | nil => exact nofun
    | cons p polls ih =>
      rw [forall_mem_cons] at hpo
      rw [watchKubernetesPod]
      by_cases hp : p = .apiException
      · subst hp
        exact nofun
      · rcases watchRound_cases hc hpo.1 hp with ⟨-, hr⟩ | ⟨-, hr⟩
        · rw [hr]
          exact nofun
        · rw [hr]
          exact ih hpo.2
  stops := by
    intro polls hpo
    induction polls with
    | nil => simp [watchKubernetesPod]
    | cons p polls ih =>
      rw [forall_mem_cons] at hpo
      rw [watchKubernetesPod]
      rcases watchRound_cases hc hpo.1.1 hpo.1.2 with ⟨he, hr⟩ | ⟨he, hr⟩
      · simp [hr, he]
      · simp [hr, he, ih hpo.2]

end Rounds

theorem pushes_iff {spec output R}
    (h : Only (pusherPlaces output) R (containersNamed metricsPusherContainer spec)) : Pushes spec ↔ output = true := by
  cases output with
  | true =>
    obtain ⟨c, hc, -⟩ := only_one.1 h
    exact ⟨fun _ => rfl, fun _ => ⟨c, by rw [hc]; exact mem_cons_self⟩⟩
  | false =>
    refine ⟨fun hp => ?_, nofun⟩
    obtain ⟨c, hc⟩ := hp
    rw [only_nil.1 h] at hc
    cases hc

/-! ## The generated pods -/

/-- Every pod of a benchmark job keeps the contract, with and without a pusher. The pod of an
inference server has no container with the name, so that it keeps the contract only without a
pusher. -/
theorem watch_contract_iff (o : Outside) (r : Request) (h : RootObjectHelper) :
    (buildBenchmark o r = .ok h → Scalars o r.descriptor.hardware.strategy.template (benchmarkValues o r) →
      ∀ plan ∈ benchmarkPods r, ∃ spec, getPodSpec h plan.replica = .ok spec ∧
        (Pushes spec ↔ r.descriptor.output.isSome = true) ∧ WatchContract spec) ∧
    ∀ server, buildInferenceServer o r server = .ok h → Scalars o .inference_server_job (serverValues o r server) →
      ∀ plan ∈ serverPods r server, ∃ spec, getPodSpec h plan.replica = .ok spec ∧
        (Pushes spec ↔ server.output.isSome = true) ∧ ((Pushes spec → WatchContract spec) ↔ server.output = none) := by
  constructor
  · intro hok hs plan hpl
    obtain ⟨scripts, hsc⟩ := buildBenchmark_scripts hok
    obtain ⟨spec, c, hsp, hc, -⟩ := benchmark_container hok hs hsc hpl
    obtain ⟨v, -, hv, -⟩ := id hs
    have hp := (pusher_container hok hs hv hpl).of_getPodSpec hsp
    exact ⟨spec, hsp, pushes_iff hp, watchContract_of_one hc⟩
  · intro server hok hs plan hpl
    obtain ⟨scripts, -, p, hat, -⟩ := fulfils_server hok hs hpl
    obtain ⟨spec, hsp, -⟩ := getPodSpec_of_at hat
    obtain rfl := mem_singleton.1 hpl
    obtain ⟨v, -, hv, -⟩ := id hs
    have hp := pushes_iff ((server_pusher_container hok hs hv).of_getPodSpec hsp)
    have hn : containersNamed awaited spec = [] := (server_benchmark_container hok hs).of_getPodSpec hsp
    have hb : ¬ WatchContract spec := by
      intro hco
      obtain ⟨c, hc⟩ := hco.found
      rw [hn] at hc
      cases hc
    refine ⟨spec, hsp, hp, ?_⟩
    rw [hp]
    cases server.output with
    | none => exact ⟨fun _ => rfl, fun _ => nofun⟩
    | some metrics => exact ⟨fun hco => absurd (hco rfl) hb, nofun⟩

theorem watch_contract_training : ∃ h spec, buildBenchmark plainOutside (exampleRequest trainingLabels) = .ok h ∧
    getPodSpec h none = .ok spec ∧ Pushes spec ∧ WatchContract spec := by
  have hb : (buildBenchmark plainOutside (exampleRequest trainingLabels)).toOption.any (fun _ => true) = true := by
    decide +kernel
  obtain ⟨h, hok, -⟩ := exists_ok_of_any hb
  obtain ⟨spec, hs, hp, hc⟩ :=
    (watch_contract_iff _ _ h).1 hok (scalars_of_buildBenchmark rfl hok) _ mem_cons_self
  exact ⟨h, spec, hok, hs, hp.2 rfl, hc⟩

def serverRequest : Request :=
  let r := exampleRequest trainingLabels
  { r with
    descriptor := { r.descriptor with
      hardware := { r.descriptor.hardware with strategy := .inference }
      server := some {
        hardware := { instance_type := "p3.8xlarge" }
        env := { docker_image := "server-image", ports := [8080], start_command := "serve.sh" }
        output := some [] } }
    config := { r.config with descriptor_config := { valid_strategies := ["inference"], valid_frameworks := [""] } } }

def serverPoll : Poll :=
  .pod (some [⟨"inference-server", .running⟩, ⟨"client-lock", .running⟩, ⟨"metrics-pusher", .running⟩,
    ⟨"metrics-extractor", .running⟩])

theorem createJobSpec_of_server {o : Outside} {r : Request} {server} {job h : RootObjectHelper}
    (hv : (r.descriptor.fromDict o.cronValid r.config.descriptor_config).toOption.any
      (fun d => d.hardware.strategy = .inference) = true) (hs : r.descriptor.server = some server)
    (hjob : buildBenchmark o r = .ok job) (hok : buildInferenceServer o r server = .ok h) :
    createJobSpec o r = .ok (job.objects ++ h.objects) := by
  obtain ⟨d, hd, hi⟩ := exists_ok_of_any hv
  obtain rfl := fromDict_ok hd
  rw [createJobSpec, hd, hjob]
  refine (if_neg (not_not.2 (of_decide_eq_true hi))).trans ?_
  rw [hs]
  dsimp only
  rw [hok]
  rfl

/-- The descriptor is accepted, and the pusher of the server fails at its first poll. -/
theorem server_pusher_not_stopped : ∃ (job h : RootObjectHelper) (server : ServerDescriptor) (spec : Tree),
    createJobSpec plainOutside serverRequest = .ok (job.objects ++ h.objects) ∧
    serverRequest.descriptor.server = some server ∧ buildInferenceServer plainOutside serverRequest server = .ok h ∧
    getPodSpec h none = .ok spec ∧ Pushes spec ∧ Reports spec serverPoll ∧
    watchKubernetesPod [serverPoll] = .failed (.keyError "benchmark") := by
  have hva : (serverRequest.descriptor.fromDict plainOutside.cronValid serverRequest.config.descriptor_config).toOption.any
      (fun d => d.hardware.strategy = .inference) = true := by decide +kernel
  have hb : (buildBenchmark plainOutside serverRequest).toOption.any (fun _ => true) = true := by decide +kernel
  obtain ⟨job, hjob, -⟩ := exists_ok_of_any hb
  let server : ServerDescriptor := {
    hardware := { instance_type := "p3.8xlarge" }
    env := { docker_image := "server-image", ports := [8080], start_command := "serve.sh" }
    output := some [] }
  have hs : (buildInferenceServer plainOutside serverRequest server).toOption.any (fun h =>
      (getPodSpec h none).toOption.any fun spec => (listOf "containers" spec).map nameOf =
        ["inference-server", "client-lock", "metrics-pusher", "metrics-extractor"].map some) = true := by decide +kernel
  obtain ⟨h, hok, hsp⟩ := exists_ok_of_any hs
  obtain ⟨spec, hsp, hn⟩ := exists_ok_of_any hsp
  have hn := of_decide_eq_true hn
  refine ⟨job, h, server, spec, createJobSpec_of_server hva rfl hjob hok, rfl, hok, hsp, ?_, ?_, by decide⟩
  · obtain ⟨v, -, hv, -⟩ := scalars_of_build rfl hok
    exact (pushes_iff ((server_pusher_container hok (scalars_of_build rfl hok) hv).of_getPodSpec hsp)).2 rfl
  · rw [serverPoll, Reports, hn]
    exact .refl _

end BenchmarkAi.Pusher
