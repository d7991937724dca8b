import BenchmarkAi.Transpiler.Descriptor
/-!
# Watching one job

`bai_watcher/job_watcher.py` and `bai_watcher/kafka_service_watcher.py`. A thread asks
for the status of its job again and again and gives it to the callback, which tells the
client; it ends when the callback says so or when something raises. The answers of
`_get_status` come from outside, so a watch is a fold over a list of them.
-/

open Lib

namespace BenchmarkAi.Watcher

/-! ## `BenchmarkJobStatus` -/

inductive BenchmarkJobStatus
  | succeeded | failed
  | no_pod_scheduled | job_not_found
  | failed_at_benchmark_container | failed_at_sidecar_container | failed_at_init_containers
  | pending_at_benchmark_container | pending_at_sidecar_container | pending_at_init_containers
  | pending_node_scaling
  | running_at_init_containers | running_at_main_containers
  | sm_stopped | sm_interrupted | sm_failed_max_runtime_exceeded | sm_failed_max_waittime_exceeded
  | sm_in_progress_starting | sm_in_progress_launching_ml_instances | sm_in_progress_prep_training_stack
  | sm_in_progress_downloading | sm_in_progress_downloading_training_img | sm_in_progress_training
  | sm_in_progress_uploading
  | sm_unknown | sm_stopping
deriving DecidableEq, Repr

namespace BenchmarkJobStatus

def isFinal (s : BenchmarkJobStatus) : Bool :=
  s ∈ [succeeded, failed_at_init_containers, failed_at_benchmark_container, failed_at_sidecar_container,
    job_not_found, failed, sm_stopped, sm_failed_max_runtime_exceeded, sm_failed_max_waittime_exceeded,
    sm_interrupted, sm_unknown]

def isRunning (s : BenchmarkJobStatus) : Bool :=
  s ∈ [running_at_init_containers, running_at_main_containers, sm_in_progress_downloading,
    sm_in_progress_starting, sm_in_progress_launching_ml_instances, sm_in_progress_prep_training_stack,
    sm_in_progress_downloading, sm_in_progress_downloading_training_img, sm_in_progress_training,
    sm_in_progress_uploading, sm_stopping]

end BenchmarkJobStatus

open BenchmarkJobStatus in
/-- `choose_status_from_benchmark_status`. The last test of the source is the enum member
itself, which is always true. -/
def chooseStatusFromBenchmarkStatus (job_status : BenchmarkJobStatus) : Status × String :=
  if job_status ∈ [failed_at_sidecar_container, failed_at_init_containers] then (.failed, "Benchmark failed")
  else if job_status = failed_at_benchmark_container then
    (.failed, "Benchmark container failed - Please check your container")
  else if job_status = failed then (.failed, "Benchmark failed for an unknown reason")
  else if job_status = succeeded then (.succeeded, "Benchmark finished successfully")
  else if job_status = no_pod_scheduled then (.failed, "Benchmark was unable to run on the cluster")
  else if job_status = job_not_found then (.canceled, "Benchmark cancelled - watch ended")
  else if job_status ∈ [pending_at_init_containers, pending_at_benchmark_container, pending_at_sidecar_container,
      running_at_init_containers] then
    (.pending, "Benchmark pending pod initialization")
  else if job_status ∈ [pending_node_scaling] then (.pending, "Benchmark pending node autoscaling")
  else if job_status = running_at_main_containers then (.running, "Benchmark running")
  else if job_status = sm_in_progress_starting then (.pending, "Benchmark starting")
  else if job_status = sm_in_progress_launching_ml_instances then (.pending, "Launching ML instances")
  else if job_status = sm_in_progress_prep_training_stack then (.pending, "Preparing training stack")
  else if job_status = sm_in_progress_downloading then (.pending, "Downloading data")
  else if job_status = sm_in_progress_downloading_training_img then (.pending, "Downloading benchmark image")
  else if job_status = sm_in_progress_training then (.pending, "Benchmark running")
  else if job_status = sm_in_progress_uploading then (.pending, "Uploading data")
  else if job_status = sm_stopping then (.pending, "Benchmark stopping")
  else if job_status = sm_stopped then (.failed, "Benchmark stopped")
  else if job_status = sm_failed_max_runtime_exceeded then (.failed, "Benchmark failed - Max runtime exceeded")
  else if job_status = sm_failed_max_waittime_exceeded then (.failed, "Benchmark failed - Max wait time exceeded")
  else if job_status = sm_interrupted then (.failed, "Benchmark interrupted")
  else if job_status = succeeded then (.succeeded, "Benchmark finished successfully")
  else (.failed, "Benchmark reached unknown state - Please contact your system administrator")

/-! ## The callback and the loop -/

inductive Raised
  | apiException (status : Nat)
  | valueError
  | typeError
  | keyError
  | indexError
deriving DecidableEq, Repr

/-- The event and the configuration a callback is made for. `resultsUrl` is
`grafana_results_url` formatted with their ids and the two times. -/
structure Job where
  job_id : String
  action_id : String
  is_k8s_job : Bool := true
  resultsUrl : Option Int → Int → String

/-- A watch, the keys of `WatchJobsEventHandler.watchers`, and what has been sent for
the event. `success` is unset as long as the thread runs. -/
structure Watch where
  watchers : List String
  sent : List (Status × String)
  job_start_time : Option Int := none
  success : Option Bool := none
deriving DecidableEq, Repr

/-- `_get_metrics_available_message`. Without an end it is called with a start only. -/
def metricsAvailableMessage (job : Job) (job_start_time job_end_time : Option Int) : String :=
  let job_end_time := job_end_time.getD (job_start_time.getD 0 + 60 * 60 * 1000)
  "Metrics available for job " ++ job.action_id ++ " at " ++ job.resultsUrl job_start_time job_end_time

def Watch.started (w : Watch) : Bool := w.job_start_time.any (· ≠ 0)

def noLongerWatching : String := "No longer watching benchmark"

def Watch.send (w : Watch) (msgs : List (Status × String)) : Watch := { w with sent := w.sent ++ msgs }

def announceMetrics (job : Job) (status : BenchmarkJobStatus) (now : Int) (w : Watch) : Watch :=
  if job.is_k8s_job then
    let w :=
      if status.isRunning && !w.started then
        { w with job_start_time := some now }.send
          [(.metricsAvailable, metricsAvailableMessage job (some now) none)]
      else w
    if status = .succeeded then
      w.send [(.metricsAvailable, metricsAvailableMessage job w.job_start_time (some now))]
    else w
  else w

/-- `callback`, called at the time `now`: whether it raises or says to stop. -/
def callback (job : Job) (status : BenchmarkJobStatus) (now : Int) (w : Watch) : Watch × Except Raised Bool :=
  let chosen := chooseStatusFromBenchmarkStatus status
  let w := announceMetrics job status now (w.send [chosen])
  if status.isFinal then
    if job.job_id ∈ w.watchers then
      ({ w with watchers := w.watchers.erase job.job_id }.send [(chosen.1, noLongerWatching)], .ok true)
    else (w, .error .keyError)
  else (w, .ok false)

abbrev Poll := Except Raised BenchmarkJobStatus × Int

def turn (job : Job) (w : Watch) (poll : Poll) : Watch :=
  if w.success.isSome then w
  else
    match poll.1 with
    | .error _ => { w with success := some false }
    | .ok status =>
      match callback job status poll.2 w with
      | (w, .error _) => { w with success := some false }
      | (w, .ok true) => { w with success := some true }
      | (w, .ok false) => w

def threadRunLoop (job : Job) (w : Watch) (polls : List Poll) : Watch := polls.foldl (turn job) w

open Transpiler (DistributedStrategy) in
/-- `handle_event`, from a descriptor with the given strategy: what is sent, and the
watcher whose thread it starts. -/
def handleEvent (job : Job) (strategy : DistributedStrategy) (watchers : List String) :
    List (Status × String) × Option Watch :=
  if job.job_id ∈ watchers then ([], none)
  else if strategy ∉ [.single_node, .inference] then
    ([(.pending, "'" ++ strategy.value ++ "' strategy is not currently supported.")], none)
  else
    let sent := [(.pending, if job.is_k8s_job then "Watching Kubernetes benchmark" else "Watching SageMaker benchmark")]
    (sent, some ⟨job.job_id :: watchers, sent, none, none⟩)

/-! ## What a turn does -/

section Turn
variable {job : Job} {w : Watch}

theorem announceMetrics_spec (job : Job) (status : BenchmarkJobStatus) (now : Int) (w : Watch) :
    ∃ metrics, (announceMetrics job status now w).sent = w.sent ++ metrics ∧ (∀ m ∈ metrics, m.1 = .metricsAvailable) ∧
      (announceMetrics job status now w).watchers = w.watchers ∧
      (announceMetrics job status now w).success = w.success := by
  unfold announceMetrics
  split
  · by_cases hrun : (status.isRunning && !w.started) = true
    · rw [if_pos hrun]
      split
      · exact ⟨[_, _], List.append_assoc _ _ _, by simp, rfl, rfl⟩
      · exact ⟨[_], rfl, by simp, rfl, rfl⟩
    · rw [if_neg hrun]
      split
      · exact ⟨[_], rfl, by simp, rfl, rfl⟩
      · exact ⟨[], (List.append_nil _).symm, by simp, rfl, rfl⟩
  · exact ⟨[], (List.append_nil _).symm, by simp, rfl, rfl⟩

def Tells (status : BenchmarkJobStatus) (msgs : List (Status × String)) : Prop :=
  ∃ metrics, (∀ m ∈ metrics, m.1 = .metricsAvailable) ∧
    msgs = chooseStatusFromBenchmarkStatus status :: metrics ++
      if status.isFinal then [((chooseStatusFromBenchmarkStatus status).1, noLongerWatching)] else []

/-- The callback of a job that is in the dict does not raise. -/
theorem callback_spec (h : job.job_id ∈ w.watchers) (status : BenchmarkJobStatus) (now : Int) :
    ∃ w' msgs, callback job status now w = (w', .ok status.isFinal) ∧ w'.sent = w.sent ++ msgs ∧
      Tells status msgs ∧ w'.success = w.success ∧ (status.isFinal = false → job.job_id ∈ w'.watchers) := by
  obtain ⟨metrics, hse, hm, hw, hsu⟩ :=
    announceMetrics_spec job status now (w.send [chooseStatusFromBenchmarkStatus status])
  have hin : job.job_id ∈
      (announceMetrics job status now (w.send [chooseStatusFromBenchmarkStatus status])).watchers := by
    rw [hw]
    exact h
  cases hs : status.isFinal with
  | false =>
    refine ⟨_, chooseStatusFromBenchmarkStatus status :: metrics, by rw [callback, hs]; rfl, ?_,
      ⟨metrics, hm, by simp [hs]⟩, hsu, fun _ => hin⟩
    rw [hse, Watch.send, List.append_assoc]
    rfl
  | true =>
    refine ⟨_, chooseStatusFromBenchmarkStatus status :: metrics ++
      [((chooseStatusFromBenchmarkStatus status).1, noLongerWatching)], (if_pos hs).trans (if_pos hin), ?_,
      ⟨metrics, hm, by simp [hs]⟩, hsu, fun hf => nomatch hf⟩
    dsimp only [Watch.send] at hse ⊢
    rw [hse]
    simp

def Watch.Alive (w : Watch) (job : Job) : Prop := w.success = none ∧ job.job_id ∈ w.watchers

theorem turn_ended (h : w.success.isSome) (poll : Poll) : turn job w poll = w := if_pos h

theorem threadRunLoop_ended (h : w.success.isSome) (polls : List Poll) : threadRunLoop job w polls = w := by
  induction polls with
  | nil => rfl
  | cons p polls ih =>
    rw [threadRunLoop, List.foldl_cons, turn_ended h]
    exact ih

theorem turn_error (h : w.success = none) (e : Raised) (now : Int) :
    turn job w (.error e, now) = { w with success := some false } := by
  unfold turn
  rw [h]
  rfl

theorem turn_open (h : w.Alive job) {status : BenchmarkJobStatus} (hs : status.isFinal = false) (now : Int) :
    ∃ msgs, (turn job w (.ok status, now)).sent = w.sent ++ msgs ∧ Tells status msgs ∧
      (turn job w (.ok status, now)).Alive job := by
  obtain ⟨w', msgs, hc, hse, ht, hsu, hin⟩ := callback_spec h.2 status now
  have htu : turn job w (.ok status, now) = w' := by
    simp only [turn, h.1, hc, hs]
    rfl
  rw [htu]
  exact ⟨msgs, hse, ht, hsu.trans h.1, hin hs⟩

theorem turn_final (h : w.Alive job) {status : BenchmarkJobStatus} (hs : status.isFinal = true) (now : Int) :
    ∃ msgs, (turn job w (.ok status, now)).sent = w.sent ++ msgs ∧ Tells status msgs ∧
      (turn job w (.ok status, now)).success = some true := by
  obtain ⟨w', msgs, hc, hse, ht, -⟩ := callback_spec h.2 status now
  have htu : turn job w (.ok status, now) = { w' with success := some true } := by
    simp only [turn, h.1, hc, hs]
    rfl
  rw [htu]
  exact ⟨msgs, hse, ht, rfl⟩

theorem handleEvent_alive {strategy watchers sent} (h : handleEvent job strategy watchers = (sent, some w)) :
    w.Alive job ∧ ∃ msg, w.sent = [(.pending, msg)] := by
  unfold handleEvent at h
  split at h
  · cases h
  · split at h
    · cases h
    · cases h
      exact ⟨⟨rfl, List.mem_cons_self⟩, _, rfl⟩

end Turn

end BenchmarkAi.Watcher
