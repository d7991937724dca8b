import BenchmarkAi.Transpiler.Descriptor
/-!
# The SageMaker engine

`sm_executor/sm_execution_engine.py`: `run` starts a training job, `merge_metrics` copies its
metrics to CloudWatch, and `cancel` stops it. Each of them makes up the name of the job for
itself. What the engine does is the list of its calls of the AWS services; how these answer is
`Aws`, and nothing is assumed of it.
-/

open Lib

namespace BenchmarkAi.SageMaker

open Transpiler

/-! ## Descriptors -/

structure SageMakerParams extends CustomParamsDescriptor where
  sagemaker_job_name : Option String := none
  merge : Option Bool := none

structure SageMakerDescriptor extends BenchmarkDescriptor where
  params : Option SageMakerParams
  custom_params_eq : custom_params = params.map (·.toCustomParamsDescriptor)

def config : DescriptorConfig := ⟨["single_node", "horovod"], ["tensorflow", "mxnet"]⟩

/-! ## AWS -/

/-- What a call of boto3 raises: `ClientError`, with its text and the message of the service
if there is one, or another exception. -/
inductive AwsError
  | clientError (text : String) (message : Option String)
  | other (msg : String)
deriving DecidableEq, Repr

structure MetricDatum where
  metricName : String
  value : Int
  dimensions : List (String × String) := []
deriving DecidableEq, Repr

structure TrainingJob where
  trainingJobStatus : String
  finalMetricDataList : Option (List MetricDatum) := none
deriving DecidableEq, Repr

inductive AwsCall
  /-- `create_training_job`, which `fit` calls, and whether the job was created. -/
  | createTrainingJob (name : String) (created : Bool)
  | describeTrainingJob (name : Option String)
  | stopTrainingJob (name : String)
  | putMetricData (data : List MetricDatum)
  | checkDashboard (labels : List (String × String)) (metric_name : String)
deriving DecidableEq, Repr

inductive EngineRaise
  | executionEngine (msg : String)
  | noResourcesFound (action_id : String)
  | other (msg : String)
deriving DecidableEq, Repr

structure Aws where
  prepare : Except EngineRaise Unit
  createTrainingJob : String → Except AwsError Unit
  wait : String → Except AwsError Unit
  describeTrainingJob : Nat → Option String → Except AwsError TrainingJob
  stopTrainingJob : String → Except AwsError Unit
  putMetricData : List MetricDatum → Except AwsError Unit
  checkDashboard : List (String × String) → String → Except AwsError Unit

/-! ## The engine -/

def getJobName (action_id : String) : String := action_id

def jobName (action_id : String) (d : SageMakerDescriptor) : String :=
  match d.params with
  | some p => if truthy p.sagemaker_job_name then p.sagemaker_job_name.getD "" else getJobName action_id
  | none => getJobName action_id

def SageMakerDescriptor.merges (d : SageMakerDescriptor) : Bool := d.params.any fun p => p.merge.getD false

def SageMakerDescriptor.mergedName (d : SageMakerDescriptor) : Option String := d.params.bind (·.sagemaker_job_name)

def tagDimensions (d : SageMakerDescriptor) (metric_data : List MetricDatum) : List MetricDatum :=
  metric_data.map fun metric => { metric with dimensions := d.info.labels.entries }

def dashboardLabels (d : SageMakerDescriptor) (dashboard : String) : List (String × String) :=
  let region := d.params.bind (·.region)
  let region := if truthy region then region.getD "" else "us-east-1"
  assign "region" region (assign "dashboard-name" dashboard d.info.labels.entries)

/-- The loop of `merge_metrics` that waits for the metrics, with at most `polls` calls from
number `n` on; `none` is a job that still has none. -/
def awaitMetrics (aws : Aws) (name : Option String) :
    (polls n : Nat) → Except AwsError (Option (List MetricDatum)) × List AwsCall
  | 0, _ => (.ok none, [])
  | polls + 1, n =>
    match aws.describeTrainingJob n name with
    | .error e => (.error e, [.describeTrainingJob name])
    | .ok ⟨_, some data⟩ => (.ok (some data), [.describeTrainingJob name])
    | .ok ⟨_, none⟩ =>
      let (result, calls) := awaitMetrics aws name polls (n + 1)
      (result, .describeTrainingJob name :: calls)

def checkDashboards (aws : Aws) (labels : List (String × String)) :
    List MetricDatum → Except AwsError Unit × List AwsCall
  | [] => (.ok (), [])
  | metric :: rest =>
    match aws.checkDashboard labels metric.metricName with
    | .error e => (.error e, [.checkDashboard labels metric.metricName])
    | .ok () =>
      let (result, calls) := checkDashboards aws labels rest
      (result, .checkDashboard labels metric.metricName :: calls)

def exportMetrics (aws : Aws) (d : SageMakerDescriptor) (data : List MetricDatum) : Except AwsError Unit × List AwsCall :=
  let metric_data := tagDimensions d data
  match aws.putMetricData metric_data with
  | .error e => (.error e, [.putMetricData metric_data])
  | .ok () =>
    let dashboard := d.params.bind (·.dashboard)
    if truthy dashboard then
      let (result, calls) := checkDashboards aws (dashboardLabels d (dashboard.getD "")) metric_data
      (result, .putMetricData metric_data :: calls)
    else (.ok (), [.putMetricData metric_data])

def mergeMetrics (aws : Aws) (d : SageMakerDescriptor) (polls : Nat) : Except AwsError Bool × List AwsCall :=
  match awaitMetrics aws d.mergedName polls 0 with
  | (.error e, calls) => (.error e, calls)
  | (.ok none, calls) => (.ok false, calls)
  | (.ok (some data), calls) =>
    let (result, more) := exportMetrics aws d data
    (result.map fun _ => true, calls ++ more)

def creationFailed : AwsError → EngineRaise
  | .clientError _ message =>
    .executionEngine ("Benchmark creation failed. SageMaker returned error: " ++ message.getD "Unknown")
  | .other msg => .other msg

def run (aws : Aws) (cronValid : String → Bool) (action_id : String) (d : SageMakerDescriptor) (polls : Nat) :
    Except EngineRaise (Option String) × List AwsCall :=
  match BenchmarkDescriptor.fromDict cronValid config d.toBenchmarkDescriptor with
  | .error (.descriptorError _) => (.error (.executionEngine "Cannot process the request"), [])
  | .error _ => (.error (.other ""), [])
  | .ok _ =>
    match aws.prepare with
    | .error e => (.error e, [])
    | .ok () =>
      let job_name := jobName action_id d
      match aws.createTrainingJob job_name with
      | .error e => (.error (creationFailed e), [.createTrainingJob job_name false])
      | .ok () =>
        if d.merges then
          match aws.wait job_name with
          | .error e => (.error (creationFailed e), [.createTrainingJob job_name true])
          | .ok () =>
            let (result, calls) := mergeMetrics aws d polls
            ((result.mapError creationFailed).map fun merged => if merged then some job_name else none,
              .createTrainingJob job_name true :: calls)
        else (.ok (some job_name), [.createTrainingJob job_name true])

def inProgress : String := "InProgress"

/-- `is_not_found_error`: the text stands somewhere behind the beginning. -/
def isNotFoundError (lower : String → String) (message : Option String) : Bool :=
  let text := (lower (message.getD "")).toList
  text.tails.tail.any ("not found".toList.isPrefixOf ·)

def cancelFailed (lower : String → String) (action_id : String) : AwsError → EngineRaise
  | .clientError text message =>
    if isNotFoundError lower message then .noResourcesFound action_id else .executionEngine text
  | .other msg => .other msg

/-- `cancel`; neither the client nor `cascade` is looked at. -/
def cancel (aws : Aws) (lower : String → String) (action_id : String) : Except EngineRaise Unit × List AwsCall :=
  let job_name := getJobName action_id
  match aws.describeTrainingJob 0 (some job_name) with
  | .error e => (.error (cancelFailed lower action_id e), [.describeTrainingJob (some job_name)])
  | .ok training_job =>
    if training_job.trainingJobStatus = inProgress then
      match aws.stopTrainingJob job_name with
      | .error e =>
        (.error (cancelFailed lower action_id e), [.describeTrainingJob (some job_name), .stopTrainingJob job_name])
      | .ok () => (.ok (), [.describeTrainingJob (some job_name), .stopTrainingJob job_name])
    else (.ok (), [.describeTrainingJob (some job_name)])

/-! ## Which job the calls are about -/

def stopCalls (aws : Aws) (name : String) : List AwsCall :=
  .describeTrainingJob (some name) ::
    if (aws.describeTrainingJob 0 (some name)).toOption.any (·.trainingJobStatus = inProgress) then
      [.stopTrainingJob name]
    else []

theorem calls_cancel (aws : Aws) (lower : String → String) (action_id : String) :
    (cancel aws lower action_id).2 = stopCalls aws action_id := by
  rw [cancel, stopCalls, getJobName]
  cases aws.describeTrainingJob 0 (some action_id) with
  | error e => rfl
  | ok job =>
    by_cases hp : job.trainingJobStatus = inProgress
    · cases aws.stopTrainingJob action_id <;> simp [Except.toOption, hp]
    · simp [Except.toOption, hp]

theorem calls_awaitMetrics {aws name polls n call} :
    call ∈ (awaitMetrics aws name polls n).2 ↔ call = .describeTrainingJob name ∧ 0 < polls := by
  induction polls generalizing n with
  | zero => simp [awaitMetrics]
  | succ polls ih =>
    rw [awaitMetrics]
    split
    · simp
    · simp
    · simp only [List.mem_cons, ih, Nat.succ_pos, and_true]
      exact or_iff_left_of_imp And.left

def AwsCall.exports : AwsCall → Bool
  | putMetricData _ | checkDashboard _ _ => true
  | _ => false

theorem calls_exportMetrics {aws d data} : ∀ call ∈ (exportMetrics aws d data).2, call.exports = true := by
  have hd (labels : List (String × String)) (metrics : List MetricDatum) :
      ∀ call ∈ (checkDashboards aws labels metrics).2, call.exports = true := by
    induction metrics with
    | nil => simp [checkDashboards]
    | cons metric rest ih =>
      rw [checkDashboards]
      split
      · simp [AwsCall.exports]
      · simpa [AwsCall.exports] using ih
  rw [exportMetrics]
  split
  · simp [AwsCall.exports]
  · dsimp only
    split
    · simpa [AwsCall.exports] using hd _ _
    · simp [AwsCall.exports]

theorem calls_mergeMetrics {aws} {d : SageMakerDescriptor} {polls} {call : AwsCall}
    (h : call.exports = false) :
    call ∈ (mergeMetrics aws d polls).2 ↔ call = .describeTrainingJob d.mergedName ∧ 0 < polls := by
  rw [← @calls_awaitMetrics aws d.mergedName polls 0, mergeMetrics]
  split
  · rename_i ha
    rw [ha]
  · rename_i ha
    rw [ha]
  · rename_i data calls ha
    rw [ha, List.mem_append]
    refine or_iff_left fun hmem => ?_
    rw [calls_exportMetrics call hmem] at h
    cases h

def SageMakerDescriptor.Accepted (d : SageMakerDescriptor) (cronValid : String → Bool) : Prop :=
  ∃ d', BenchmarkDescriptor.fromDict cronValid config d.toBenchmarkDescriptor = .ok d'

def Starts (aws : Aws) (cronValid : String → Bool) (action_id : String) (d : SageMakerDescriptor) : Prop :=
  d.Accepted cronValid ∧ aws.prepare = .ok () ∧ aws.createTrainingJob (jobName action_id d) = .ok ()

section Run

variable {aws : Aws} {cronValid : String → Bool} {action_id : String} {d : SageMakerDescriptor} {polls : Nat}

theorem calls_of_not_starts (polls : Nat) (h : ¬ Starts aws cronValid action_id d) :
    (run aws cronValid action_id d polls).2 = [] ∨
      (run aws cronValid action_id d polls).2 = [.createTrainingJob (jobName action_id d) false] := by
  rw [run]
  split
  · exact .inl rfl
  · exact .inl rfl
  · rename_i d' hd
    split
    · exact .inl rfl
    · rename_i hp
      dsimp only
      split
      · exact .inr rfl
      · rename_i hc
        exact absurd ⟨⟨d', hd⟩, hp, hc⟩ h

theorem calls_of_starts (h : Starts aws cronValid action_id d) :
    (run aws cronValid action_id d polls).2 = .createTrainingJob (jobName action_id d) true ::
      if d.merges ∧ (aws.wait (jobName action_id d)).toOption.isSome then (mergeMetrics aws d polls).2 else [] := by
  obtain ⟨⟨d', hd⟩, hp, hc⟩ := h
  rw [run, hd]
  dsimp only
  rw [hp]
  rw [hc]
  cases hm : d.merges with
  | false => simp
  | true => cases hw : aws.wait (jobName action_id d) <;> simp [Except.toOption]

/-- A job is started under one name, -/
theorem created_iff {name} : .createTrainingJob name true ∈ (run aws cronValid action_id d polls).2 ↔
    Starts aws cronValid action_id d ∧ name = jobName action_id d := by
  by_cases h : Starts aws cronValid action_id d
  · rw [calls_of_starts h]
    split
    · simp [@calls_mergeMetrics _ _ _ (.createTrainingJob _ _) rfl, h]
    · simp [h]
  · rcases calls_of_not_starts polls h with hc | hc <;> simp [hc, h]

/-- and the metrics are read under another one. -/
theorem read_iff {name} : .describeTrainingJob name ∈ (run aws cronValid action_id d polls).2 ↔
    Starts aws cronValid action_id d ∧ d.merges = true ∧ (aws.wait (jobName action_id d)).toOption.isSome = true ∧
      name = d.mergedName ∧ 0 < polls := by
  by_cases h : Starts aws cronValid action_id d
  · rw [calls_of_starts h]
    split
    · rename_i hm
      simp [@calls_mergeMetrics _ _ _ (.describeTrainingJob _) rfl, h, hm]
    · rename_i hm
      simp only [List.mem_cons, List.not_mem_nil, or_false, reduceCtorEq, false_iff]
      exact fun hall => hm ⟨hall.2.1, hall.2.2.1⟩
  · rcases calls_of_not_starts polls h with hc | hc <;> simp [hc, h]

end Run

/-- The three operations mean the same job: whatever AWS answers, if `run` starts the job
`name`, a later `cancel` of the action looks at and stops that job, and the metrics that are
merged are read from it. -/
structure JobIdentity (cronValid : String → Bool) (action_id : String) (d : SageMakerDescriptor) : Prop where
  cancels : ∀ aws polls name, .createTrainingJob name true ∈ (run aws cronValid action_id d polls).2 →
    ∀ later lower, (cancel later lower action_id).2 = stopCalls later name
  merges : ∀ aws polls name, .createTrainingJob name true ∈ (run aws cronValid action_id d polls).2 → d.merges = true →
    (∀ read, .describeTrainingJob read ∈ (run aws cronValid action_id d polls).2 → read = some name) ∧
      ((aws.wait name).toOption.isSome = true → 0 < polls →
        .describeTrainingJob (some name) ∈ (run aws cronValid action_id d polls).2)

def Aws.willing : Aws where
  prepare := .ok ()
  createTrainingJob _ := .ok ()
  wait _ := .ok ()
  describeTrainingJob _ _ := .ok ⟨inProgress, some []⟩
  stopTrainingJob _ := .ok ()
  putMetricData _ := .ok ()
  checkDashboard _ _ := .ok ()

theorem jobName_eq_iff {action_id d} : jobName action_id d = action_id ∧ (d.merges = true → d.mergedName = some action_id) ↔
    ∀ p ∈ d.params, truthy p.sagemaker_job_name = true ∨ p.merge = some true → p.sagemaker_job_name = some action_id := by
  unfold jobName SageMakerDescriptor.merges SageMakerDescriptor.mergedName getJobName
  rcases d.params with _ | ⟨_, _ | name, merge⟩
  · simp
  · rcases merge with _ | _ | _ <;> simp [truthy]
  · by_cases he : name = "" <;> rcases merge with _ | _ | _ <;> simp [truthy, he]

/-- The operations mean the same job exactly if a `sagemaker_job_name` that is given is the action id, and, where
metrics are merged, one is given. -/
theorem job_identity_iff {cronValid : String → Bool} {d : SageMakerDescriptor} (hd : d.Accepted cronValid)
    (action_id : String) : JobIdentity cronValid action_id d ↔
      ∀ p ∈ d.params, truthy p.sagemaker_job_name = true ∨ p.merge = some true →
        p.sagemaker_job_name = some action_id := by
  rw [← jobName_eq_iff]
  have hst : Starts .willing cronValid action_id d := ⟨hd, rfl, rfl⟩
  constructor
  · intro h
    have hn : jobName action_id d = action_id := by
      have hc := h.cancels .willing 0 _ (created_iff.2 ⟨hst, rfl⟩) .willing id
      rw [calls_cancel, stopCalls, stopCalls, List.cons.injEq] at hc
      simpa [eq_comm] using hc.1
    refine ⟨hn, fun hm => ?_⟩
    have hr := (h.merges .willing 1 _ (created_iff.2 ⟨hst, rfl⟩) hm).1 d.mergedName
      (read_iff.2 ⟨hst, hm, rfl, rfl, Nat.one_pos⟩)
    rw [hr, hn]
  · rintro ⟨hn, hme⟩
    refine ⟨fun aws polls name hcr later lower => ?_, fun aws polls name hcr hm => ?_⟩
    · obtain ⟨-, rfl⟩ := created_iff.1 hcr
      rw [calls_cancel, hn]
    · obtain ⟨hs, rfl⟩ := created_iff.1 hcr
      refine ⟨fun read hr => ?_, fun hw hp => ?_⟩
      · rw [(read_iff.1 hr).2.2.2.1, hme hm, hn]
      · exact read_iff.2 ⟨hs, hm, hw, by rw [hme hm, hn], hp⟩

def tensorflowJob (params : Option SageMakerParams) : SageMakerDescriptor where
  info := {}
  hardware := { instance_type := "ml.p3.8xlarge" }
  env := { docker_image := "tensorflow:latest" }
  ml := some { framework := .tensorflow, benchmark_code := some "python train.py" }
  custom_params := params.map (·.toCustomParamsDescriptor)
  params := params
  custom_params_eq := rfl

def mergingJob : SageMakerDescriptor := tensorflowJob (some { sagemaker_job_name := some "action-1", merge := some true })

theorem job_identity_merging :
    mergingJob.Accepted (fun _ => true) ∧ mergingJob.merges = true ∧ JobIdentity (fun _ => true) "action-1" mergingJob := by
  have hd : mergingJob.Accepted (fun _ => true) := ⟨_, rfl⟩
  exact ⟨hd, rfl, (job_identity_iff hd "action-1").2 (by rintro p ⟨⟩ -; rfl)⟩

def Aws.running (name : String) : Aws where
  prepare := .ok ()
  createTrainingJob _ := .ok ()
  wait _ := .ok ()
  describeTrainingJob _ read :=
    if read = some name then .ok ⟨inProgress, none⟩
    else .error (.clientError "ValidationException" (some "Requested resource not found."))
  stopTrainingJob _ := .ok ()
  putMetricData _ := .ok ()
  checkDashboard _ _ := .ok ()

/-- A job with a name of its own is started; the cancel looks for another one, and the job runs on. -/
theorem named_job_not_cancelled : (run (.running "my-job") (fun _ => true) "action-1"
        (tensorflowJob (some { sagemaker_job_name := some "my-job" })) 0).2 = [.createTrainingJob "my-job" true] ∧
      cancel (.running "my-job") id "action-1" =
        (.error (.noResourcesFound "action-1"), [.describeTrainingJob (some "action-1")]) := by
  refine ⟨rfl, ?_⟩
  decide +kernel

end BenchmarkAi.SageMaker
