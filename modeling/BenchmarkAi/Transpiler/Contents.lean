import BenchmarkAi.Lib.Dacite
import BenchmarkAi.Transpiler.Builders
/-!
# Descriptors from the contents of an event

`BenchmarkDescriptor.from_dict` in `bai_kafka_utils/executors/descriptor.py`: the contents of
a descriptor file, an arbitrary dict, as dataclasses, and `ec2_instance_info.py` which the
hardware sections ask for their GPUs. Only some of the errors on the way are turned into a
`DescriptorError`.
-/

open Lib Lib.Dacite

namespace BenchmarkAi.Transpiler

/-- What `from_dict` calls besides the library calls of the builders: `int` of a text, `repr`
of a value, and `str` of an error. -/
structure Parsing where
  outside : Outside
  int : String → Option Int
  repr : Data → String
  text : Error Raised → String

/-! ## Enumerations -/

def enumMember {α : Type} (x : Parsing) (cls : String) (members : List (String × α)) (d : Data) : Py α :=
  let member :=
    match d with
    | .str s => members.lookup s
    | _ => none
  match member with
  | some a => return a
  | none => throw (.valueError (x.repr d ++ " is not a valid " ++ cls))

def toDistributedStrategy (x : Parsing) : Data → Py DistributedStrategy :=
  enumMember x "DistributedStrategy" [("single_node", .single_node), ("horovod", .horovod), ("inference", .inference)]

def toExecutionEngine (x : Parsing) : Data → Py Unit :=
  enumMember x "ExecutionEngine" [("default", ()), ("aws.sagemaker", ())]

def toMLFramework (x : Parsing) : Data → Py MLFramework :=
  enumMember x "MLFramework" [("tensorflow", .tensorflow), ("mxnet", .mxnet), ("", .none)]

def toHttpProbeScheme (x : Parsing) : Data → Py HttpProbeScheme
  | .str s => enumMember x "HttpProbeScheme" [("http", .http), ("https", .https)] (.str (x.outside.lower s))
  | _ => throw .builtin

/-! ## Fields -/

def mlScriptFields : List String := ["script"]

def infoFields : List String := ["description", "task_name", "execution_engine", "scheduling", "labels"]

def mlFields : List String := ["framework", "benchmark_code", "args", "framework_version", "script"]

def customParamsFields : List String :=
  ["python_version", "sagemaker_job_name", "dashboard", "region", "merge", "hyper_params"]

def httpProbeFields : List String :=
  ["path", "port", "scheme", "initial_delay_seconds", "period_seconds", "timeout_seconds", "success_threshold",
    "failure_threshold"]

def metricFields : List String := ["name", "units", "pattern"]

def outputFields : List String := ["metrics"]

def downloadableContentFields : List String := ["src", "path", "id", "md5"]

def hardwareFields : List String := ["instance_type", "gpus_per_instance", "aws_zone_id", "availability_zone"]

def distributedFields : List String := ["num_instances", "processes_per_instance"]

def benchmarkHardwareFields : List String := hardwareFields ++ ["strategy", "distributed", "processes_per_instance"]

def serverEnvFields : List String :=
  ["docker_image", "ports", "start_command", "privileged", "extended_shm", "vars", "readiness_probe",
    "start_command_args"]

def serverFields : List String := ["hardware", "env", "models", "output"]

def benchmarkEnvFields : List String := ["docker_image", "privileged", "extended_shm", "vars"]

def dataFields : List String := ["sources"]

def descriptorFields : List String :=
  ["spec_version", "info", "hardware", "env", "output", "ml", "data", "custom_params", "server"]

/-! ## Reading -/

abbrev Reading (α : Type) := Fields → Except (Error Raised) α

def readMLScript : Reading String := fun fs => do
  strict mlScriptFields fs
  field "script" str none fs

structure ReadInfo where
  scheduling : Option String
  labels : Option (Dict String)

def readInfo (x : Parsing) : Reading ReadInfo := fun fs => do
  strict infoFields fs
  let _ ← field "description" str none fs
  let _ ← field "task_name" (Dacite.optional str) (some none) fs
  let _ ← field "execution_engine" (Dacite.optional (hook (toExecutionEngine x))) (some none) fs
  let scheduling ← field "scheduling" (Dacite.optional str) (some (some singleRunScheduling)) fs
  let labels ← field "labels" (Dacite.optional (dict str)) (some (some [])) fs
  return { scheduling, labels := labels.map .ofFields }

def readML (x : Parsing) : Reading MLDescriptor := fun fs => do
  strict mlFields fs
  return {
    framework := ← field "framework" (hook (toMLFramework x)) (some .none) fs
    benchmark_code := ← field "benchmark_code" (Dacite.optional str) (some none) fs
    args := ← field "args" (Dacite.optional str) (some none) fs
    framework_version := ← field "framework_version" (Dacite.optional str) (some none) fs
    script := ← field "script" (Dacite.optional (dataclass readMLScript)) (some none) fs }

def readCustomParams : Reading CustomParamsDescriptor := fun fs => do
  strict customParamsFields fs
  let _ ← field "python_version" (Dacite.optional str) (some none) fs
  let _ ← field "sagemaker_job_name" (Dacite.optional str) (some none) fs
  let dashboard ← field "dashboard" (Dacite.optional str) (some none) fs
  let region ← field "region" (Dacite.optional str) (some none) fs
  let _ ← field "merge" (Dacite.optional bool) (some none) fs
  let _ ← field "hyper_params" (Dacite.optional (dict any)) (some none) fs
  return { dashboard, region }

def readHttpProbe (x : Parsing) : Reading HttpProbeDescriptor := fun fs => do
  strict httpProbeFields fs
  return {
    path := ← field "path" str none fs
    port := ← field "port" (Dacite.optional int) (some none) fs
    scheme := ← field "scheme" (Dacite.optional (hook (toHttpProbeScheme x))) (some (some .http)) fs
    initial_delay_seconds := ← field "initial_delay_seconds" (Dacite.optional int) (some (some 10)) fs
    period_seconds := ← field "period_seconds" (Dacite.optional int) (some (some 10)) fs
    timeout_seconds := ← field "timeout_seconds" (Dacite.optional int) (some (some 1)) fs
    success_threshold := ← field "success_threshold" (Dacite.optional int) (some (some 1)) fs
    failure_threshold := ← field "failure_threshold" (Dacite.optional int) (some (some 3)) fs }

def readMetric : Reading MetricDescriptor := fun fs => do
  strict metricFields fs
  return {
    name := ← field "name" str none fs
    units := ← field "units" str none fs
    pattern := ← field "pattern" str none fs }

def readOutput : Reading (List MetricDescriptor) := fun fs => do
  strict outputFields fs
  field "metrics" (Dacite.list (dataclass readMetric)) none fs

def readDownloadableContent : Reading Unit := fun fs => do
  strict downloadableContentFields fs
  let _ ← field "src" str none fs
  let _ ← field "path" str none fs
  let _ ← field "id" (Dacite.optional str) (some none) fs
  let _ ← field "md5" (Dacite.optional str) (some none) fs

/-- The number of GPUs can be in the data, although the constructor does not take it. -/
def readHardwareFields : Reading HardwareDescriptor := fun fs => do
  let instance_type ← field "instance_type" str none fs
  let _ ← field "gpus_per_instance" int (some 0) fs
  let aws_zone_id ← field "aws_zone_id" (Dacite.optional str) (some none) fs
  let availability_zone ← field "availability_zone" (Dacite.optional str) (some none) fs
  return { instance_type, aws_zone_id, availability_zone }

def readHardware (x : Parsing) : Reading HardwareDescriptor := fun fs => do
  strict hardwareFields fs
  let h ← readHardwareFields fs
  let _ ← construct (x.outside.instanceGpus h.instance_type)
  return h

def readDistributed : Reading (Int × String) := fun fs => do
  strict distributedFields fs
  let num_instances ← field "num_instances" int (some 2) fs
  let processes_per_instance ← field "processes_per_instance" str (some "1") fs
  return (num_instances, processes_per_instance)

def onePerGpu : String := "gpus"

def checkProcesses (x : Parsing) (instance_type processes_per_instance : String) : Py Unit := do
  let gpus ← x.outside.instanceGpus instance_type
  if processes_per_instance = onePerGpu then
    descriptorCheck (gpus ≠ 0) "Requesting per-gpu process assignment on instance without gpus"
  else
    match x.int processes_per_instance with
    | some _ => return ()
    | none =>
      throw (.valueError ("invalid literal for int() with base 10: " ++ x.repr (.str processes_per_instance)))

def readBenchmarkHardware (x : Parsing) : Reading BenchmarkHardwareDescriptor := fun fs => do
  strict benchmarkHardwareFields fs
  let h ← readHardwareFields fs
  let strategy ← field "strategy" (hook (toDistributedStrategy x)) (some .single_node) fs
  let distributed ← field "distributed" (dataclass readDistributed) (some (2, "1")) fs
  let _ ← field "processes_per_instance" int (some 0) fs
  construct (checkProcesses x h.instance_type distributed.2)
  return { h with strategy, num_instances := distributed.1 }

def readServerEnv (x : Parsing) : Reading ServerEnvDescriptor := fun fs => do
  strict serverEnvFields fs
  return {
    docker_image := ← field "docker_image" str none fs
    ports := ← field "ports" (Dacite.list int) none fs
    start_command := ← field "start_command" str none fs
    privileged := ← field "privileged" bool (some false) fs
    extended_shm := ← field "extended_shm" bool (some true) fs
    vars := ← field "vars" (dict str) (some []) fs
    readiness_probe := ← field "readiness_probe" (Dacite.optional (dataclass (readHttpProbe x))) (some none) fs
    start_command_args := ← field "start_command_args" (Dacite.optional str) (some none) fs }

def readServer (x : Parsing) : Reading ServerDescriptor := fun fs => do
  strict serverFields fs
  let hardware ← field "hardware" (dataclass (readHardware x)) none fs
  let env ← field "env" (dataclass (readServerEnv x)) none fs
  let _ ← field "models" (Dacite.optional (Dacite.list (dataclass readDownloadableContent))) (some none) fs
  let output ← field "output" (Dacite.optional (dataclass readOutput)) (some none) fs
  return { hardware, env, output }

def readBenchmarkEnv : Reading BenchmarkEnvDescriptor := fun fs => do
  strict benchmarkEnvFields fs
  return {
    docker_image := ← field "docker_image" str none fs
    privileged := ← field "privileged" bool (some false) fs
    extended_shm := ← field "extended_shm" bool (some true) fs
    vars := ← field "vars" (dict str) (some []) fs }

def readData : Reading Unit := fun fs => do
  strict dataFields fs
  let _ ← field "sources" (Dacite.list (dataclass readDownloadableContent)) none fs

/-- The start of `BenchmarkDescriptor.__post_init__` for an `info` section without labels or
without a scheduling: `None` has no items, and it is no cron expression. -/
def withInfo (o : Outside) (d : BenchmarkDescriptor) : ReadInfo → Py BenchmarkDescriptor
  | ⟨some scheduling, some labels⟩ => return { d with info := { scheduling, labels } }
  | ⟨some scheduling, none⟩ => do
    BenchmarkDescriptor.postInit o.cronValid { d with info := { scheduling }, ml := none }
    throw .builtin
  | ⟨none, _⟩ => do
    BenchmarkDescriptor.postInit o.cronValid { d with info := {}, ml := none }
    throw (.descriptorError ("Invalid cron expression in scheduling field: None. " ++
      "Please use Kubernetes cron job syntax or \"single_run\" for non-periodic runs"))

def readDescriptor (x : Parsing) : Reading BenchmarkDescriptor := fun fs => do
  strict descriptorFields fs
  let _ ← field "spec_version" str none fs
  let info ← field "info" (dataclass (readInfo x)) none fs
  let hardware ← field "hardware" (dataclass (readBenchmarkHardware x)) none fs
  let env ← field "env" (dataclass readBenchmarkEnv) none fs
  let output ← field "output" (Dacite.optional (dataclass readOutput)) (some none) fs
  let ml ← field "ml" (Dacite.optional (dataclass (readML x))) (some none) fs
  let _ ← field "data" (Dacite.optional (dataclass readData)) (some none) fs
  let custom_params ← field "custom_params" (Dacite.optional (dataclass readCustomParams)) (some none) fs
  let server ← field "server" (Dacite.optional (dataclass (readServer x))) (some none) fs
  construct (withInfo x.outside { info := {}, hardware, env, output, ml, custom_params, server } info)

/-! ## `from_dict` -/

inductive SpecError
  | raised (e : Raised)
  | unexpectedData (keys : List String)

def parsingClause (x : Parsing) : Error Raised → SpecError
  | .unexpectedData keys => .unexpectedData keys
  | .raised e =>
    if e.isValueError then .raised (.descriptorError ("Error parsing descriptor: " ++ x.text (.raised e))) else .raised e
  | e => .raised (.descriptorError ("Error parsing descriptor: " ++ x.text e))

def readContents (x : Parsing) (contents : Fields) : Except SpecError BenchmarkDescriptor :=
  (readDescriptor x contents).mapError (parsingClause x)

/-! ## The errors of the checks -/

def IsDescriptorError (e : Raised) : Prop := ∃ msg, e = .descriptorError msg

theorem throws_descriptorCheck (ok : Bool) (msg : String) : Throws IsDescriptorError (descriptorCheck ok msg) := by
  unfold descriptorCheck
  split
  · exact throws_pure ()
  · exact throws_throw ⟨msg, rfl⟩

theorem throws_checkLabel (label value : String) : Throws IsDescriptorError (checkLabel label value) := by
  unfold checkLabel
  split
  · exact throws_throw ⟨_, rfl⟩
  · split
    · exact throws_throw ⟨_, rfl⟩
    · exact throws_pure ()

theorem throws_checkML (ml : MLDescriptor) : Throws IsDescriptorError (checkML ml) := by
  refine (throws_descriptorCheck _ _).bind fun _ _ => ?_
  split
  · exact throws_pure ()
  · exact throws_descriptorCheck _ _

theorem throws_postInit (cronValid : String → Bool) (d : BenchmarkDescriptor) :
    Throws IsDescriptorError (d.postInit cronValid) := by
  iterate 3 refine (throws_descriptorCheck _ _).bind fun _ _ => ?_
  refine Throws.bind (Throws.forM fun kv _ => throws_checkLabel kv.1 kv.2) fun _ _ => ?_
  split
  · exact throws_pure ()
  · exact throws_checkML _

end BenchmarkAi.Transpiler
