import BenchmarkAi.Events
import BenchmarkAi.Transpiler.Spec
/-!
# Benchmark descriptors

`bai_kafka_utils/executors/descriptor.py`: the descriptor of a benchmark and what
its construction checks. The fields are those that the checks and the builders of
the Kubernetes objects read.
-/

open Lib

namespace BenchmarkAi.Transpiler

inductive DistributedStrategy
  | single_node | horovod | inference
deriving DecidableEq, Repr

def DistributedStrategy.value : DistributedStrategy → String
  | single_node => "single_node"
  | horovod => "horovod"
  | inference => "inference"

inductive MLFramework
  | tensorflow | mxnet | none
deriving DecidableEq, Repr

def MLFramework.value : MLFramework → String
  | tensorflow => "tensorflow"
  | mxnet => "mxnet"
  | none => ""

structure DescriptorConfig where
  valid_strategies : List String
  valid_frameworks : List String

def singleRunScheduling : String := "single_run"

structure InfoDescriptor where
  scheduling : String := singleRunScheduling
  labels : Dict String := .empty

structure MLDescriptor where
  framework : MLFramework := .none
  benchmark_code : Option String := none
  args : Option String := none
  framework_version : Option String := none
  script : Option String := none

structure CustomParamsDescriptor where
  dashboard : Option String := none
  region : Option String := none

structure MetricDescriptor where
  name : String
  units : String
  pattern : String

structure HardwareDescriptor where
  instance_type : String
  aws_zone_id : Option String := none
  availability_zone : Option String := none

structure BenchmarkHardwareDescriptor extends HardwareDescriptor where
  strategy : DistributedStrategy := .single_node
  num_instances : Int := 2

structure BenchmarkEnvDescriptor where
  docker_image : String
  privileged : Bool := false
  extended_shm : Bool := true
  vars : List (String × String) := []

structure ServerEnvDescriptor extends BenchmarkEnvDescriptor where
  ports : List Int
  start_command : String
  readiness_probe : Option HttpProbeDescriptor := none
  start_command_args : Option String := none

structure ServerDescriptor where
  hardware : HardwareDescriptor
  env : ServerEnvDescriptor
  output : Option (List MetricDescriptor) := none

structure BenchmarkDescriptor where
  info : InfoDescriptor
  hardware : BenchmarkHardwareDescriptor
  env : BenchmarkEnvDescriptor
  output : Option (List MetricDescriptor) := none
  ml : Option MLDescriptor := none
  custom_params : Option CustomParamsDescriptor := none
  server : Option ServerDescriptor := none

def BenchmarkDescriptor.isInferenceStrategy (d : BenchmarkDescriptor) : Bool := d.hardware.strategy = .inference

/-! ## Labels -/

def labelChar (c : Char) : Bool := c.isAlphanum || c == '-' || c == '_' || c == '.'

def labelBody : List Char → Bool
  | [] => false
  | [c] => c.isAlphanum
  | c :: cs => c.isAlphanum && cs.dropLast.all labelChar && cs.getLast?.any (·.isAlphanum)

/-- `LABEL_VALIDATION_REGEX.fullmatch`, for `(?=.{1,63}$)([A-Za-z0-9][-A-Za-z0-9_.]*)?[A-Za-z0-9]`. -/
def labelMatches (s : String) : Bool := 1 ≤ s.length && s.length ≤ 63 && labelBody s.toList

def invalidLabelMessage : String :=
  "(RegExp used for validation is ([A-Za-z0-9][-A-Za-z0-9_.]*)?[A-Za-z0-9] " ++
  "Please use Kubernetes label syntax: " ++
  "https://kubernetes.io/docs/concepts/overview/working-with-objects/labels"

def checkLabel (label value : String) : Py Unit :=
  if !labelMatches label then
    throw (.descriptorError ("Invalid custom label key: " ++ label ++ ". " ++ invalidLabelMessage))
  else if value ≠ "" ∧ !labelMatches value then
    throw (.descriptorError ("Invalid value for label " ++ label ++ ": " ++ value ++ " " ++ invalidLabelMessage))
  else return ()

/-! ## Construction -/

def descriptorCheck (ok : Bool) (msg : String) : Py Unit := if ok then return () else throw (.descriptorError msg)

def checkML (ml : MLDescriptor) : Py Unit := do
  descriptorCheck (!(truthy ml.framework_version && ml.framework = .none))
    "Framework version is present, but not framework"
  match ml.script with
  | none => return ()
  | some script =>
    descriptorCheck (".tar".toList.isSuffixOf script.toList)
      ("Script mode section is present, but script file: " ++ script ++ " is not a tar file")

/-- `BenchmarkDescriptor.__post_init__`; `cronValid` is `CronSlices.is_valid`. -/
def BenchmarkDescriptor.postInit (cronValid : String → Bool) (d : BenchmarkDescriptor) : Py Unit := do
  descriptorCheck (!(d.isInferenceStrategy && d.server.isNone)) "Missing server definition"
  descriptorCheck (1 < d.hardware.num_instances)
    ("Invalid number of instances " ++ toString d.hardware.num_instances)
  descriptorCheck (d.info.scheduling = singleRunScheduling || cronValid d.info.scheduling)
    ("Invalid cron expression in scheduling field: " ++ d.info.scheduling ++ ". " ++
      "Please use Kubernetes cron job syntax or \"single_run\" for non-periodic runs")
  d.info.labels.entries.forM fun (label, value) => checkLabel label value
  match d.ml with
  | none => return ()
  | some ml => checkML ml

/-- `from_dict` with a configuration. A descriptor without an ML section has no
framework to look up, which the function does not expect. -/
def BenchmarkDescriptor.fromDict (cronValid : String → Bool) (config : DescriptorConfig) (d : BenchmarkDescriptor) :
    Py BenchmarkDescriptor := do
  d.postInit cronValid
  descriptorCheck (config.valid_strategies.contains d.hardware.strategy.value)
    ("Invalid strategy: " ++ d.hardware.strategy.value)
  match d.ml with
  | none => throw .builtin
  | some ml =>
    descriptorCheck (config.valid_frameworks.contains ml.framework.value)
      ("Invalid framework  " ++ ml.framework.value)
    return d

end BenchmarkAi.Transpiler
