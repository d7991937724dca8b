import BenchmarkAi.Transpiler.Contents
import BenchmarkAi.Transpiler.LabelTheorems
/-!
# The executor's answer to an event

`ExecutorEventHandler` in `bai_kafka_utils/executors/execution_callback.py` and the run of
`K8SExecutionEngine`: an event is acknowledged, its descriptor is made into Kubernetes
objects, and these are applied. Each of the two has clauses for some exceptions only, so that
the client hears no more of an event on which another one is raised.
-/

open Lib Lib.Dacite

namespace BenchmarkAi.Executor

open Transpiler

structure FetcherPayload where
  contents : Fields
  datasets : List DownloadableContent := []
  models : List DownloadableContent := []
  scripts : List String := []

abbrev FetcherBenchmarkEvent := BenchmarkEvent FetcherPayload

structure BenchmarkJob where
  id : String
  k8s_yaml : List Tree

inductive RunError
  | executionEngine (msg : String)
  | other

abbrev Engine := FetcherBenchmarkEvent → Except RunError BenchmarkJob

/-! ## The engine for Kubernetes -/

/-- How `kubectl apply` goes. It can fail, with a `CalledProcessError`, or not be started. -/
inductive Apply
  | applied
  | failed (msg : String)
  | notStarted
deriving DecidableEq, Repr

structure K8SExecutionEngine where
  parsing : Parsing
  config : ExecutorConfig
  kubectl : List Tree → Apply

namespace K8SExecutionEngine

def jobId (e : FetcherBenchmarkEvent) : String := "b-" ++ e.action_id

def request (k : K8SExecutionEngine) (e : FetcherBenchmarkEvent) (descriptor : BenchmarkDescriptor) : Request where
  descriptor
  config := k.config
  fetched_data_sources := e.payload.datasets
  fetched_models := e.payload.models
  scripts := e.payload.scripts
  job_id := jobId e
  event := { e with payload := () }

/-- `create_job_yaml_spec`: `createJobSpec` goes on where the fields of the descriptor have been read. -/
def createJobYamlSpec (k : K8SExecutionEngine) (e : FetcherBenchmarkEvent) : Except SpecError (List Tree) := do
  let descriptor ← readContents k.parsing e.payload.contents
  (createJobSpec k.parsing.outside (k.request e descriptor)).mapError .raised

/-- What `run` and `schedule` make of a specification: it is applied, and two kinds of exceptions are turned into
another one. -/
def apply (k : K8SExecutionEngine) (e : FetcherBenchmarkEvent) : Except SpecError (List Tree) → Except RunError BenchmarkJob
  | .ok yaml =>
    match k.kubectl yaml with
    | .applied => return { id := jobId e, k8s_yaml := yaml }
    | .failed msg => throw (.executionEngine ("Error executing benchmark: " ++ msg))
    | .notStarted => throw .other
  | .error (.raised (.descriptorError msg)) => throw (.executionEngine ("Error parsing descriptor file: " ++ msg))
  | .error _ => throw .other

def run (k : K8SExecutionEngine) : Engine := fun e => k.apply e (k.createJobYamlSpec e)

end K8SExecutionEngine

/-! ## The handler -/

structure ExecutorEventHandler where
  execution_engines : List (String × Engine)
  producer_topic : String

def infoField (contents : Fields) (key default : String) : Py Data :=
  match (contents.lookup "info").getD (.obj []) with
  | .obj info => return (info.lookup key).getD (.str default)
  | _ => throw .builtin

def isSingleRun (e : FetcherBenchmarkEvent) : Py Bool := do
  match ← infoField e.payload.contents "scheduling" singleRunScheduling with
  | .str scheduling => return scheduling == singleRunScheduling
  | _ => return false

def defaultEngine : String := "default"

/-- `self.execution_engines.get(engine_id)`; a list or a dict can not be looked up. -/
def ExecutorEventHandler.engine (h : ExecutorEventHandler) (e : FetcherBenchmarkEvent) : Py (Option Engine) := do
  match ← infoField e.payload.contents "execution_engine" defaultEngine with
  | .str engine_id => return h.execution_engines.lookup engine_id
  | .arr _ | .obj _ => throw .builtin
  | _ => return none

inductive Sent
  | status (status : Status) (msg : String)
  | event (e : FetcherBenchmarkEvent) (job : BenchmarkJob) (topic : String)

inductive HandlerError
  | kafkaServiceCallback
  | other

structure Handled where
  sent : List Sent
  raised : Option HandlerError := none

def pendingMessage : Sent := .status .pending "Processing benchmark submission request..."

def succeededMessage : Sent := .status .succeeded "Benchmark successfully created..."

def ExecutorEventHandler.engineFor (h : ExecutorEventHandler) (e : FetcherBenchmarkEvent) : Py (Option Engine) := do
  if ← isSingleRun e then h.engine e else return none

def ExecutorEventHandler.runEngine (h : ExecutorEventHandler) (engine : Engine) (e : FetcherBenchmarkEvent) : Handled :=
  match engine e with
  | .ok job => { sent := [pendingMessage, succeededMessage, .event e job h.producer_topic] }
  | .error (.executionEngine msg) =>
    { sent := [pendingMessage, .status .error msg], raised := some .kafkaServiceCallback }
  | .error .other => { sent := [pendingMessage], raised := some .other }

def ExecutorEventHandler.handleEvent (h : ExecutorEventHandler) (e : FetcherBenchmarkEvent) : Handled :=
  match h.engineFor e with
  | .ok (some engine) => h.runEngine engine e
  | .ok none => { sent := [] }
  | .error _ => { sent := [], raised := some .other }

end BenchmarkAi.Executor
