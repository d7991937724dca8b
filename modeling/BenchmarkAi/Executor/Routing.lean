import BenchmarkAi.Executor.Handler
/-!
# Who takes an event

The executor of Kubernetes and the executor of SageMaker are two services that read one topic. The first has a handler
for single runs and one for scheduled benchmarks, the second a handler for single runs. Nobody assigns the events: each
handler decides alone whether one is its own.
-/

open Lib Lib.Dacite List

namespace BenchmarkAi.Executor

open Transpiler

/-! ## Scheduled benchmarks -/

namespace K8SExecutionEngine

def createScheduledJobYamlSpec (k : K8SExecutionEngine) (e : FetcherBenchmarkEvent) : Except SpecError (List Tree) := do
  let descriptor ← readContents k.parsing e.payload.contents
  (createScheduledJobSpec k.parsing.outside (k.request e descriptor)).mapError .raised

def schedule (k : K8SExecutionEngine) : Engine := fun e => k.apply e (k.createScheduledJobYamlSpec e)

end K8SExecutionEngine

/-- `ScheduledBenchmarkExecutorEventHandler.handle_event`. It does not look at the engine of the descriptor. -/
def handleScheduled (schedule : Engine) (e : FetcherBenchmarkEvent) : Handled :=
  let pending := .status .pending "Processing scheduled benchmark submission request..."
  match isSingleRun e with
  | .ok true => { sent := [] }
  | .ok false =>
    match schedule e with
    | .ok job =>
      { sent := [pending, .status .succeeded ("Scheduled benchmark successfully submitted with job id " ++ job.id)] }
    | .error (.executionEngine msg) =>
      { sent := [pending, .status .error msg], raised := some .kafkaServiceCallback }
    | .error .other => { sent := [pending], raised := some .other }
  | .error _ => { sent := [], raised := some .other }

/-! ## The two services -/

inductive Service
  | executor
  | smExecutor
deriving DecidableEq

/-- What the services are made of: the engines, and the topic for their events. -/
structure Deployment where
  kubernetes : K8SExecutionEngine
  sageMaker : Engine
  producer_topic : String

/-- The callbacks of `create_executor`, for the topic of the fetcher. -/
def Deployment.callbacks (d : Deployment) : Service → List (FetcherBenchmarkEvent → Handled)
  | .executor => [
    ExecutorEventHandler.handleEvent ⟨[(defaultEngine, d.kubernetes.run), ("kubernetes", d.kubernetes.run)], d.producer_topic⟩,
    handleScheduled d.kubernetes.schedule]
  | .smExecutor => [ExecutorEventHandler.handleEvent ⟨[("aws.sagemaker", d.sageMaker)], d.producer_topic⟩]

/-- A callback that raises is logged, and the next one is called. -/
def Deployment.answers (d : Deployment) (service : Service) (e : FetcherBenchmarkEvent) : List Sent :=
  (d.callbacks service).flatMap fun callback => (callback e).sent

/-- The service that an event is meant for. -/
def route (e : FetcherBenchmarkEvent) : Option Service :=
  match isSingleRun e, infoField e.payload.contents "execution_engine" defaultEngine with
  | .ok false, _ => some .executor
  | .ok true, .ok (.str id) =>
    if id = defaultEngine ∨ id = "kubernetes" then some .executor
    else if id = "aws.sagemaker" then some .smExecutor
    else none
  | _, _ => none

def Sent.acknowledges : Sent → Bool
  | .status .pending _ => true
  | _ => false

section Answers
variable {h : ExecutorEventHandler} {e : FetcherBenchmarkEvent}

theorem runEngine_acknowledges (h : ExecutorEventHandler) (engine : Engine) (e : FetcherBenchmarkEvent) :
    (h.runEngine engine e).sent.countP Sent.acknowledges = 1 := by
  unfold ExecutorEventHandler.runEngine
  split <;> rfl

theorem handleScheduled_acknowledges (schedule : Engine) (hs : isSingleRun e = .ok false) :
    (handleScheduled schedule e).sent.countP Sent.acknowledges = 1 := by
  rw [handleScheduled, hs]
  dsimp only
  split <;> rfl

theorem handleScheduled_other (schedule : Engine) (hs : isSingleRun e ≠ .ok false) :
    (handleScheduled schedule e).sent = [] := by
  unfold handleScheduled
  split
  · rfl
  · exact absurd ‹_› hs
  · rfl

theorem handleEvent_other (hs : isSingleRun e ≠ .ok true) : (h.handleEvent e).sent = [] := by
  unfold ExecutorEventHandler.handleEvent ExecutorEventHandler.engineFor
  cases hr : isSingleRun e with
  | error err => rfl
  | ok single =>
    cases single with
    | true => exact absurd hr hs
    | false => rfl

theorem handleEvent_single (hs : isSingleRun e = .ok true) :
    (h.handleEvent e).sent =
      match infoField e.payload.contents "execution_engine" defaultEngine with
      | .ok (.str id) => ((h.execution_engines.lookup id).map fun engine => (h.runEngine engine e).sent).getD []
      | _ => [] := by
  unfold ExecutorEventHandler.handleEvent ExecutorEventHandler.engineFor ExecutorEventHandler.engine
  rw [hs]
  cases infoField e.payload.contents "execution_engine" defaultEngine with
  | error err => rfl
  | ok v =>
    cases v with
    | str id => cases hl : h.execution_engines.lookup id <;> simp [hl, bind, Except.bind, pure, Except.pure]
    | _ => rfl

end Answers

/-- An event is acknowledged once, by the service that it is meant for, and the other service sends nothing. An event
that is meant for none, with an engine that neither has or an `info` that is no section, is not answered at all. -/
theorem routed_once (d : Deployment) (e : FetcherBenchmarkEvent) (service : Service) :
    (route e = some service → (d.answers service e).countP Sent.acknowledges = 1) ∧
      (route e ≠ some service → d.answers service e = []) := by
  unfold Deployment.answers route
  cases hs : isSingleRun e with
  | error err =>
    have hsi (h : ExecutorEventHandler) : (h.handleEvent e).sent = [] := handleEvent_other (by simp [hs])
    have hsc := handleScheduled_other d.kubernetes.schedule (by simp [hs] : isSingleRun e ≠ .ok false)
    cases service <;> simp [Deployment.callbacks, hsi, hsc]
  | ok single =>
    cases single with
    | false =>
      have hsi (h : ExecutorEventHandler) : (h.handleEvent e).sent = [] := handleEvent_other (by simp [hs])
      have hsc := handleScheduled_acknowledges d.kubernetes.schedule hs
      cases service <;> simp [Deployment.callbacks, hsi, hsc]
    | true =>
      have hsi (h : ExecutorEventHandler) := @handleEvent_single h e hs
      have hsc := handleScheduled_other d.kubernetes.schedule (by simp [hs] : isSingleRun e ≠ .ok false)
      cases hf : infoField e.payload.contents "execution_engine" defaultEngine with
      | error err => cases service <;> simp [Deployment.callbacks, hsi, hsc, hf]
      | ok v =>
        cases v with
        | str id =>
          -- the tables of the two services have no engine in common
          have hne : defaultEngine ≠ "aws.sagemaker" ∧ "kubernetes" ≠ "aws.sagemaker" := by decide
          by_cases hk : id = defaultEngine ∨ id = "kubernetes"
          · rcases hk with rfl | rfl <;> cases service <;>
              simp [Deployment.callbacks, hsi, hsc, hf, lookup_cons_if, runEngine_acknowledges, hne]
          · have hk' := not_or.1 hk
            by_cases hm : id = "aws.sagemaker" <;> cases service <;>
              simp [Deployment.callbacks, hsi, hsc, hf, lookup_cons_if, runEngine_acknowledges, hk', hm, hne.1.symm, hne.2.symm]
        | _ => cases service <;> simp [Deployment.callbacks, hsi, hsc, hf]

end BenchmarkAi.Executor
