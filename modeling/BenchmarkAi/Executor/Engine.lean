import BenchmarkAi.Events
import BenchmarkAi.Lib.Selector
/-!
# Cancelling in the cluster

`bai_k8s_utils/service_labels.py`, which writes the selectors, and the cancel part of
`executor/k8s_execution_engine.py`, which gives them to `kubectl delete`. A selector
is a text: what it selects is what the Kubernetes API reads it as.
-/

open Lib Lib.Selector

namespace BenchmarkAi.Executor

/-! ## `ServiceLabels` -/

def actionIdLabel : String := "action-id"
def parentActionIdLabel : String := "parent-action-id"
def clientIdLabel : String := "client-id"
def createdByLabel : String := "created-by"

def buildLabelSelector (service_name client_id : String) (additional_labels : List (String × String)) : String :=
  let label (kv : String × String) := kv.1 ++ "=" ++ kv.2
  ",".intercalate
    ([label (createdByLabel, service_name), label (clientIdLabel, client_id)] ++ additional_labels.map label)

/-- `get_label_selector`. An empty action id adds no requirement. -/
def getLabelSelector (service_name client_id : String) (action_id : Option String) : String :=
  buildLabelSelector service_name client_id (if truthy action_id then [(actionIdLabel, action_id.getD "")] else [])

def getLabelSelectorAsParent (service_name client_id action_id : String) : String :=
  buildLabelSelector service_name client_id [(parentActionIdLabel, action_id)]

/-! ## The cluster -/

structure K8sObject where
  resource : String
  labels : List (String × String)
deriving DecidableEq, Repr

def K8sObject.label (o : K8sObject) : Labels := fun k => o.labels.lookup k

structure Cluster where
  objects : List K8sObject
  deleted : List K8sObject := []
deriving DecidableEq, Repr

def allK8sResourceTypes : List String := ["jobs", "cronjobs", "mpijobs", "configmaps", "rolebindings", "services"]

/-- How a run of `kubectl` goes: well, or it fails after it has deleted some of the objects. -/
inductive Kubectl
  | succeeds
  | fails (deletes : K8sObject → Bool)

inductive DeleteError
  | noK8sResourcesFound
  | other
deriving DecidableEq, Repr

def Cluster.delete (c : Cluster) (p : K8sObject → Bool) : Cluster :=
  { objects := c.objects.filter (fun o => !p o), deleted := c.deleted ++ c.objects.filter p }

def selectedBy (label_selector : String) (o : K8sObject) : Bool :=
  allK8sResourceTypes.contains o.resource && selects label_selector o.label

/-- `_delete_k8s_resources`: the deleted objects are the output. A selector that the
API can not read is an error before anything is deleted. -/
def deleteK8sResources (kubectl : Kubectl) (label_selector : String) (c : Cluster) :
    Except DeleteError (List K8sObject) × Cluster :=
  if label_selector = "" then (.error .other, c)
  else if (parse label_selector).isNone then (.error .other, c)
  else
    match kubectl with
    | .fails deletes => (.error .other, c.delete fun o => selectedBy label_selector o && deletes o)
    | .succeeds =>
      let found := c.objects.filter (selectedBy label_selector)
      (if found = [] then .error .noK8sResourcesFound else .ok found, c.delete (selectedBy label_selector))

/-! ## The engine -/

def createLabelSelector (client_id action_id : String) (as_parent : Bool) : String :=
  if as_parent then getLabelSelectorAsParent executorService client_id action_id
  else getLabelSelector executorService client_id (some action_id)

def requirements (client_id action_id : String) (as_parent : Bool) : List (String × String) :=
  (createdByLabel, executorService) :: (clientIdLabel, client_id) ::
    if as_parent then [(parentActionIdLabel, action_id)]
    else if action_id ≠ "" then [(actionIdLabel, action_id)] else []

theorem createLabelSelector_eq (client_id action_id : String) (as_parent : Bool) :
    createLabelSelector client_id action_id as_parent = equalities (requirements client_id action_id as_parent) := by
  unfold createLabelSelector requirements
  cases as_parent with
  | true => rfl
  | false =>
    rw [getLabelSelector, truthy]
    by_cases ha : action_id = ""
    · subst ha
      rfl
    · rw [bne_iff_ne.2 ha, if_pos ha]
      rfl

theorem isKey_requirements (client_id action_id : String) (as_parent : Bool) :
    ∀ kv ∈ requirements client_id action_id as_parent, isKey kv.1 = true := by
  have keys : isKey createdByLabel = true ∧ isKey clientIdLabel = true ∧ isKey actionIdLabel = true ∧
      isKey parentActionIdLabel = true := by decide
  unfold requirements
  cases as_parent with
  | true => simp [keys]
  | false => by_cases ha : action_id = "" <;> simp [ha, keys]

inductive EngineError
  | noResourcesFound (action_id : String)
  | executionEngine
deriving DecidableEq, Repr

def cancelOnce (kubectl : Kubectl) (client_id action_id : String) (as_parent : Bool) (c : Cluster) :
    Except DeleteError (List K8sObject) × Cluster :=
  deleteK8sResources kubectl (createLabelSelector client_id action_id as_parent) c

def cancelChildren (kubectl : Kubectl) (client_id action_id : String) (results : List (List K8sObject)) (c : Cluster) :
    Except EngineError (List (List K8sObject)) × Cluster :=
  match cancelOnce kubectl client_id action_id true c with
  | (.ok result, c) => (.ok (results ++ [result]), c)
  | (.error .noK8sResourcesFound, c) => (.error (.noResourcesFound action_id), c)
  | (.error .other, c) => (.error .executionEngine, c)

/-- `K8SExecutionEngine.cancel`; `kubectl` says how its one or two runs go. -/
def cancel (kubectl : Bool → Kubectl) (client_id action_id : String) (cascade : Bool) (c : Cluster) :
    Except EngineError (List (List K8sObject)) × Cluster :=
  match cancelOnce (kubectl false) client_id action_id false c with
  | (.ok result, c) =>
    if cascade then cancelChildren (kubectl true) client_id action_id [result] c else (.ok [result], c)
  | (.error .noK8sResourcesFound, c) =>
    if cascade then cancelChildren (kubectl true) client_id action_id [] c
    else (.error (.noResourcesFound action_id), c)
  | (.error .other, c) => (.error .executionEngine, c)

end BenchmarkAi.Executor
