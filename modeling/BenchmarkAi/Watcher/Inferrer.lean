import BenchmarkAi.Watcher.Watch
/-!
# Inferring the status of a Kubernetes job

`bai_watcher/status_inferrers/single_node.py` and `_get_status` of
`bai_watcher/kubernetes_job_watcher.py`: the job, then its first pod, then the containers
of that pod are asked for a status, and when none has one the inferrer raises.
-/

open List

namespace BenchmarkAi.Watcher

/-! ## What the Kubernetes API returns

The fields that are read. The API always sends the status of a pod and the state of a
container, though any part of them can be missing.
-/

structure V1ContainerStateTerminated where
  exit_code : Int
  reason : Option String := none
  message : Option String := none
deriving DecidableEq, Repr

structure V1ContainerStateWaiting where
  reason : Option String := none
  message : Option String := none
deriving DecidableEq, Repr

structure V1ContainerStateRunning where
  started_at : Option String := none
deriving DecidableEq, Repr

structure V1ContainerState where
  terminated : Option V1ContainerStateTerminated := none
  waiting : Option V1ContainerStateWaiting := none
  running : Option V1ContainerStateRunning := none
deriving DecidableEq, Repr

structure V1ContainerStatus where
  name : String
  state : V1ContainerState
deriving DecidableEq, Repr

structure V1PodCondition where
  type : String
  reason : Option String := none
deriving DecidableEq, Repr

structure V1PodStatus where
  phase : Option String := none
  conditions : Option (List V1PodCondition) := none
  init_container_statuses : Option (List V1ContainerStatus) := none
  container_statuses : Option (List V1ContainerStatus) := none
deriving DecidableEq, Repr

structure V1JobCondition where
  reason : Option String := none
deriving DecidableEq, Repr

structure V1JobStatus where
  succeeded : Option Int := none
  conditions : Option (List V1JobCondition) := none
deriving DecidableEq, Repr

/-! ## `collect_container_states` -/

inductive ContainerState
  | failed | pending | running
deriving DecidableEq, Repr

structure ContainerInfo where
  container_name : String
  message : String
deriving DecidableEq, Repr

abbrev ContainerStates := List (ContainerState × List ContainerInfo)

def ContainerStates.add (state : ContainerState) (obj : ContainerInfo) : ContainerStates → ContainerStates
  | [] => [(state, [obj])]
  | (k, infos) :: rest =>
    if k = state then (k, if obj ∈ infos then infos else infos ++ [obj]) :: rest
    else (k, infos) :: ContainerStates.add state obj rest

def stateEntries (status : V1ContainerStatus) : List (ContainerState × ContainerInfo) :=
  (match status.state.terminated with
    | some t => if t.exit_code ≠ 0 then [(.failed, ⟨status.name, pyStr t.reason ++ " - " ++ pyStr t.message⟩)] else []
    | none => []) ++
  (match status.state.waiting with
    | some t => [(.pending, ⟨status.name, pyStr t.reason ++ " - " ++ pyStr t.message⟩)]
    | none => []) ++
  (match status.state.running with
    | some t => [(.running, ⟨status.name, pyStr t.started_at⟩)]
    | none => [])

def collectContainerStates (container_statuses : List V1ContainerStatus) : ContainerStates :=
  (container_statuses.flatMap stateEntries).foldl (fun states e => states.add e.1 e.2) []

/-! ## `SingleNodeStrategyKubernetesStatusInferrer` -/

def failureReasons : List String := ["BackoffLimitExceeded"]

def benchmarkContainerName : String := "benchmark"

/-- The order in which Python goes through a set: some order of its elements. -/
structure SetOrder where
  items : List ContainerInfo → List ContainerInfo
  perm : ∀ infos, (items infos).Perm infos

def V1JobStatus.hasSucceeded (k8s_job_status : V1JobStatus) : Bool := k8s_job_status.succeeded.any (0 < ·)

def V1JobStatus.hasFailed (k8s_job_status : V1JobStatus) : Bool :=
  (k8s_job_status.conditions.getD []).any fun cond => cond.reason.any (· ∈ failureReasons)

def inferStatusFromJob (k8s_job_status : V1JobStatus) : Option BenchmarkJobStatus :=
  if k8s_job_status.hasSucceeded then some .succeeded
  else if k8s_job_status.hasFailed then some .failed
  else none

def unschedulable (pod_status : V1PodStatus) : Bool :=
  match pod_status.conditions with
  | some (condition :: _) => condition.type = "PodScheduled" && condition.reason = some "Unschedulable"
  | _ => false

def inferStatusFromPod : List V1PodStatus → Option BenchmarkJobStatus
  | [] => some .no_pod_scheduled
  | pod_status :: _ =>
    if pod_status.phase = some "Running" then some .running_at_main_containers
    else if pod_status.phase = some "Pending" && unschedulable pod_status then some .pending_node_scaling
    else none

def initContainersStatus : ContainerStates → Option BenchmarkJobStatus
  | [] => none
  | (.pending, _) :: _ => some .pending_at_init_containers
  | (.running, _) :: _ => some .running_at_init_containers
  | (.failed, _) :: _ => some .failed_at_init_containers

/-- The loop over the main containers. The first container of a set decides; a state
whose containers run is passed over. -/
def mainContainersStatus (order : SetOrder) : ContainerStates → Option BenchmarkJobStatus
  | [] => none
  | (.pending, infos) :: rest =>
    match order.items infos with
    | [] => mainContainersStatus order rest
    | info :: _ =>
      if info.container_name = benchmarkContainerName then some .pending_at_benchmark_container
      else some .pending_at_sidecar_container
  | (.failed, infos) :: rest =>
    match order.items infos with
    | [] => mainContainersStatus order rest
    | info :: _ =>
      if info.container_name = benchmarkContainerName then some .failed_at_benchmark_container
      else some .failed_at_sidecar_container
  | (.running, _) :: rest => mainContainersStatus order rest

/-- `_infer_status_from_containers`, called when there is a pod. Only the statuses of the
init containers are defaulted; going through `None` raises. -/
def inferStatusFromContainers (order : SetOrder) (pod_status : V1PodStatus) :
    Except Raised (Option BenchmarkJobStatus) :=
  match initContainersStatus (collectContainerStates (pod_status.init_container_statuses.getD [])) with
  | some status => .ok (some status)
  | none =>
    match pod_status.container_statuses with
    | none => .error .typeError
    | some statuses => .ok (mainContainersStatus order (collectContainerStates statuses))

def inferStatus (order : SetOrder) (k8s_job_status : V1JobStatus) (pods : List V1PodStatus) :
    Except Raised BenchmarkJobStatus :=
  match inferStatusFromJob k8s_job_status with
  | some status => .ok status
  | none =>
    match inferStatusFromPod pods with
    | some status => .ok status
    | none =>
      match pods with
      | [] => .error .indexError
      | pod_status :: _ =>
        match inferStatusFromContainers order pod_status with
        | .error e => .error e
        | .ok (some status) => .ok status
        | .ok none => .error .valueError

structure Answers where
  job : Except Nat V1JobStatus
  pods : Except Nat (List V1PodStatus)

def getStatus (order : SetOrder) (a : Answers) : Except Raised BenchmarkJobStatus :=
  match a.job with
  | .error status => if status = 404 then .ok .job_not_found else .error (.apiException status)
  | .ok k8s_job_status =>
    match a.pods with
    | .error status => .error (.apiException status)
    | .ok pods => inferStatus order k8s_job_status pods

/-! ## Which states are entered -/

variable {states : ContainerStates} {k : ContainerState} {infos : List ContainerInfo}

/-- Entering an object keeps the other states, and no state is left with an empty set. -/
theorem ContainerStates.mem_add {state obj} (h : (k, infos) ∈ states.add state obj) :
    (k, infos) ∈ states ∨ (k = state ∧ infos ≠ []) := by
  induction states with
  | nil =>
    simp only [ContainerStates.add, mem_singleton, Prod.mk.injEq] at h
    exact .inr ⟨h.1, by simp [h.2]⟩
  | cons e rest ih =>
    rw [ContainerStates.add] at h
    split at h
    · rename_i hk
      rcases mem_cons.1 h with heq | hr
      · cases heq
        refine .inr ⟨hk, ?_⟩
        split
        · rename_i hobj
          exact ne_nil_of_mem hobj
        · simp
      · exact .inl (mem_cons_of_mem _ hr)
    · rcases mem_cons.1 h with heq | hr
      · exact .inl (heq ▸ mem_cons_self)
      · rcases ih hr with hin | hnew
        · exact .inl (mem_cons_of_mem _ hin)
        · exact .inr hnew

theorem ContainerStates.keys_add (state k : ContainerState) (obj : ContainerInfo) (states : ContainerStates) :
    k ∈ (states.add state obj).map Prod.fst ↔ k ∈ states.map Prod.fst ∨ k = state := by
  induction states with
  | nil => simp [ContainerStates.add]
  | cons e rest ih =>
    rw [ContainerStates.add]
    split
    · rename_i hk
      simp only [map_cons, mem_cons, hk]
      tauto
    · simp only [map_cons, mem_cons, ih, or_assoc]

theorem keys_collect (k : ContainerState) (statuses : List V1ContainerStatus) :
    k ∈ (collectContainerStates statuses).map Prod.fst ↔ ∃ s ∈ statuses, k ∈ (stateEntries s).map Prod.fst := by
  have folded : ∀ (es : List (ContainerState × ContainerInfo)) (states : ContainerStates),
      k ∈ (es.foldl (fun states e => states.add e.1 e.2) states).map Prod.fst ↔
        k ∈ states.map Prod.fst ∨ k ∈ es.map Prod.fst := by
    intro es
    induction es with
    | nil => simp
    | cons e es ih =>
      intro states
      rw [foldl_cons, ih, ContainerStates.keys_add, map_cons, mem_cons, or_assoc]
  rw [collectContainerStates, folded]
  simp only [map_nil, not_mem_nil, false_or, map_flatMap, mem_flatMap]

theorem collect_nonempty {statuses} (h : (k, infos) ∈ collectContainerStates statuses) : infos ≠ [] := by
  have hall : ∀ e ∈ collectContainerStates statuses, e.2 ≠ [] := by
    refine foldlRecOn (motive := fun states : ContainerStates => ∀ e ∈ states, e.2 ≠ []) _ _ (by simp)
      fun states hs e _ e' he' => ?_
    rcases ContainerStates.mem_add he' with hin | ⟨-, hne⟩
    · exact hs e' hin
    · exact hne
  exact hall (k, infos) h

/-! ## When nothing is inferred -/

def V1ContainerStatus.held (s : V1ContainerStatus) : Bool :=
  s.state.waiting.isSome || s.state.terminated.any (·.exit_code ≠ 0)

def V1ContainerStatus.unfinished (s : V1ContainerStatus) : Bool := s.held || s.state.running.isSome

theorem mem_stateEntries (k : ContainerState) (s : V1ContainerStatus) : k ∈ (stateEntries s).map Prod.fst ↔ match k with
      | .failed => s.state.terminated.any (·.exit_code ≠ 0) = true
      | .pending => s.state.waiting.isSome = true
      | .running => s.state.running.isSome = true := by
  obtain ⟨name, terminated, waiting, running⟩ := s
  unfold stateEntries
  cases terminated with
  | none => cases waiting <;> cases running <;> cases k <;> simp
  | some t =>
    by_cases ht : t.exit_code = 0 <;> cases waiting <;> cases running <;> cases k <;> simp [ht]

theorem initContainersStatus_none (states : ContainerStates) : initContainersStatus states = none ↔ states = [] := by
  cases states with
  | nil => simp [initContainersStatus]
  | cons e rest =>
    obtain ⟨k, infos⟩ := e
    cases k <;> simp [initContainersStatus]

theorem mainContainersStatus_none {order} (h : ∀ e ∈ states, e.2 ≠ []) :
    mainContainersStatus order states = none ↔ ∀ e ∈ states, e.1 = .running := by
  induction states with
  | nil => simp [mainContainersStatus]
  | cons e rest ih =>
    obtain ⟨k, infos⟩ := e
    have hne : order.items infos ≠ [] := by
      intro hnil
      exact h _ mem_cons_self (Perm.eq_nil (hnil ▸ (order.perm infos).symm))
    have hr := ih fun e he => h e (mem_cons_of_mem _ he)
    cases k with
    | running => simp [mainContainersStatus, hr]
    | pending =>
      obtain ⟨info, infos', hi⟩ := exists_cons_of_ne_nil hne
      rw [mainContainersStatus, hi]
      dsimp only
      split <;> simp
    | failed =>
      obtain ⟨info, infos', hi⟩ := exists_cons_of_ne_nil hne
      rw [mainContainersStatus, hi]
      dsimp only
      split <;> simp

/-- The init containers are done and no main container waits or has failed, or there are
no statuses of main containers at all. -/
def V1PodStatus.silent (p : V1PodStatus) : Bool :=
  !(p.init_container_statuses.getD []).any V1ContainerStatus.unfinished &&
    p.container_statuses.all fun statuses => !statuses.any V1ContainerStatus.held

theorem collect_eq_nil (statuses : List V1ContainerStatus) :
    collectContainerStates statuses = [] ↔ statuses.any V1ContainerStatus.unfinished = false := by
  have hke : collectContainerStates statuses = [] ↔ ∀ k, k ∉ (collectContainerStates statuses).map Prod.fst := by
    rw [← eq_nil_iff_forall_not_mem, map_eq_nil_iff]
  rw [hke, any_eq_false]
  constructor
  · intro h s hs
    have hno : ∀ k, k ∉ (stateEntries s).map Prod.fst := fun k hk => h k ((keys_collect k statuses).2 ⟨s, hs, hk⟩)
    have hf := hno .failed
    have hp := hno .pending
    have hr := hno .running
    rw [mem_stateEntries] at hf hp hr
    simp only [V1ContainerStatus.unfinished, V1ContainerStatus.held, Bool.or_eq_true, not_or]
    exact ⟨⟨hp, hf⟩, hr⟩
  · intro h k hk
    obtain ⟨s, hs, hks⟩ := (keys_collect k statuses).1 hk
    have hs' := h s hs
    simp only [V1ContainerStatus.unfinished, V1ContainerStatus.held, Bool.or_eq_true, not_or] at hs'
    rw [mem_stateEntries] at hks
    cases k with
    | failed => exact hs'.1.2 hks
    | pending => exact hs'.1.1 hks
    | running => exact hs'.2 hks

theorem mainContainersStatus_collect (order : SetOrder) (statuses : List V1ContainerStatus) :
    mainContainersStatus order (collectContainerStates statuses) = none ↔
      statuses.any V1ContainerStatus.held = false := by
  have hke : (∀ e ∈ collectContainerStates statuses, e.1 = .running) ↔
      ∀ k, k ∈ (collectContainerStates statuses).map Prod.fst → k = .running := by
    simp only [mem_map, forall_exists_index, and_imp, Prod.forall]
    constructor
    · rintro h k k' infos he rfl
      exact h k' infos he
    · intro h k infos he
      exact h k k infos he rfl
  rw [mainContainersStatus_none fun e he => collect_nonempty he, hke, any_eq_false]
  simp only [V1ContainerStatus.held, Bool.or_eq_true, not_or]
  constructor
  · intro h s hs
    constructor
    · intro hw
      cases h .pending ((keys_collect .pending statuses).2 ⟨s, hs, (mem_stateEntries .pending s).2 hw⟩)
    · intro ht
      cases h .failed ((keys_collect .failed statuses).2 ⟨s, hs, (mem_stateEntries .failed s).2 ht⟩)
  · intro h k hk
    obtain ⟨s, hs, hks⟩ := (keys_collect k statuses).1 hk
    rw [mem_stateEntries] at hks
    cases k with
    | failed => exact absurd hks (h s hs).2
    | pending => exact absurd hks (h s hs).1
    | running => rfl

/-- No container gives a status: either nothing is found or `None` is gone through. -/
theorem inferStatusFromContainers_silent (order : SetOrder) (p : V1PodStatus) :
    (∀ status, inferStatusFromContainers order p ≠ .ok (some status)) ↔ p.silent = true := by
  unfold inferStatusFromContainers V1PodStatus.silent
  cases hi : initContainersStatus (collectContainerStates (p.init_container_statuses.getD [])) with
  | some status =>
    have ho : (p.init_container_statuses.getD []).any V1ContainerStatus.unfinished = true := by
      rw [← Bool.not_eq_false, ← collect_eq_nil, ← initContainersStatus_none, hi]
      simp
    rw [ho]
    simp
  | none =>
    rw [initContainersStatus_none, collect_eq_nil] at hi
    rw [hi]
    cases hm : p.container_statuses with
    | none => simp
    | some statuses =>
      have hm := mainContainersStatus_collect order statuses
      cases hst : mainContainersStatus order (collectContainerStates statuses) with
      | none => simp [hst, hm.1 hst]
      | some status =>
        have hh : statuses.any V1ContainerStatus.held = true := by
          rw [← Bool.not_eq_false, ← hm, hst]
          simp
        simp [hst, hh]

/-- What one observation shows that the inferrer has no answer to: the job has neither
succeeded nor failed, and its first pod is silent and neither runs nor waits for a node. -/
def gap (k8s_job_status : V1JobStatus) : List V1PodStatus → Bool
  | [] => false
  | p :: _ =>
    !k8s_job_status.hasSucceeded && !k8s_job_status.hasFailed && p.phase ≠ some "Running" &&
      !(p.phase = some "Pending" && unschedulable p) && p.silent

theorem inferStatusFromJob_none (j : V1JobStatus) :
    inferStatusFromJob j = none ↔ j.hasSucceeded = false ∧ j.hasFailed = false := by
  unfold inferStatusFromJob
  cases j.hasSucceeded <;> cases j.hasFailed <;> simp

theorem inferStatusFromPod_none (p : V1PodStatus) (pods : List V1PodStatus) : inferStatusFromPod (p :: pods) = none ↔
      p.phase ≠ some "Running" ∧ (p.phase = some "Pending" && unschedulable p) = false := by
  rw [inferStatusFromPod]
  split
  · rename_i hrun
    simp [hrun]
  · rename_i hrun
    cases hp : (decide (p.phase = some "Pending") && unschedulable p) <;> simp [hrun]

theorem inferStatus_raises (order : SetOrder) (j : V1JobStatus) (pods : List V1PodStatus) :
    (∀ status, inferStatus order j pods ≠ .ok status) ↔ gap j pods = true := by
  unfold inferStatus
  cases hj : inferStatusFromJob j with
  | some status =>
    have hno : ¬ (j.hasSucceeded = false ∧ j.hasFailed = false) := by
      rw [← inferStatusFromJob_none, hj]
      simp
    cases pods with
    | nil => simp [gap]
    | cons p pods =>
      cases hs : j.hasSucceeded <;> cases hf : j.hasFailed <;> simp_all [gap]
  | none =>
    obtain ⟨hs, hf⟩ := (inferStatusFromJob_none j).1 hj
    cases pods with
    | nil => simp [inferStatusFromPod, gap]
    | cons p pods =>
      cases hp : inferStatusFromPod (p :: pods) with
      | some status =>
        have hno : ¬ (p.phase ≠ some "Running" ∧ (p.phase = some "Pending" && unschedulable p) = false) := by
          rw [← inferStatusFromPod_none p pods, hp]
          simp
        simp only [gap, hs, hf]
        simp_all
      | none =>
        obtain ⟨hrun, hpe⟩ := (inferStatusFromPod_none p pods).1 hp
        have hsi := inferStatusFromContainers_silent order p
        have hgap : gap j (p :: pods) = p.silent := by
          simp only [gap, hs, hf, hpe, ne_eq, hrun]
          simp
        rw [hgap, ← hsi]
        dsimp only
        cases hc : inferStatusFromContainers order p with
        | error e => simp
        | ok o => cases o <;> simp

end BenchmarkAi.Watcher
