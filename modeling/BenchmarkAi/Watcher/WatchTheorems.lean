import BenchmarkAi.Watcher.Inferrer
/-!
# Theorems about a watch

What the client is told over a whole watch, from what one turn of the loop tells them:
which statuses can follow each other, and whether the end of the job reaches the client.
-/

open List

namespace BenchmarkAi.Watcher

/-! ## Terminal statuses -/

def terminal (s : Status) : Bool := s ∈ [.failed, .succeeded, .canceled]

def active (s : Status) : Bool := s ∈ [.pending, .running]

/-- The source tells the client that the job is over for one status that is not final. -/
theorem terminal_choose (s : BenchmarkJobStatus) :
    terminal (chooseStatusFromBenchmarkStatus s).1 = (s.isFinal || s = .no_pod_scheduled) := by
  cases s <;> rfl

theorem active_choose (s : BenchmarkJobStatus) :
    active (chooseStatusFromBenchmarkStatus s).1 = !(s.isFinal || s = .no_pod_scheduled) := by
  cases s <;> rfl

def watched : List BenchmarkJobStatus → List BenchmarkJobStatus
  | [] => []
  | s :: seen => if s.isFinal then [s] else s :: watched seen

variable {s : BenchmarkJobStatus}

theorem watched_final (h : s.isFinal = true) (seen : List BenchmarkJobStatus) : watched (s :: seen) = [s] := if_pos h

theorem watched_open (h : s.isFinal = false) (seen : List BenchmarkJobStatus) : watched (s :: seen) = s :: watched seen := by
  rw [watched, h]
  rfl

/-- Only the last one is final. -/
theorem watched_before (seen : List BenchmarkJobStatus) : (watched seen).Pairwise fun s _ => s.isFinal = false := by
  induction seen with
  | nil => exact .nil
  | cons s seen ih =>
    cases hs : s.isFinal with
    | true =>
      rw [watched_final hs]
      exact pairwise_singleton _ _
    | false =>
      rw [watched_open hs]
      exact pairwise_cons.2 ⟨fun _ _ => hs, ih⟩

def told (msgs : List (Status × String)) : List Status := (msgs.map Prod.fst).filter (· ≠ .metricsAvailable)

theorem told_append (ms ns : List (Status × String)) : told (ms ++ ns) = told ms ++ told ns := by
  rw [told, map_append, filter_append]
  rfl

def spoken (s : BenchmarkJobStatus) : List Status :=
  if s.isFinal then [(chooseStatusFromBenchmarkStatus s).1, (chooseStatusFromBenchmarkStatus s).1]
  else [(chooseStatusFromBenchmarkStatus s).1]

theorem choose_ne_metrics (s : BenchmarkJobStatus) : (chooseStatusFromBenchmarkStatus s).1 ≠ .metricsAvailable := by
  cases s <;> decide

theorem mem_spoken {t} : t ∈ spoken s ↔ t = (chooseStatusFromBenchmarkStatus s).1 := by
  unfold spoken
  split <;> simp

theorem told_of_tells {msgs} (h : Tells s msgs) : told msgs = spoken s := by
  obtain ⟨metrics, hm, rfl⟩ := h
  have hn : told metrics = [] := by
    rw [told, filter_eq_nil_iff]
    intro t ht
    obtain ⟨m, hmem, rfl⟩ := mem_map.1 ht
    simp [hm m hmem]
  have hf : told [chooseStatusFromBenchmarkStatus s] = [(chooseStatusFromBenchmarkStatus s).1] := by
    simp [told, choose_ne_metrics]
  rw [← singleton_append, told_append, told_append, hn, hf, spoken]
  split
  · simp [told, choose_ne_metrics]
  · rfl

def statusPolls (seen : List (BenchmarkJobStatus × Int)) : List Poll := seen.map fun p => (.ok p.1, p.2)

variable {job : Job} {w : Watch}

theorem told_loop (h : w.Alive job) (seen : List (BenchmarkJobStatus × Int)) :
    told (threadRunLoop job w (statusPolls seen)).sent =
      told w.sent ++ (watched (seen.map Prod.fst)).flatMap spoken := by
  induction seen generalizing w with
  | nil => simp [statusPolls, threadRunLoop, watched]
  | cons p seen ih =>
    obtain ⟨s, now⟩ := p
    have hst : threadRunLoop job w (statusPolls ((s, now) :: seen)) =
        threadRunLoop job (turn job w (.ok s, now)) (statusPolls seen) := rfl
    rw [hst, map_cons]
    cases hs : s.isFinal with
    | true =>
      obtain ⟨msgs, hse, ht, he⟩ := turn_final h hs now
      rw [threadRunLoop_ended (by rw [he]; rfl), hse, told_append, told_of_tells ht, watched_final hs]
      simp
    | false =>
      obtain ⟨msgs, hse, ht, ha⟩ := turn_open h hs now
      rw [ih ha, hse, told_append, told_of_tells ht, watched_open hs, flatMap_cons, append_assoc]

/-- Messages about metrics are neither terminal nor active, so they do not count. -/
theorem pairwise_told (msgs : List (Status × String)) :
    (msgs.map Prod.fst).Pairwise (fun s t => terminal s = true → active t = false) ↔
      (told msgs).Pairwise fun s t => terminal s = true → active t = false := by
  rw [told, pairwise_filter]
  refine List.Pairwise.iff fun s t => ?_
  cases s <;> cases t <;> decide

theorem pairwise_spoken (seen : List BenchmarkJobStatus) :
    ((watched seen).flatMap spoken).Pairwise (fun s t => terminal s = true → active t = false) ↔
      (watched seen).Pairwise fun s t => s = .no_pod_scheduled → t = .no_pod_scheduled ∨ t.isFinal = true := by
  have hown : ∀ s ∈ watched seen, (spoken s).Pairwise fun s t => terminal s = true → active t = false := by
    intro s _
    rw [spoken]
    split
    · cases s <;> decide
    · exact pairwise_singleton _ _
  have hp : ∀ s t : BenchmarkJobStatus, s.isFinal = false →
      ((∀ x ∈ spoken s, ∀ y ∈ spoken t, terminal x = true → active y = false) ↔
        (s = .no_pod_scheduled → t = .no_pod_scheduled ∨ t.isFinal = true)) := by
    intro s t hs
    simp only [mem_spoken, forall_eq, terminal_choose, active_choose, hs]
    cases t.isFinal <;> simp
  rw [pairwise_flatMap]
  constructor
  · rintro ⟨-, h⟩
    exact ((watched_before seen).and h).imp fun ⟨hs, hst⟩ => (hp _ _ hs).1 hst
  · intro h
    exact ⟨hown, ((watched_before seen).and h).imp fun ⟨hs, hst⟩ => (hp _ _ hs).2 hst⟩

/-- A client that has been told that the job is over is not told afterwards that it
is pending or running, exactly if a job without pods never gets one. -/
theorem terminal_is_terminal_iff {strategy : Transpiler.DistributedStrategy} {watchers : List String}
    {sent : List (Status × String)} (hstart : handleEvent job strategy watchers = (sent, some w))
    (seen : List (BenchmarkJobStatus × Int)) :
    ((threadRunLoop job w (statusPolls seen)).sent.map Prod.fst).Pairwise
        (fun s t => terminal s = true → active t = false) ↔
      (watched (seen.map Prod.fst)).Pairwise
        fun s t => s = .no_pod_scheduled → t = .no_pod_scheduled ∨ t.isFinal = true := by
  obtain ⟨ha, msg, hs⟩ := handleEvent_alive hstart
  have hf : told w.sent = [.pending] := by
    rw [hs]
    rfl
  rw [pairwise_told, told_loop ha, hf, singleton_append, pairwise_cons, pairwise_spoken]
  exact and_iff_right fun _ _ ht => nomatch ht

def someJob : Job := ⟨"job-1", "action-1", true, fun start stop => pyStr (start.map toString) ++ "/" ++ toString stop⟩

def someWatch : Watch := ⟨["job-1"], [(.pending, "Watching Kubernetes benchmark")], none, none⟩

theorem terminal_is_terminal_success : handleEvent someJob .single_node [] = (someWatch.sent, some someWatch) ∧
      ((threadRunLoop someJob someWatch (statusPolls
        [(.pending_node_scaling, 1), (.running_at_main_containers, 2), (.succeeded, 3)])).sent.map Prod.fst).Pairwise
          (fun s t => terminal s = true → active t = false) :=
  have hs : handleEvent someJob .single_node [] = (someWatch.sent, some someWatch) := by decide
  ⟨hs, (terminal_is_terminal_iff hs _).2 (by decide)⟩

/-- The pods of a new job have not been made yet: the client is told that it failed, and
then that it runs. -/
theorem no_pod_yet_is_failed : handleEvent someJob .single_node [] = (someWatch.sent, some someWatch) ∧
      ((threadRunLoop someJob someWatch (statusPolls
        [(.no_pod_scheduled, 1), (.pending_node_scaling, 2)])).sent.map Prod.fst) = [.pending, .failed, .pending] ∧
      ¬ ((threadRunLoop someJob someWatch (statusPolls
        [(.no_pod_scheduled, 1), (.pending_node_scaling, 2)])).sent.map Prod.fst).Pairwise
          (fun s t => terminal s = true → active t = false) := by
  decide

/-! ## The end of a job -/

structure Observation where
  job : V1JobStatus
  pods : List V1PodStatus
deriving DecidableEq, Repr

def Observation.answers (o : Observation) : Answers := ⟨.ok o.job, .ok o.pods⟩

inductive Observation.Shows (o : Observation) : Status → Prop
  | succeeded (h : o.job.hasSucceeded = true) : o.Shows .succeeded
  | failed (h : o.job.hasSucceeded = false) (h' : o.job.hasFailed = true) : o.Shows .failed

def observationPolls (order : SetOrder) (seen : List (Observation × Int)) : List Poll :=
  seen.map fun p => (getStatus order p.1.answers, p.2)

structure Reported (before after : Watch) (expected : Status) : Prop where
  watching : before.success = none
  sent : ∃ msgs, after.sent = before.sent ++ msgs ∧ expected ∈ msgs.map Prod.fst

/-- Without a final status, only an exception ends the loop. -/
theorem loop_alive (h : w.Alive job) {polls} (ho : ∀ p ∈ polls, ∀ s, p.1 = .ok s → s.isFinal = false) :
    ((threadRunLoop job w polls).success = none ↔ ∀ p ∈ polls, ∃ s, p.1 = .ok s) ∧
      ((threadRunLoop job w polls).success = none → (threadRunLoop job w polls).Alive job) := by
  induction polls generalizing w with
  | nil => exact ⟨⟨fun _ _ hp => (not_mem_nil hp).elim, fun _ => h.1⟩, fun _ => h⟩
  | cons p polls ih =>
    obtain ⟨outcome, now⟩ := p
    have hst : threadRunLoop job w ((outcome, now) :: polls) = threadRunLoop job (turn job w (outcome, now)) polls := rfl
    rw [hst]
    cases outcome with
    | error e =>
      rw [threadRunLoop_ended (by rw [turn_error h.1]; rfl), turn_error h.1]
      refine ⟨⟨(nomatch ·), fun hall => ?_⟩, (nomatch ·)⟩
      obtain ⟨s, hs⟩ := hall _ mem_cons_self
      cases hs
    | ok s =>
      obtain ⟨-, -, -, ha⟩ := turn_open h (ho _ mem_cons_self s rfl) now
      obtain ⟨hiff, hal⟩ := ih ha fun q hq => ho q (mem_cons_of_mem _ hq)
      refine ⟨?_, hal⟩
      rw [hiff, forall_mem_cons]
      exact ⟨fun h => ⟨⟨s, rfl⟩, h⟩, fun h => h.2⟩

theorem getStatus_gap (order : SetOrder) (o : Observation) :
    (∃ s, getStatus order o.answers = .ok s) ↔ gap o.job o.pods = false := by
  have hr := inferStatus_raises order o.job o.pods
  rw [← not_iff_not, Bool.not_eq_false, ← hr, not_exists]
  rfl

theorem getStatus_shows {o : Observation} {expected} (h : o.Shows expected) (order : SetOrder) :
    ∃ s, getStatus order o.answers = .ok s ∧ s.isFinal = true ∧ (chooseStatusFromBenchmarkStatus s).1 = expected := by
  cases h with
  | succeeded h =>
    refine ⟨.succeeded, ?_, rfl, rfl⟩
    simp [getStatus, Observation.answers, inferStatus, inferStatusFromJob, h]
  | failed h h' =>
    refine ⟨.failed, ?_, rfl, rfl⟩
    simp [getStatus, Observation.answers, inferStatus, inferStatusFromJob, h, h']

/-- The end of a job is reported exactly if no observation before it is in the gap of the
inferrer. -/
theorem completion_reported_iff {strategy : Transpiler.DistributedStrategy} {watchers : List String}
    {sent : List (Status × String)} (hstart : handleEvent job strategy watchers = (sent, some w))
    (order : SetOrder) (pre post : List (Observation × Int)) (o : Observation) (now : Int) (expected : Status)
    (hshows : o.Shows expected)
    (hopen : ∀ p ∈ pre, ∀ s, getStatus order p.1.answers = .ok s → s.isFinal = false) :
    Reported (threadRunLoop job w (observationPolls order pre))
        (threadRunLoop job w (observationPolls order (pre ++ (o, now) :: post))) expected ↔
      ∀ p ∈ pre, gap p.1.job p.1.pods = false := by
  obtain ⟨ha, -⟩ := handleEvent_alive hstart
  have hopen' : ∀ p ∈ observationPolls order pre, ∀ s, p.1 = .ok s → s.isFinal = false := by
    intro p hp s hs
    obtain ⟨q, hq, rfl⟩ := mem_map.1 hp
    exact hopen q hq s hs
  obtain ⟨hiff, hal⟩ := loop_alive ha hopen'
  have hgap : (threadRunLoop job w (observationPolls order pre)).success = none ↔
      ∀ p ∈ pre, gap p.1.job p.1.pods = false := by
    rw [hiff, observationPolls, forall_mem_map]
    exact forall₂_congr fun p _ => getStatus_gap order p.1
  refine ⟨fun h => hgap.1 h.watching, fun h => ⟨hgap.2 h, ?_⟩⟩
  -- the thread runs: it tells the status of `o` and ends
  obtain ⟨s, hs, hf, rfl⟩ := getStatus_shows hshows order
  obtain ⟨msgs, hse, ⟨metrics, -, rfl⟩, he⟩ := turn_final (hal (hgap.2 h)) hf now
  have hrun : threadRunLoop job w (observationPolls order (pre ++ (o, now) :: post)) =
      threadRunLoop job (turn job (threadRunLoop job w (observationPolls order pre)) (.ok s, now))
        (observationPolls order post) := by
    rw [observationPolls, map_append, map_cons, hs, threadRunLoop, foldl_append]
    rfl
  rw [hrun, threadRunLoop_ended (by rw [he]; rfl), hse]
  exact ⟨_, rfl, by simp⟩

def someOrder : SetOrder := ⟨id, fun _ => .refl _⟩

def runningPod : V1PodStatus := { phase := some "Running" }

def succeededJob : V1JobStatus := { succeeded := some 1 }

theorem completion_reported_success :
    Reported (threadRunLoop someJob someWatch (observationPolls someOrder [(⟨{}, [runningPod]⟩, 1)]))
      (threadRunLoop someJob someWatch (observationPolls someOrder
        ([(⟨{}, [runningPod]⟩, 1)] ++ (⟨succeededJob, []⟩, 2) :: []))) .succeeded := by
  have hst : handleEvent someJob .single_node [] = (someWatch.sent, some someWatch) := by decide
  refine (completion_reported_iff hst someOrder _ [] _ 2 _ (.succeeded rfl) ?_).2 (by decide)
  intro p hp s hs
  obtain rfl := mem_singleton.1 hp
  obtain rfl : BenchmarkJobStatus.running_at_main_containers = s := Except.ok.inj hs
  rfl

def exitedPod : V1PodStatus where
  phase := some "Succeeded"
  container_statuses := some
    [⟨"benchmark", { terminated := some ⟨0, some "Completed", none⟩ }⟩,
      ⟨"sidecar", { terminated := some ⟨0, some "Completed", none⟩ }⟩]

/-- One look at such a pod ends the thread, and the success is never reported. -/
theorem exited_containers_end_watch : handleEvent someJob .single_node [] = (someWatch.sent, some someWatch) ∧
      (⟨succeededJob, [exitedPod]⟩ : Observation).Shows .succeeded ∧
      (∀ s, getStatus someOrder (⟨{}, [exitedPod]⟩ : Observation).answers ≠ .ok s) ∧
      threadRunLoop someJob someWatch (observationPolls someOrder
        [(⟨{}, [exitedPod]⟩, 1), (⟨succeededJob, [exitedPod]⟩, 2)]) = { someWatch with success := some false } ∧
      ¬ Reported (threadRunLoop someJob someWatch (observationPolls someOrder [(⟨{}, [exitedPod]⟩, 1)]))
        (threadRunLoop someJob someWatch (observationPolls someOrder
          [(⟨{}, [exitedPod]⟩, 1), (⟨succeededJob, [exitedPod]⟩, 2)])) .succeeded := by
  refine ⟨by decide, .succeeded rfl, fun _ => nofun, by decide, fun h => ?_⟩
  cases h.watching

end BenchmarkAi.Watcher
