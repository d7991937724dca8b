import BenchmarkAi.Watcher.Watch
import Mathlib.Algebra.Order.Floor.Defs
import Mathlib.Data.Rat.Floor
/-!
# The trigger

`bai_job_status_trigger/__main__.py` watches a job until it has one of some statuses. Its callback
remembers whether the job has been seen, and the loop of `JobWatcher` calls it with each status.
`trigger_semantics` says at which observation of a history the watch succeeds or fails.
-/

namespace BenchmarkAi.Watcher

/-! ## The loop with any callback -/

structure JobWatcher (σ ε : Type) where
  closure : σ
  success : Option Bool := none
  error : Option ε := none

def JobWatcher.turn {σ ε τ : Type} (callback : σ → BenchmarkJobStatus → τ → σ × Except ε Bool) (w : JobWatcher σ ε)
    (status : BenchmarkJobStatus) (now : τ) : JobWatcher σ ε :=
  if w.success.isSome then w
  else
    match callback w.closure status now with
    | (closure, .error e) => ⟨closure, some false, some e⟩
    | (closure, .ok true) => ⟨closure, some true, none⟩
    | (closure, .ok false) => ⟨closure, none, none⟩

/-- The turn of `Watch` is this one, with the callback of the service. -/
theorem turn_eq_jobWatcher (job : Job) (w : Watch) (h : w.success = none) (status : BenchmarkJobStatus) (now : Int) :
    turn job w (.ok status, now) =
      let next := JobWatcher.turn (fun w status now => callback job status now w) ⟨w, none, none⟩ status now
      if next.success.isSome then { next.closure with success := next.success } else next.closure := by
  obtain ⟨w', outcome, hc⟩ : ∃ w' outcome, callback job status now w = (w', outcome) := ⟨_, _, rfl⟩
  simp only [turn, JobWatcher.turn, h, hc]
  cases outcome with
  | error e => rfl
  | ok done => cases done <;> rfl

/-! ## The callback -/

def pyInt (q : ℚ) : Int := if 0 ≤ q then ⌊q⌋ else ⌈q⌉

open BenchmarkJobStatus in
def BenchmarkJobStatus.name : BenchmarkJobStatus → String
  | succeeded => "SUCCEEDED" | failed => "FAILED"
  | no_pod_scheduled => "NO_POD_SCHEDULED" | job_not_found => "JOB_NOT_FOUND"
  | failed_at_benchmark_container => "FAILED_AT_BENCHMARK_CONTAINER"
  | failed_at_sidecar_container => "FAILED_AT_SIDECAR_CONTAINER"
  | failed_at_init_containers => "FAILED_AT_INIT_CONTAINERS"
  | pending_at_benchmark_container => "PENDING_AT_BENCHMARK_CONTAINER"
  | pending_at_sidecar_container => "PENDING_AT_SIDECAR_CONTAINER"
  | pending_at_init_containers => "PENDING_AT_INIT_CONTAINERS"
  | pending_node_scaling => "PENDING_NODE_SCALING"
  | running_at_init_containers => "RUNNING_AT_INIT_CONTAINERS"
  | running_at_main_containers => "RUNNING_AT_MAIN_CONTAINERS"
  | sm_stopped => "SM_STOPPED" | sm_interrupted => "SM_INTERRUPTED"
  | sm_failed_max_runtime_exceeded => "SM_FAILED_MAX_RUNTIME_EXCEEDED"
  | sm_failed_max_waittime_exceeded => "SM_FAILED_MAX_WAITTIME_EXCEEDED"
  | sm_in_progress_starting => "SM_IN_PROGRESS_STARTING"
  | sm_in_progress_launching_ml_instances => "SM_IN_PROGRESS_LAUNCHING_ML_INSTANCES"
  | sm_in_progress_prep_training_stack => "SM_IN_PROGRESS_PREP_TRAINING_STACK"
  | sm_in_progress_downloading => "SM_IN_PROGRESS_DOWNLOADING"
  | sm_in_progress_downloading_training_img => "SM_IN_PROGRESS_DOWNLOADING_TRAINING_IMG"
  | sm_in_progress_training => "SM_IN_PROGRESS_TRAINING"
  | sm_in_progress_uploading => "SM_IN_PROGRESS_UPLOADING"
  | sm_unknown => "SM_UNKNOWN" | sm_stopping => "SM_STOPPING"

structure JobStatusTriggerConfig where
  job_name : String
  trigger_statuses : List BenchmarkJobStatus
  job_not_found_grace_period_seconds : Int

def lastStatuses : List BenchmarkJobStatus := [.job_not_found, .failed, .succeeded]

/-- The callback of `make_trigger_callback`, with `job_seen`. What is raised is a `RuntimeError` with
the text. -/
def statusTriggerCallback (config : JobStatusTriggerConfig) (start_time : Int) (job_seen : Bool)
    (job_status : BenchmarkJobStatus) (now : ℚ) : Bool × Except String Bool :=
  if job_seen = false ∧ job_status = .job_not_found then
    let elapsed := pyInt (now - start_time)
    if config.job_not_found_grace_period_seconds ≤ elapsed then
      (job_seen, .error ("Could not find job within " ++ toString config.job_not_found_grace_period_seconds ++ " seconds"))
    else (job_seen, .ok false)
  else
    let job_seen := true
    if job_status ∈ config.trigger_statuses ∧ job_seen = true then (job_seen, .ok true)
    else if job_status ∈ lastStatuses then
      (job_seen, .error ("Job " ++ config.job_name ++ " reached final state BenchmarkJobStatus." ++ job_status.name ++
        " before reaching any trigger status."))
    else (job_seen, .ok false)

/-! ## Histories -/

/-- A finite or infinite history of observations: a status and when it was observed. The callback
was created before. -/
structure History where
  created : ℚ
  nonneg : 0 ≤ created
  observed : ℕ → Option (ℚ × BenchmarkJobStatus)
  closed : ∀ n, observed n = none → observed (n + 1) = none
  later : ∀ n o, observed n = some o → created ≤ o.1
  nondecreasing : ∀ m n o p, m ≤ n → observed m = some o → observed n = some p → o.1 ≤ p.1

variable {i : ℕ} {now : ℚ} {w : JobWatcher Bool String}

namespace History
variable (h : History) (config : JobStatusTriggerConfig)

def startTime : Int := pyInt h.created

def watch : ℕ → JobWatcher Bool String
  | 0 => { closure := false }
  | n + 1 =>
    match h.observed n with
    | none => watch n
    | some (now, status) => (watch n).turn (statusTriggerCallback config h.startTime) status now

def EndsAt (success : Bool) (n : ℕ) : Prop :=
  (h.watch config n).success = none ∧ (h.watch config (n + 1)).success = some success

/-! ### What the callback is for -/

def StatusAt (n : ℕ) (status : BenchmarkJobStatus) : Prop := ∃ now, h.observed n = some (now, status)

def Within (n : ℕ) : Prop := ∀ now status, h.observed n = some (now, status) →
  now < h.startTime + config.job_not_found_grace_period_seconds

def FirstSeen (f : ℕ) : Prop :=
  (∃ status, h.StatusAt f status ∧ status ≠ .job_not_found) ∧ ∀ i < f, h.StatusAt i .job_not_found

def Triggers (n : ℕ) : Prop :=
  ∃ f status, f ≤ n ∧ h.FirstSeen f ∧ h.StatusAt n status ∧ status ∈ config.trigger_statuses ∧
    (∀ i < f, h.Within config i) ∧
    ∀ i, f ≤ i → i < n → ∀ status, h.StatusAt i status → status ∉ config.trigger_statuses ∧ status ∉ lastStatuses

def GivesUp (n : ℕ) : Prop :=
  (∀ i ≤ n, h.StatusAt i .job_not_found) ∧ ¬ h.Within config n ∨
  ∃ f status, f ≤ n ∧ h.FirstSeen f ∧ h.StatusAt n status ∧ status ∈ lastStatuses ∧ status ∉ config.trigger_statuses

/-! ### One observation -/

variable {h config} {n : ℕ} {status : BenchmarkJobStatus}

theorem StatusAt.unique {status'} (hs : h.StatusAt n status) (hs' : h.StatusAt n status') : status = status' := by
  obtain ⟨now, ho⟩ := hs
  obtain ⟨now', ho'⟩ := hs'
  exact congrArg Prod.snd (Option.some.inj (ho.symm.trans ho'))

/-- What was observed before an observation. -/
theorem StatusAt.before (hs : h.StatusAt n status) (hi : i ≤ n) : ∃ status, h.StatusAt i status := by
  induction n, hi using Nat.le_induction generalizing status with
  | base => exact ⟨status, hs⟩
  | succ n hi ih =>
    obtain ⟨now, ho⟩ := hs
    cases hn : h.observed n with
    | none => cases ho.symm.trans (h.closed n hn)
    | some o => exact ih ⟨o.1, hn⟩

def Seen (h : History) (n : ℕ) : Prop := ∃ i < n, ∃ status, h.StatusAt i status ∧ status ≠ .job_not_found

theorem not_found_of_not_seen (hs : h.StatusAt n status) (hn : ¬ h.Seen n) (hi : i < n) : h.StatusAt i .job_not_found := by
  obtain ⟨status', hs'⟩ := hs.before hi.le
  by_cases hne : status' = .job_not_found
  · exact hne ▸ hs'
  · exact absurd ⟨i, hi, status', hs', hne⟩ hn

theorem not_seen_of_not_found (hi : ∀ i < n, h.StatusAt i .job_not_found) : ¬ h.Seen n := by
  rintro ⟨i, hin, status, hs, hne⟩
  exact hne (hs.unique (hi i hin))

theorem exists_firstSeen (hs : h.StatusAt n status) (hse : h.Seen n ∨ status ≠ .job_not_found) :
    ∃ f ≤ n, h.FirstSeen f := by
  have hso : ∃ f, f ≤ n ∧ ∃ status, h.StatusAt f status ∧ status ≠ .job_not_found := by
    rcases hse with ⟨i, hi, hst⟩ | hne
    · exact ⟨i, hi.le, hst⟩
    · exact ⟨n, le_rfl, status, hs, hne⟩
  classical
  obtain ⟨hle, hf⟩ := Nat.find_spec hso
  refine ⟨Nat.find hso, hle, hf, fun i hi => ?_⟩
  obtain ⟨status', hs'⟩ := hs.before (hi.le.trans hle)
  by_cases hne : status' = .job_not_found
  · exact hne ▸ hs'
  · exact absurd ⟨hi.le.trans hle, status', hs', hne⟩ (Nat.find_min hso hi)

theorem FirstSeen.seen {f : ℕ} (hf : h.FirstSeen f) (hfn : f ≤ n) (hs : h.StatusAt n status) :
    h.Seen n ∨ status ≠ .job_not_found := by
  obtain ⟨⟨status', hs', hne⟩, -⟩ := hf
  rcases hfn.lt_or_eq with hlt | rfl
  · exact .inl ⟨f, hlt, status', hs', hne⟩
  · exact .inr (hs.unique hs' ▸ hne)

theorem within_iff (ho : h.observed n = some (now, status)) :
    h.Within config n ↔ pyInt (now - h.startTime) < config.job_not_found_grace_period_seconds := by
  have hs : (h.startTime : ℚ) ≤ now := by
    have hf : h.startTime = ⌊h.created⌋ := if_pos h.nonneg
    rw [hf]
    exact (Int.floor_le _).trans (h.later n _ ho)
  have hwi : h.Within config n ↔ now < h.startTime + config.job_not_found_grace_period_seconds := by
    constructor
    · intro hw
      exact hw now status ho
    · intro hw now' status' ho'
      obtain ⟨rfl, -⟩ := Prod.mk.inj (Option.some.inj (ho.symm.trans ho'))
      exact hw
  rw [hwi, pyInt, if_pos (sub_nonneg.2 hs), Int.floor_lt, sub_lt_iff_lt_add']

def Passes (h : History) (config : JobStatusTriggerConfig) (n : ℕ) : Prop :=
  ∀ status, h.StatusAt n status →
    (¬ h.Seen n → status = .job_not_found → h.Within config n) ∧
    (h.Seen n ∨ status ≠ .job_not_found → status ∉ config.trigger_statuses ∧ status ∉ lastStatuses)

theorem callback_not_found {now : ℚ} (ho : h.observed n = some (now, .job_not_found)) :
    (h.Within config n → statusTriggerCallback config h.startTime false .job_not_found now = (false, .ok false)) ∧
      (¬ h.Within config n → ∃ e, statusTriggerCallback config h.startTime false .job_not_found now = (false, .error e)) := by
  rw [within_iff ho]
  constructor
  · intro hlt
    exact (if_pos ⟨rfl, rfl⟩).trans (if_neg (not_le.2 hlt))
  · intro hge
    exact ⟨_, (if_pos ⟨rfl, rfl⟩).trans (if_pos (not_lt.1 hge))⟩

theorem callback_found {job_seen} {now : ℚ} (hs : job_seen = true ∨ status ≠ .job_not_found) :
    (status ∈ config.trigger_statuses → statusTriggerCallback config h.startTime job_seen status now = (true, .ok true)) ∧
      (status ∉ config.trigger_statuses →
        (status ∈ lastStatuses → ∃ e, statusTriggerCallback config h.startTime job_seen status now = (true, .error e)) ∧
        (status ∉ lastStatuses → statusTriggerCallback config h.startTime job_seen status now = (true, .ok false))) := by
  have hf : ¬ (job_seen = false ∧ status = .job_not_found) := by
    rintro ⟨rfl, heq⟩
    exact hs.elim Bool.false_ne_true fun hne => hne heq
  rw [statusTriggerCallback, if_neg hf]
  refine ⟨fun ht => if_pos ⟨ht, rfl⟩, fun ht => ?_⟩
  rw [if_neg fun hc => ht hc.1]
  exact ⟨fun hl => ⟨_, if_pos hl⟩, fun hl => if_neg hl⟩

/-! ### The watch -/

theorem watch_succ (ho : h.observed n = some (now, status)) :
    h.watch config (n + 1) = (h.watch config n).turn (statusTriggerCallback config h.startTime) status now := by
  rw [watch, ho]

inductive Observes (h : History) (config : JobStatusTriggerConfig) (n : ℕ) (status : BenchmarkJobStatus) :
    JobWatcher Bool String → Prop
  | waits : ¬ h.Seen n → status = .job_not_found → h.Within config n → Observes h config n status ⟨false, none, none⟩
  | expires (e : String) : ¬ h.Seen n → status = .job_not_found → ¬ h.Within config n →
      Observes h config n status ⟨false, some false, some e⟩
  | triggers : h.Seen n ∨ status ≠ .job_not_found → status ∈ config.trigger_statuses →
      Observes h config n status ⟨true, some true, none⟩
  | ends (e : String) : h.Seen n ∨ status ≠ .job_not_found → status ∉ config.trigger_statuses → status ∈ lastStatuses →
      Observes h config n status ⟨true, some false, some e⟩
  | goesOn : h.Seen n ∨ status ≠ .job_not_found → status ∉ config.trigger_statuses → status ∉ lastStatuses →
      Observes h config n status ⟨true, none, none⟩

theorem observes_watch (ho : h.observed n = some (now, status)) (hg : (h.watch config n).success = none)
    (hs : (h.watch config n).closure = true ↔ h.Seen n) : h.Observes config n status (h.watch config (n + 1)) := by
  rw [watch_succ ho, JobWatcher.turn, hg]
  by_cases hf : h.Seen n ∨ status ≠ .job_not_found
  · obtain ⟨ht, hnt⟩ := @callback_found h config status (h.watch config n).closure now (hf.imp_left hs.2)
    by_cases htr : status ∈ config.trigger_statuses
    · rw [ht htr]
      exact .triggers hf htr
    · by_cases hl : status ∈ lastStatuses
      · obtain ⟨e, he⟩ := (hnt htr).1 hl
        rw [he]
        exact .ends e hf htr hl
      · rw [(hnt htr).2 hl]
        exact .goesOn hf htr hl
  · rw [not_or, not_not] at hf
    obtain ⟨hns, rfl⟩ := hf
    have hc : (h.watch config n).closure = false := by
      rw [← Bool.not_eq_true, hs]
      exact hns
    obtain ⟨hin, hout⟩ := @callback_not_found h config n now ho
    rw [hc]
    by_cases hw : h.Within config n
    · rw [hin hw]
      exact .waits hns rfl hw
    · obtain ⟨e, he⟩ := hout hw
      rw [he]
      exact .expires e hns rfl hw

theorem Observes.passes_iff (hw : h.Observes config n status w) (hs : h.StatusAt n status) :
    w.success = none ↔ h.Passes config n := by
  have hpa : h.Passes config n ↔ (¬ h.Seen n → status = .job_not_found → h.Within config n) ∧
      (h.Seen n ∨ status ≠ .job_not_found → status ∉ config.trigger_statuses ∧ status ∉ lastStatuses) := by
    constructor
    · exact fun hp => hp status hs
    · intro hp status' hs'
      obtain rfl := hs.unique hs'
      exact hp
  rw [hpa]
  cases hw with
  | waits hns heq hin => exact iff_of_true rfl ⟨fun _ _ => hin, fun hf => (hf.elim hns fun hne => hne heq).elim⟩
  | expires e hns heq hout => exact iff_of_false nofun fun hp => hout (hp.1 hns heq)
  | triggers hf ht => exact iff_of_false nofun fun hp => (hp.2 hf).1 ht
  | ends e hf ht hl => exact iff_of_false nofun fun hp => (hp.2 hf).2 hl
  | goesOn hf ht hl =>
    exact iff_of_true rfl ⟨fun hns heq => (hf.elim hns fun hne => hne heq).elim, fun _ => ⟨ht, hl⟩⟩

theorem Observes.seen_iff (hw : h.Observes config n status w) (hs : h.StatusAt n status) (hg : w.success = none) :
    w.closure = true ↔ h.Seen (n + 1) := by
  cases hw with
  | waits hns heq _ =>
    refine iff_of_false Bool.false_ne_true ?_
    refine not_seen_of_not_found fun i hi => ?_
    rcases (Nat.lt_succ_iff.1 hi).lt_or_eq with hlt | rfl
    · exact not_found_of_not_seen hs hns hlt
    · exact heq ▸ hs
  | goesOn hf _ _ =>
    refine iff_of_true rfl ?_
    rcases hf with ⟨i, hi, hst⟩ | hne
    · exact ⟨i, Nat.lt_succ_of_lt hi, hst⟩
    · exact ⟨n, Nat.lt_succ_self n, status, hs, hne⟩
  | _ => cases hg

theorem watch_ended {b} (hn : (h.watch config n).success = some b) : h.watch config (n + 1) = h.watch config n := by
  rw [watch]
  split
  · rfl
  · rw [JobWatcher.turn, hn]
    rfl

/-- The watch goes on as long as no observation decides. -/
theorem watch_going (h : History) (config : JobStatusTriggerConfig) (n : ℕ) :
    ((h.watch config n).success = none ↔ ∀ i < n, h.Passes config i) ∧
      ((h.watch config n).success = none → ((h.watch config n).closure = true ↔ h.Seen n)) := by
  induction n with
  | zero =>
    refine ⟨iff_of_true rfl nofun, fun _ => iff_of_false Bool.false_ne_true ?_⟩
    rintro ⟨i, hi, -⟩
    cases hi
  | succ n ih =>
    rw [Nat.forall_lt_succ_right, ← ih.1]
    cases hn : (h.watch config n).success with
    | some b =>
      rw [watch_ended hn, hn]
      exact ⟨iff_of_false nofun fun hp => Option.some_ne_none b hp.1, nofun⟩
    | none =>
      rw [and_iff_right rfl]
      cases ho : h.observed n with
      | none =>
        have hsa : h.watch config (n + 1) = h.watch config n := by rw [watch, ho]
        rw [hsa, hn]
        refine ⟨iff_of_true rfl ?_, fun _ => (ih.2 hn).trans ?_⟩
        · rintro status ⟨now, hs⟩
          cases ho.symm.trans hs
        · constructor
          · rintro ⟨i, hi, hst⟩
            exact ⟨i, Nat.lt_succ_of_lt hi, hst⟩
          · rintro ⟨i, hi, status, ⟨now, hs⟩, hne⟩
            rcases (Nat.lt_succ_iff.1 hi).lt_or_eq with hlt | rfl
            · exact ⟨i, hlt, status, ⟨now, hs⟩, hne⟩
            · cases ho.symm.trans hs
      | some o =>
        have hob := observes_watch ho hn (ih.2 hn)
        exact ⟨hob.passes_iff ⟨o.1, ho⟩, hob.seen_iff ⟨o.1, ho⟩⟩

/-! ### The end of a watch -/

theorem Observes.success_true_iff (hw : h.Observes config n status w) :
    w.success = some true ↔ (h.Seen n ∨ status ≠ .job_not_found) ∧ status ∈ config.trigger_statuses := by
  cases hw with
  | waits hns heq _ => exact iff_of_false nofun fun hf => (hf.1.elim hns fun hne => hne heq)
  | expires e hns heq _ => exact iff_of_false nofun fun hf => (hf.1.elim hns fun hne => hne heq)
  | triggers hf ht => exact iff_of_true rfl ⟨hf, ht⟩
  | ends e _ ht _ => exact iff_of_false nofun fun hf => ht hf.2
  | goesOn _ ht _ => exact iff_of_false nofun fun hf => ht hf.2

theorem Observes.success_false_iff (hw : h.Observes config n status w) :
    w.success = some false ↔ ¬ h.Seen n ∧ status = .job_not_found ∧ ¬ h.Within config n ∨
      (h.Seen n ∨ status ≠ .job_not_found) ∧ status ∉ config.trigger_statuses ∧ status ∈ lastStatuses := by
  cases hw with
  | waits hns heq hin =>
    refine iff_of_false nofun ?_
    rintro (⟨-, -, hout⟩ | ⟨hf, -⟩)
    · exact hout hin
    · exact hf.elim hns fun hne => hne heq
  | expires e hns heq hout => exact iff_of_true rfl (.inl ⟨hns, heq, hout⟩)
  | triggers hf ht =>
    refine iff_of_false nofun ?_
    rintro (⟨hns, heq, -⟩ | ⟨-, hnt, -⟩)
    · exact hf.elim hns fun hne => hne heq
    · exact hnt ht
  | ends e hf ht hl => exact iff_of_true rfl (.inr ⟨hf, ht, hl⟩)
  | goesOn hf ht hl =>
    refine iff_of_false nofun ?_
    rintro (⟨hns, heq, -⟩ | ⟨-, -, hla⟩)
    · exact hf.elim hns fun hne => hne heq
    · exact hl hla

theorem endsAt_iff {success} : h.EndsAt config success n ↔
    (∀ i < n, h.Passes config i) ∧ ∃ status, h.StatusAt n status ∧ h.Observes config n status (h.watch config (n + 1)) ∧
      (h.watch config (n + 1)).success = some success := by
  rw [EndsAt, (watch_going h config n).1]
  refine and_congr_right fun hp => ?_
  have hg := (watch_going h config n).1.2 hp
  cases ho : h.observed n with
  | none =>
    have hsa : h.watch config (n + 1) = h.watch config n := by rw [watch, ho]
    rw [hsa, hg]
    refine iff_of_false nofun ?_
    rintro ⟨status, -, -, hs⟩
    cases hs
  | some o =>
    have hob := observes_watch ho hg ((watch_going h config n).2 hg)
    constructor
    · exact fun hs => ⟨o.2, ⟨o.1, ho⟩, hob, hs⟩
    · rintro ⟨status, -, -, hs⟩
      exact hs

theorem triggers_iff : h.Triggers config n ↔ (∀ i < n, h.Passes config i) ∧
    ∃ status, h.StatusAt n status ∧ (h.Seen n ∨ status ≠ .job_not_found) ∧ status ∈ config.trigger_statuses := by
  constructor
  · rintro ⟨f, status, hfn, hf, hs, ht, hw, hb⟩
    refine ⟨fun i hi status' hs' => ?_, status, hs, hf.seen hfn hs, ht⟩
    by_cases hif : i < f
    · -- before the job was seen
      have hns : ¬ h.Seen i := not_seen_of_not_found fun j hj => hf.2 j (hj.trans hif)
      have heq := hs'.unique (hf.2 i hif)
      exact ⟨fun _ _ => hw i hif, fun hse => (hse.elim hns fun hne => hne heq).elim⟩
    · have hfi := not_lt.1 hif
      refine ⟨fun hns heq => ?_, fun _ => hb i hfi hi status' hs'⟩
      exact ((hf.seen hfi hs').elim hns fun hne => hne heq).elim
  · rintro ⟨hp, status, hs, hse, ht⟩
    obtain ⟨f, hfn, hf⟩ := exists_firstSeen hs hse
    refine ⟨f, status, hfn, hf, hs, ht, fun i hi => ?_, fun i hfi hi status' hs' => ?_⟩
    · have hns : ¬ h.Seen i := not_seen_of_not_found fun j hj => hf.2 j (hj.trans hi)
      exact (hp i (hi.trans_le hfn) _ (hf.2 i hi)).1 hns rfl
    · exact (hp i hi status' hs').2 (hf.seen hfi hs')

theorem givesUp_iff : h.GivesUp config n ↔ ∃ status, h.StatusAt n status ∧
    (¬ h.Seen n ∧ status = .job_not_found ∧ ¬ h.Within config n ∨
      (h.Seen n ∨ status ≠ .job_not_found) ∧ status ∉ config.trigger_statuses ∧ status ∈ lastStatuses) := by
  constructor
  · rintro (⟨hall, hout⟩ | ⟨f, status, hfn, hf, hs, hl, ht⟩)
    · exact ⟨_, hall n le_rfl, .inl ⟨not_seen_of_not_found fun i hi => hall i hi.le, rfl, hout⟩⟩
    · exact ⟨status, hs, .inr ⟨hf.seen hfn hs, ht, hl⟩⟩
  · rintro ⟨status, hs, ⟨hns, rfl, hout⟩ | ⟨hse, ht, hl⟩⟩
    · refine .inl ⟨fun i hi => ?_, hout⟩
      rcases hi.lt_or_eq with hlt | rfl
      · exact not_found_of_not_seen hs hns hlt
      · exact hs
    · obtain ⟨f, hfn, hf⟩ := exists_firstSeen hs hse
      exact .inr ⟨f, status, hfn, hf, hs, hl, ht⟩

/-- No observation decides as long as none triggers and none gives up. -/
theorem passes_iff : (∀ i < n, h.Passes config i) ↔ ∀ m < n, ¬ h.Triggers config m ∧ ¬ h.GivesUp config m := by
  constructor
  · intro hp m hm
    constructor
    · intro ht
      obtain ⟨-, status, hs, hse, htr⟩ := triggers_iff.1 ht
      exact ((hp m hm status hs).2 hse).1 htr
    · intro hg
      obtain ⟨status, hs, ⟨hns, heq, hout⟩ | ⟨hse, -, hl⟩⟩ := givesUp_iff.1 hg
      · exact hout ((hp m hm status hs).1 hns heq)
      · exact ((hp m hm status hs).2 hse).2 hl
  · intro hn i
    induction i using Nat.strong_induction_on with
    | h i ih =>
      intro hi status hs
      have hb : ∀ j < i, h.Passes config j := fun j hj => ih j hj (hj.trans hi)
      constructor
      · intro hns heq
        by_contra hout
        exact (hn i hi).2 (givesUp_iff.2 ⟨status, hs, .inl ⟨hns, heq, hout⟩⟩)
      · intro hse
        have ht : status ∉ config.trigger_statuses := fun ht =>
          (hn i hi).1 (triggers_iff.2 ⟨hb, status, hs, hse, ht⟩)
        exact ⟨ht, fun hl => (hn i hi).2 (givesUp_iff.2 ⟨status, hs, .inr ⟨hse, ht, hl⟩⟩)⟩

/-- What is observed at the end of a watch that has gone on until then. -/
theorem observes_of_passes (hp : ∀ i < n, h.Passes config i) (hs : h.StatusAt n status) :
    h.Observes config n status (h.watch config (n + 1)) := by
  have hg := (watch_going h config n).1.2 hp
  obtain ⟨now, ho⟩ := hs
  exact observes_watch ho hg ((watch_going h config n).2 hg)

theorem endsAt_true_iff : h.EndsAt config true n ↔ h.Triggers config n := by
  rw [endsAt_iff, triggers_iff]
  refine and_congr_right fun hp => exists_congr fun status => and_congr_right fun hs => ?_
  have ho := observes_of_passes hp hs
  rw [and_iff_right ho, ho.success_true_iff]

theorem endsAt_false_iff : h.EndsAt config false n ↔
    h.GivesUp config n ∧ ∀ m < n, ¬ h.Triggers config m ∧ ¬ h.GivesUp config m := by
  rw [endsAt_iff, ← passes_iff, givesUp_iff, and_comm]
  refine and_congr_left fun hp => exists_congr fun status => and_congr_right fun hs => ?_
  have ho := observes_of_passes hp hs
  rw [and_iff_right ho, ho.success_false_iff]

/-- The watch succeeds at the observation that triggers, it fails at the first observation that gives
up if none has triggered before, and otherwise it goes on. -/
theorem trigger_semantics (h : History) (config : JobStatusTriggerConfig) :
    (∀ n, h.EndsAt config true n ↔ h.Triggers config n) ∧
    (∀ n, h.EndsAt config false n ↔ h.GivesUp config n ∧ ∀ m < n, ¬ h.Triggers config m ∧ ¬ h.GivesUp config m) ∧
    ((∀ n, ¬ h.Triggers config n ∧ ¬ h.GivesUp config n) → ∀ n, (h.watch config n).success = none) := by
  refine ⟨fun n => endsAt_true_iff, fun n => endsAt_false_iff, fun hn n => ?_⟩
  exact (watch_going h config n).1.2 (passes_iff.2 fun m _ => hn m)

end History

end BenchmarkAi.Watcher
