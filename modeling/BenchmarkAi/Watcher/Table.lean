import BenchmarkAi.Watcher.Watch
import BenchmarkAi.Lib.Runs
import Mathlib.Data.List.Count
/-!
# The table of watchers

`WatchJobsEventHandler` keeps a dict of the jobs that are being watched. The event handler puts
a job in and starts its thread; the callback, on that thread, takes it out when the job has
come to its end. Here the handler and all threads run side by side: a step is one access to the
table by one of them, or one thing that can go wrong between two accesses.
-/

open Lib List

namespace BenchmarkAi.Watcher

open Transpiler (DistributedStrategy)

/-! ## Threads -/

inductive Phase
  | polling
  | telling (status : BenchmarkJobStatus)
  /-- In the callback, before the table is looked at. -/
  | deciding (status : BenchmarkJobStatus)
  /-- In the callback, after the job has been taken out. -/
  | leaving
  | ended (success : Bool)
deriving DecidableEq, Repr

inductive ThreadLabel
  | poll (answer : Except Raised BenchmarkJobStatus)
  | tell (sent : Bool)
  | decide
  | farewell (sent : Bool)

def threadStep (job_id : String) (s : List String × Phase) (a : ThreadLabel) : Option (List String × Phase) :=
  let (watchers, phase) := s
  match phase, a with
  | .polling, .poll (.ok status) => some (watchers, .telling status)
  | .polling, .poll (.error _) => some (watchers, .ended false)
  | .telling status, .tell true => some (watchers, .deciding status)
  | .telling _, .tell false => some (watchers, .ended false)
  | .deciding status, .decide =>
    if status.isFinal then
      if job_id ∈ watchers then some (watchers.erase job_id, .leaving) else some (watchers, .ended false)
    else some (watchers, .polling)
  | .leaving, .farewell sent => some (watchers, .ended sent)
  | _, _ => none

structure Thread where
  job : Job
  phase : Phase

inductive Main
  | idle
  | handling (job : Job)
  | starting (job : Job)

/-- `WatchJobsEventHandler` with the threads it has started; `watchers` are the keys of its dict. -/
structure Handler where
  watchers : List String := []
  threads : List Thread := []
  main : Main := .idle

/-- What happens next: an event comes in; `handle_event` raises before it has changed the table,
puts the job in, starts its thread or fails to; a thread goes on. -/
inductive Label
  | event (job : Job) (strategy : DistributedStrategy)
  | abandon
  | register
  | start (started : Bool)
  | thread (i : Nat) (a : ThreadLabel)

def Handler.step (s : Handler) : Label → Option Handler
  | .event job strategy =>
    match s.main with
    | .idle =>
      match (handleEvent job strategy s.watchers).2 with
      | some _ => some { s with main := .handling job }
      | none => some s
    | _ => none
  | .abandon =>
    match s.main with
    | .handling _ => some { s with main := .idle }
    | _ => none
  | .register =>
    match s.main with
    | .handling job => some { s with watchers := s.watchers.insert job.job_id, main := .starting job }
    | _ => none
  | .start started =>
    match s.main with
    | .starting job =>
      some { s with threads := if started then s.threads ++ [⟨job, .polling⟩] else s.threads, main := .idle }
    | _ => none
  | .thread i a =>
    match s.threads[i]? with
    | none => none
    | some th =>
      (threadStep th.job.job_id (s.watchers, th.phase) a).map fun (watchers, phase) =>
        { s with watchers, threads := s.threads.set i { th with phase } }

/-! ## What a step does -/

def Phase.watching : Phase → Bool
  | .polling | .telling _ | .deciding _ => true
  | .leaving | .ended _ => false

inductive ThreadMove (job_id : String) (watchers : List String) (phase : Phase) : ThreadLabel → List String → Phase → Prop
  | on {a} {phase' : Phase} (h : phase'.watching = phase.watching) :
    ThreadMove job_id watchers phase a watchers phase'
  | out (hp : phase.watching = true) (hin : job_id ∈ watchers) :
    ThreadMove job_id watchers phase .decide (watchers.erase job_id) .leaving
  | failed {answer} (hp : phase.watching = true) :
    ThreadMove job_id watchers phase (.poll (.error answer)) watchers (.ended false)
  | unsent (hp : phase.watching = true) : ThreadMove job_id watchers phase (.tell false) watchers (.ended false)
  | gone (hp : phase.watching = true) (hno : job_id ∉ watchers) :
    ThreadMove job_id watchers phase .decide watchers (.ended false)

variable {job_id : String} {a : Label} {s t : Handler} {th : Thread}

variable {watchers : List String} {job : Job} {strategy : DistributedStrategy}

theorem threadMove_of_step {watchers' phase phase' a}
    (h : threadStep job_id (watchers, phase) a = some (watchers', phase')) :
    ThreadMove job_id watchers phase a watchers' phase' := by
  cases phase with
  | polling =>
    cases a with
    | poll answer =>
      cases answer with
      | ok status => cases h; exact .on rfl
      | error e => cases h; exact .failed rfl
    | tell sent => cases h
    | decide => cases h
    | farewell sent => cases h
  | telling status =>
    cases a with
    | tell sent =>
      cases sent with
      | true => cases h; exact .on rfl
      | false => cases h; exact .unsent rfl
    | poll answer => cases h
    | decide => cases h
    | farewell sent => cases h
  | deciding status =>
    cases a with
    | decide =>
      simp only [threadStep] at h
      split at h
      · split at h
        · rename_i hin
          cases h
          exact .out rfl hin
        · rename_i hno
          cases h
          exact .gone rfl hno
      · cases h
        exact .on rfl
    | poll answer => cases h
    | tell sent => cases h
    | farewell sent => cases h
  | leaving =>
    cases a with
    | farewell sent => cases h; exact .on rfl
    | poll answer => cases h
    | tell sent => cases h
    | decide => cases h
  | ended success => cases a <;> cases h

theorem not_mem_of_handleEvent {w} (h : (handleEvent job strategy watchers).2 = some w) : job.job_id ∉ watchers := by
  intro hin
  rw [handleEvent, if_pos hin] at h
  cases h

inductive Move (s : Handler) : Label → Handler → Prop
  | ignored {job : Job} {strategy} (hm : s.main = .idle) : Move s (.event job strategy) s
  | accepted {job : Job} {strategy} (hm : s.main = .idle) (hno : job.job_id ∉ s.watchers) :
    Move s (.event job strategy) { s with main := .handling job }
  | abandon {job : Job} (hm : s.main = .handling job) : Move s .abandon { s with main := .idle }
  | register {job : Job} (hm : s.main = .handling job) :
    Move s .register { s with watchers := s.watchers.insert job.job_id, main := .starting job }
  | started {job : Job} (hm : s.main = .starting job) :
    Move s (.start true) { s with threads := s.threads ++ [⟨job, .polling⟩], main := .idle }
  | unstarted {job : Job} (hm : s.main = .starting job) : Move s (.start false) { s with main := .idle }
  | thread {i} {a} {th : Thread} {watchers} {phase}
    (hi : s.threads[i]? = some th) (ha : ThreadMove th.job.job_id s.watchers th.phase a watchers phase) :
    Move s (.thread i a) { s with watchers, threads := s.threads.set i { th with phase } }

theorem move_of_step (h : s.step a = some t) : Move s a t := by
  cases a with
  | event job strategy =>
    simp only [Handler.step] at h
    split at h
    · rename_i hm
      split at h
      · rename_i w hw
        cases h
        exact .accepted hm (not_mem_of_handleEvent hw)
      · cases h
        exact .ignored hm
    · cases h
  | abandon =>
    simp only [Handler.step] at h
    split at h
    · rename_i job hm
      cases h
      exact .abandon hm
    · cases h
  | register =>
    simp only [Handler.step] at h
    split at h
    · rename_i job hm
      cases h
      exact .register hm
    · cases h
  | start started =>
    simp only [Handler.step] at h
    split at h
    · rename_i job hm
      cases h
      cases started with
      | true => exact .started hm
      | false => exact .unstarted hm
    · cases h
  | thread i a =>
    simp only [Handler.step] at h
    split at h
    · cases h
    · rename_i th hi
      obtain ⟨⟨watchers, phase⟩, hs, heq⟩ := Option.map_eq_some_iff.1 h
      cases heq
      exact .thread hi (threadMove_of_step hs)

/-! ## Counting -/

def Thread.watches (th : Thread) (job_id : String) : Bool := th.job.job_id = job_id && th.phase.watching

theorem Thread.watches_of_watching (h : th.phase.watching = true) (job_id : String) :
    th.watches job_id = decide (th.job.job_id = job_id) := by
  rw [Thread.watches, h, Bool.and_true]

theorem Thread.watches_of_not (h : th.phase.watching = false) (job_id : String) : th.watches job_id = false := by
  rw [Thread.watches, h, Bool.and_false]

def Main.starts (m : Main) (job_id : String) : Nat :=
  match m with
  | .starting job => if job.job_id = job_id then 1 else 0
  | _ => 0

/-- Each job of the table has one thread that can take it out, or is about to get it. -/
structure Sound (s : Handler) : Prop where
  count : ∀ job_id, s.watchers.count job_id = s.threads.countP (·.watches job_id) + s.main.starts job_id
  nodup : s.watchers.Nodup
  handling : ∀ job, s.main = .handling job → job.job_id ∉ s.watchers

def Label.Harmless : Label → Prop
  | .start false | .thread _ (.poll (.error _)) | .thread _ (.tell false) => False
  | _ => True

theorem countP_set_phase {threads : List Thread} {i} (hi : threads[i]? = some th) (phase : Phase) (job_id : String) :
    (threads.set i { th with phase }).countP (·.watches job_id) + (if th.watches job_id then 1 else 0) =
      threads.countP (·.watches job_id) + (if Thread.watches { th with phase } job_id then 1 else 0) := by
  obtain ⟨hlt, hget⟩ := List.getElem?_eq_some_iff.1 hi
  rw [countP_set hlt, hget]
  have hpos : th.watches job_id = true → 0 < threads.countP (·.watches job_id) := by
    intro h
    exact countP_pos_iff.2 ⟨th, mem_of_getElem? hi, h⟩
  cases hw : th.watches job_id with
  | false => simp
  | true =>
    have := hpos hw
    simp only [if_true]
    omega

theorem sound_step (h : Sound s) (ha : a.Harmless) (hs : s.step a = some t) : Sound t := by
  obtain ⟨hc, hn, hh⟩ := h
  cases move_of_step hs with
  | ignored hm => exact ⟨hc, hn, hh⟩
  | accepted hm hno =>
    refine ⟨fun job_id => ?_, hn, fun job hjob => ?_⟩
    · rw [hc, hm]
      rfl
    · cases hjob
      exact hno
  | abandon hm =>
    refine ⟨fun job_id => ?_, hn, fun job hjob => ?_⟩
    · rw [hc, hm]
      rfl
    · cases hjob
  | @register job hm =>
    have hno := hh job hm
    refine ⟨fun job_id => ?_, ?_, fun job' hjob => ?_⟩
    · have hold := hc job_id
      rw [hm] at hold
      simp only [insert_of_not_mem hno, count_cons, Main.starts, beq_iff_eq] at hold ⊢
      omega
    · rw [insert_of_not_mem hno]
      exact nodup_cons.2 ⟨hno, hn⟩
    · cases hjob
  | @started job hm =>
    refine ⟨fun job_id => ?_, hn, fun job' hjob => ?_⟩
    · have hold := hc job_id
      rw [hm] at hold
      have hnew : (Thread.mk job .polling).watches job_id = decide (job.job_id = job_id) :=
        Thread.watches_of_watching rfl job_id
      simp only [Main.starts, countP_append, countP_singleton, hnew, decide_eq_true_eq] at hold ⊢
      omega
    · cases hjob
  | unstarted hm => exact ha.elim
  | @thread i a th watchers phase hi hmo =>
    have hset := countP_set_phase hi phase
    cases hmo with
    | on hph =>
      refine ⟨fun job_id => ?_, hn, hh⟩
      have hsa : Thread.watches { th with phase } job_id = th.watches job_id := by
        simp only [Thread.watches, hph]
      have hset := hset job_id
      rw [hsa] at hset
      rw [hc]
      dsimp only
      omega
    | out hp hin =>
      refine ⟨fun job_id => ?_, hn.erase _, fun job hjob hmem => ?_⟩
      · have hset := hset job_id
        have hold := hc job_id
        have hout : Thread.watches { th with phase := .leaving } job_id = false := Thread.watches_of_not rfl job_id
        rw [Thread.watches_of_watching hp, hout] at hset
        simp only [decide_eq_true_eq, Bool.false_eq_true, if_false] at hset
        dsimp only
        by_cases hjob : th.job.job_id = job_id
        · subst hjob
          rw [if_pos rfl] at hset
          rw [count_erase_self]
          omega
        · rw [if_neg hjob] at hset
          rw [count_erase_of_ne (Ne.symm hjob)]
          omega
      · exact hh job hjob (mem_of_mem_erase hmem)
    | failed hp => exact ha.elim
    | unsent hp => exact ha.elim
    | gone hp hno =>
      -- the thread itself stands for its job in the table
      have hpos : 0 < s.threads.countP (·.watches th.job.job_id) :=
        countP_pos_iff.2 ⟨th, mem_of_getElem? hi, by simp [Thread.watches, hp]⟩
      have hz := count_eq_zero.2 hno
      rw [hc] at hz
      omega

theorem sound_run {run} (h : Sound s) (hrun : exec Handler.step s run = some t) (hh : ∀ a ∈ run, a.Harmless) :
    Sound t :=
  exec_inv_along Sound (fun _ _ _ hs ha hst => sound_step hs ha hst) h (along_of_forall hh s) hrun

theorem sound_initial : Sound {} := ⟨fun _ => rfl, nodup_nil, fun _ h => by cases h⟩

/-! ## The table -/

def Handler.Quiet (s : Handler) : Prop :=
  s.main = .idle ∧ ∀ th ∈ s.threads, th.phase = .polling ∨ ∃ success, th.phase = .ended success

theorem Sound.mem_watchers (h : Sound s) (hq : s.Quiet) (job_id : String) :
    job_id ∈ s.watchers ↔ ∃ th ∈ s.threads, th.job.job_id = job_id ∧ th.phase = .polling := by
  have hc := h.count job_id
  have hn : s.main.starts job_id = 0 := by rw [hq.1]; rfl
  rw [← count_pos_iff, hc, hn, Nat.add_zero, countP_pos_iff]
  refine exists_congr fun th => and_congr_right fun hth => ?_
  rcases hq.2 th hth with hp | ⟨success, hp⟩
  · have hw : th.phase.watching = true := by rw [hp]; rfl
    rw [Thread.watches_of_watching hw, decide_eq_true_eq]
    exact ⟨fun hj => ⟨hj, hp⟩, fun hj => hj.1⟩
  · have hw : th.phase.watching = false := by rw [hp]; rfl
    rw [Thread.watches_of_not hw, hp]
    simp

theorem watch_again (hm : s.main = .idle) (hs : strategy ∈ [.single_node, .inference]) (hno : job.job_id ∉ s.watchers) :
    ∃ t, exec Handler.step s [.event job strategy, .register, .start true] = some t ∧ job.job_id ∈ t.watchers ∧
      ⟨job, .polling⟩ ∈ t.threads := by
  have hso : (handleEvent job strategy s.watchers).2.isSome = true := by
    rw [handleEvent, if_neg hno, if_neg (not_not.2 hs)]
    rfl
  obtain ⟨w, hw⟩ := Option.isSome_iff_exists.1 hso
  have he : s.step (.event job strategy) = some { s with main := .handling job } := by
    simp only [Handler.step, hm, hw]
  rw [exec_cons, he]
  exact ⟨_, rfl, mem_insert_self, mem_append_right _ mem_cons_self⟩

/-- If no watch is ended by an exception while its job is in the table and every thread can be
started: whenever nothing is under way, the table holds the jobs whose thread is still polling,
and a job whose watch has ended can be watched again. -/
theorem table_consistent (run : List Label) (s : Handler) (hrun : exec Handler.step {} run = some s)
    (hharmless : ∀ a ∈ run, a.Harmless) (hquiet : s.Quiet) :
    (∀ job_id, job_id ∈ s.watchers ↔ ∃ th ∈ s.threads, th.job.job_id = job_id ∧ th.phase = .polling) ∧
    ∀ job strategy, strategy ∈ [.single_node, .inference] →
      (∀ th ∈ s.threads, th.job.job_id = job.job_id → th.phase ≠ .polling) →
      ∃ t, exec Handler.step s [.event job strategy, .register, .start true] = some t ∧ job.job_id ∈ t.watchers ∧
        ⟨job, .polling⟩ ∈ t.threads := by
  have hmem := (sound_run sound_initial hrun hharmless).mem_watchers hquiet
  refine ⟨hmem, fun job strategy hs he => watch_again hquiet.1 hs ?_⟩
  rw [hmem]
  rintro ⟨th, hth, hjob, hp⟩
  exact he th hth hjob hp

def trainingJob : Job := { job_id := "b-training", action_id := "training", resultsUrl := fun _ _ => "" }

/-- A watch that is over: the job is out of the table and can be watched again. -/
theorem table_consistent_training : ∃ s, exec Handler.step {} [.event trainingJob .single_node, .register, .start true,
        .thread 0 (.poll (.ok .succeeded)), .thread 0 (.tell true), .thread 0 .decide,
        .thread 0 (.farewell true)] = some s ∧
      s.watchers = [] ∧ ∃ t, exec Handler.step s [.event trainingJob .single_node, .register, .start true] = some t ∧
        trainingJob.job_id ∈ t.watchers := by
  have hq : Handler.Quiet { watchers := [], threads := [⟨trainingJob, .ended true⟩], main := .idle } :=
    ⟨rfl, by simp⟩
  obtain ⟨-, ha⟩ := table_consistent [.event trainingJob .single_node, .register, .start true,
    .thread 0 (.poll (.ok .succeeded)), .thread 0 (.tell true), .thread 0 .decide, .thread 0 (.farewell true)]
    { watchers := [], threads := [⟨trainingJob, .ended true⟩], main := .idle } rfl (by simp [Label.Harmless]) hq
  obtain ⟨t, ht, hin, -⟩ := ha trainingJob .single_node (by decide) (by simp)
  exact ⟨_, rfl, rfl, t, ht, hin⟩

/-- Kubernetes answers with an error: the thread ends and the job stays in the table. -/
theorem table_keeps_failed : ∃ s, exec Handler.step {} [.event trainingJob .single_node, .register, .start true,
        .thread 0 (.poll (.error (.apiException 500)))] = some s ∧
      s.Quiet ∧ trainingJob.job_id ∈ s.watchers ∧
      ¬ ∃ th ∈ s.threads, th.job.job_id = trainingJob.job_id ∧ th.phase = .polling :=
  ⟨_, rfl, ⟨rfl, by simp [trainingJob]⟩, mem_cons_self, by simp [trainingJob]⟩

/-! ## Jobs that are lost -/

/-- In the table, and nobody will take it out. -/
structure Lost (job_id : String) (s : Handler) : Prop where
  there : job_id ∈ s.watchers
  unwatched : ∀ th ∈ s.threads, th.watches job_id = false
  elsewhere : ∀ job, s.main = .handling job ∨ s.main = .starting job → job.job_id ≠ job_id

theorem lost_step (h : Lost job_id s) (hs : s.step a = some t) : Lost job_id t := by
  obtain ⟨ht, hu, he⟩ := h
  cases move_of_step hs with
  | ignored hm => exact ⟨ht, hu, he⟩
  | accepted hm hno =>
    refine ⟨ht, hu, fun job hjob heq => ?_⟩
    rcases hjob with hjob | hjob
    · cases hjob
      exact hno (heq ▸ ht)
    · cases hjob
  | abandon hm => exact ⟨ht, hu, fun job hjob => by rcases hjob with hjob | hjob <;> cases hjob⟩
  | @register job hm =>
    refine ⟨mem_insert_of_mem ht, hu, fun job' hjob => ?_⟩
    rcases hjob with hjob | hjob
    · cases hjob
    · cases hjob
      exact he job (.inl hm)
  | @started job hm =>
    refine ⟨ht, fun th hth => ?_, fun job' hjob => by rcases hjob with hjob | hjob <;> cases hjob⟩
    rcases mem_append.1 hth with hth | hth
    · exact hu th hth
    · obtain rfl := mem_singleton.1 hth
      rw [Thread.watches_of_watching rfl, decide_eq_false_iff_not]
      exact he job (.inr hm)
  | unstarted hm => exact ⟨ht, hu, fun job hjob => by rcases hjob with hjob | hjob <;> cases hjob⟩
  | @thread i a th watchers phase hi hmo =>
    have hth := hu th (mem_of_getElem? hi)
    -- a thread of this job is past the point where it could take the job out
    have hpa : th.phase.watching = true → th.job.job_id ≠ job_id := by
      intro hp
      rw [Thread.watches_of_watching hp, decide_eq_false_iff_not] at hth
      exact hth
    have hset : Thread.watches { th with phase } job_id = false →
        ∀ th' ∈ s.threads.set i { th with phase }, th'.watches job_id = false := by
      intro hnew th' hth'
      rcases mem_or_eq_of_mem_set hth' with hold | rfl
      · exact hu th' hold
      · exact hnew
    cases hmo with
    | on hph =>
      refine ⟨ht, hset ?_, he⟩
      rw [← hth, Thread.watches, Thread.watches, hph]
    | out hp hin =>
      refine ⟨(mem_erase_of_ne (Ne.symm (hpa hp))).2 ht, hset (Thread.watches_of_not rfl _), he⟩
    | failed hp => exact ⟨ht, hset (Thread.watches_of_not rfl _), he⟩
    | unsent hp => exact ⟨ht, hset (Thread.watches_of_not rfl _), he⟩
    | gone hp hno => exact ⟨ht, hset (Thread.watches_of_not rfl _), he⟩

theorem lost_of_quiet (hq : s.Quiet) (hin : job_id ∈ s.watchers)
    (hno : ∀ th ∈ s.threads, th.job.job_id = job_id → th.phase ≠ .polling) : Lost job_id s := by
  refine ⟨hin, fun th hth => ?_, fun job hjob => ?_⟩
  · rcases hq.2 th hth with hp | ⟨success, hp⟩
    · rw [Thread.watches, decide_eq_false fun hj => hno th hth hj hp, Bool.false_and]
    · exact Thread.watches_of_not (by rw [hp]; rfl) job_id
  · rw [hq.1] at hjob
    rcases hjob with hjob | hjob <;> cases hjob

/-- If nothing is under way and no thread polls for a job of the table, it stays there, and is not watched any more
whatever comes. -/
theorem lost_forever {run} (hq : s.Quiet) (hin : job_id ∈ s.watchers)
    (hno : ∀ th ∈ s.threads, th.job.job_id = job_id → th.phase ≠ .polling) (hrun : exec Handler.step s run = some t) :
    job_id ∈ t.watchers ∧ ∀ th ∈ t.threads, th.watches job_id = false := by
  have hl := exec_inv (Lost job_id) (fun _ _ _ hs hst => lost_step hs hst) (lost_of_quiet hq hin hno) hrun
  exact ⟨hl.there, hl.unwatched⟩

theorem lost_forever_training : trainingJob.job_id ∈ [trainingJob.job_id] ∧
    ∀ th ∈ [Thread.mk trainingJob (.ended false)], th.watches trainingJob.job_id = false := by
  have hrun : exec Handler.step ⟨[trainingJob.job_id], [⟨trainingJob, .ended false⟩], .idle⟩
      [.event trainingJob .single_node] = some ⟨[trainingJob.job_id], [⟨trainingJob, .ended false⟩], .idle⟩ := rfl
  exact lost_forever ⟨rfl, by simp⟩ (by simp) (by simp) hrun

end BenchmarkAi.Watcher
