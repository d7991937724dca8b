import BenchmarkAi.Kafka.Service
import Mathlib.Algebra.GroupWithZero.Nat
/-!
# Delivery

`Move` says what a step of the service loop can do. From it follows what every run does: which
calls it makes, in which order, and whom it cleans up. As long as the loop is not stopped the
callbacks can not be changed. A callback that stops it can change them afterwards, for the rest
of the batch, so the theorem is about callbacks that do not.
-/

open Lib List

namespace BenchmarkAi.Kafka

variable {κ π : Type} [DecidableEq κ]

/-! ## What a step does -/

inductive Move (s : Loop κ π) : Label κ π → Loop κ π → Prop
  | poll (records : Records π) (hc : s.control = .test) (hr : s.service.running = true) :
    Move s (.poll records)
      { s with control := .batch (Records.messages records), polled := s.polled ++ Records.messages records }
  | leave (hc : s.control = .test) (hr : s.service.running = false) :
    Move s .next { s with control := .cleanup s.service.distinctCallbacks }
  | batchEnd (hc : s.control = .batch []) : Move s .next { s with control := .test }
  | unassigned {topic} {msg} {todo}
    (hc : s.control = .batch ((topic, msg) :: todo)) (hg : s.service.callbacks.get? topic = none) :
    Move s .next { s with
      control := .batch todo, trace := s.trace ++ checkMessageBelongsToTopic msg topic ++ [.notProcessed topic msg] }
  | assigned {topic} {msg} {todo} {cbs}
    (hc : s.control = .batch ((topic, msg) :: todo)) (hg : s.service.callbacks.get? topic = some cbs) :
    Move s .next { s with
      control := .callbacks topic msg 0 todo, trace := s.trace ++ checkMessageBelongsToTopic msg topic }
  | callbacksEnd {topic} {msg} {next} {todo}
    (hc : s.control = .callbacks topic msg next todo)
    (hg : ((s.service.callbacks.get? topic).getD [])[next]? = none) : Move s .next { s with control := .batch todo }
  | attempt {topic} {msg} {next} {todo} {callback}
    (hc : s.control = .callbacks topic msg next todo)
    (hg : ((s.service.callbacks.get? topic).getD [])[next]? = some callback) :
    Move s .next { s with control := .trying callback topic msg (next + 1) todo }
  | empty {callback} {topic} {msg : Message π} {next} {todo}
    (hc : s.control = .trying callback topic msg next todo) (hv : msg.value = none) :
    Move s .next { s with
      control := .callbacks topic msg next todo
      trace := s.trace ++ logged msg (some (.callbackException emptyMessage)) }
  | pass {callback} {topic} {msg : Message π} {next} {todo}
    {event} (hc : s.control = .trying callback topic msg next todo) (hv : msg.value = some event) :
    Move s .next { s with
      control := .inside callback topic msg next todo, trace := s.trace ++ [.passed callback event] }
  | served {callback} {topic} {msg} {next} {todo}
    {op} {service} (hc : s.control = .inside callback topic msg next todo)
    (hp : s.service.perform op = .ok service) : Move s (.call op) { s with service }
  | refused {callback} {topic} {msg} {next} {todo}
    {op} {e} (hc : s.control = .inside callback topic msg next todo)
    (hp : s.service.perform op = .error e) : Move s (.call op) s
  | finish {callback} {topic} {msg} {next} {todo}
    (outcome : Option Failure) (hc : s.control = .inside callback topic msg next todo) :
    Move s (.finish outcome) { s with
      control := .callbacks topic msg next todo, trace := s.trace ++ logged msg outcome }
  | cleanup {pending : List κ} {callback} (hc : s.control = .cleanup pending) (hm : callback ∈ pending) :
    Move s (.cleanup callback) { s with
      control := .cleanup (pending.erase callback), cleaned := s.cleaned ++ [callback] }
  | finished (hc : s.control = .cleanup []) : Move s .next { s with control := .ended }

variable {s t : Loop κ π} {a : Label κ π}

theorem move_of_advance (h : s.advance = some t) : Move s .next t := by
  unfold Loop.advance at h
  split at h
  · rename_i hc
    split at h
    · cases h
    · rename_i hr
      cases h
      exact .leave hc (Bool.eq_false_iff.2 hr)
  · rename_i hc
    cases h
    exact .batchEnd hc
  · rename_i topic msg todo hc
    split at h
    · rename_i hg
      cases h
      exact .unassigned hc hg
    · rename_i cbs hg
      cases h
      exact .assigned hc hg
  · rename_i topic msg next todo hc
    split at h
    · rename_i hg
      cases h
      exact .callbacksEnd hc hg
    · rename_i callback hg
      cases h
      exact .attempt hc hg
  · rename_i callback topic msg next todo hc
    split at h
    · rename_i hv
      cases h
      exact .empty hc hv
    · rename_i event hv
      cases h
      exact .pass hc hv
  · cases h
  · rename_i hc
    cases h
    exact .finished hc
  · cases h
  · cases h

theorem move_of_step (h : s.step a = some t) : Move s a t := by
  cases a with
  | next => exact move_of_advance h
  | poll records =>
    simp only [Loop.step] at h
    split at h
    · rename_i hc
      split at h
      · rename_i hr
        cases h
        exact .poll records hc hr
      · cases h
    · cases h
  | call op =>
    simp only [Loop.step] at h
    split at h
    · rename_i hc
      split at h
      · rename_i service hp
        cases h
        exact .served hc hp
      · rename_i e hp
        cases h
        exact .refused hc hp
    · cases h
  | finish outcome =>
    simp only [Loop.step] at h
    split at h
    · rename_i hc
      cases h
      exact .finish outcome hc
    · cases h
  | cleanup callback =>
    simp only [Loop.step] at h
    split at h
    · rename_i pending hc
      split at h
      · rename_i hm
        cases h
        exact .cleanup hc hm
      · cases h
    · cases h

theorem step_of_move (h : Move s a t) : s.step a = some t := by
  cases h with
  | poll records hc hr => simp only [Loop.step, hc, hr, if_true]
  | leave hc hr => simp only [Loop.step, Loop.advance, hc, hr, Bool.false_eq_true, if_false]
  | batchEnd hc => simp only [Loop.step, Loop.advance, hc]
  | unassigned hc hg => simp only [Loop.step, Loop.advance, hc, hg]
  | assigned hc hg => simp only [Loop.step, Loop.advance, hc, hg]
  | callbacksEnd hc hg => simp only [Loop.step, Loop.advance, hc, hg]
  | attempt hc hg => simp only [Loop.step, Loop.advance, hc, hg]
  | empty hc hv => simp only [Loop.step, Loop.advance, hc, hv]
  | pass hc hv => simp only [Loop.step, Loop.advance, hc, hv]
  | served hc hp => simp only [Loop.step, hc, hp]
  | refused hc hp => simp only [Loop.step, hc, hp]
  | finish outcome hc => simp only [Loop.step, hc]
  | cleanup hc hm => simp only [Loop.step, hc, hm, if_true]
  | finished hc => simp only [Loop.step, Loop.advance, hc]

/-! ## The calls of a run -/

def Entry.call : Entry κ π → Option (κ × BenchmarkEvent π)
  | .passed callback event => some (callback, event)
  | _ => none

def Loop.calls (s : Loop κ π) : List (κ × BenchmarkEvent π) := s.trace.filterMap Entry.call

/-- The calls that a message is worth: its event to each callback of its topic, in the order
of their registration. -/
def owed (table : Dict (List κ)) (m : String × Message π) : List (κ × BenchmarkEvent π) :=
  match m.2.value with
  | none => []
  | some event => ((table.get? m.1).getD []).map fun callback => (callback, event)

def ahead (table : Dict (List κ)) : Control κ π → List (κ × BenchmarkEvent π)
  | .batch todo => todo.flatMap (owed table)
  | .callbacks topic msg next todo | .inside _ topic msg next todo =>
    (owed table (topic, msg)).drop next ++ todo.flatMap (owed table)
  | .trying callback topic msg next todo =>
    msg.value.toList.map (fun event => (callback, event)) ++ (owed table (topic, msg)).drop next ++
      todo.flatMap (owed table)
  | .test | .cleanup _ | .ended => []

def Label.messages : Label κ π → List (String × Message π)
  | .poll records => Records.messages records
  | _ => []

omit [DecidableEq κ] in
theorem calls_check (msg : Message π) (topic : String) :
    (checkMessageBelongsToTopic msg topic : List (Entry κ π)).filterMap Entry.call = [] := by
  unfold checkMessageBelongsToTopic
  split
  · split <;> rfl
  · rfl

omit [DecidableEq κ] in
theorem calls_logged (msg : Message π) (outcome : Option Failure) :
    (logged msg outcome : List (Entry κ π)).filterMap Entry.call = [] := by
  cases outcome <;> rfl

omit [DecidableEq κ] in
variable {table : Dict (List κ)} {topic : String}

theorem owed_unassigned (h : table.get? topic = none) (msg : Message π) : owed table (topic, msg) = [] := by
  unfold owed
  split
  · rfl
  · rw [h]
    rfl

omit [DecidableEq κ] in
theorem owed_drop {next} {callback : κ} (h : ((table.get? topic).getD [])[next]? = some callback) (msg : Message π) :
    (owed table (topic, msg)).drop next =
      msg.value.toList.map (fun event => (callback, event)) ++ (owed table (topic, msg)).drop (next + 1) := by
  obtain ⟨hlt, hget⟩ := List.getElem?_eq_some_iff.1 h
  cases hv : msg.value with
  | none => simp [owed, hv]
  | some event =>
    simp only [owed, hv, ← map_drop]
    rw [drop_eq_getElem_cons hlt, hget]
    rfl

omit [DecidableEq κ] in
theorem owed_drop_end {next} (h : ((table.get? topic).getD [])[next]? = none) (msg : Message π) :
    (owed table (topic, msg)).drop next = [] := by
  rw [List.getElem?_eq_none_iff] at h
  unfold owed
  split
  · exact drop_nil
  · rw [drop_eq_nil_iff, length_map]
    exact h

/-! ## Changing the callbacks -/

def QuietAfterStop (s : Loop κ π) : Label κ π → Prop
  | .call (.add_callback _ _) | .call (.remove_callback _ _) => s.service.running = true
  | _ => True

instance (s : Loop κ π) : (a : Label κ π) → Decidable (QuietAfterStop s a)
  | .call (.add_callback _ _) | .call (.remove_callback _ _) => inferInstanceAs (Decidable (s.service.running = true))
  | .call .stop_loop | .poll _ | .next | .finish _ | .cleanup _ => isTrue trivial

theorem callbacks_of_perform {s s' : KafkaService κ} {op} (h : s.perform op = .ok s')
    (hop : op ≠ .stop_loop → s.running = true) : s'.callbacks = s.callbacks := by
  cases op with
  | stop_loop =>
    simp only [KafkaService.perform, KafkaService.stopLoop] at h
    split at h
    · cases h
      rfl
    · cases h
  | add_callback callback topic =>
    rw [KafkaService.perform, KafkaService.addCallback, if_pos (hop (by simp))] at h
    cases h
  | remove_callback callback topic =>
    rw [KafkaService.perform, KafkaService.removeCallback, if_pos (hop (by simp))] at h
    cases h

theorem callbacks_of_quiet {op} {service : KafkaService κ} (hq : QuietAfterStop s (.call op))
    (h : s.service.perform op = .ok service) : service.callbacks = s.service.callbacks := by
  refine callbacks_of_perform h fun hop => ?_
  cases op with
  | stop_loop => exact absurd rfl hop
  | add_callback callback topic => exact hq
  | remove_callback callback topic => exact hq

/-! ## Invariants -/

def Cleaning (table : Dict (List κ)) (s : Loop κ π) : Prop :=
  match s.control with
  | .cleanup pending => (s.cleaned ++ pending).Perm table.values.flatten.dedup
  | .ended => s.cleaned.Perm table.values.flatten.dedup
  | _ => s.cleaned = []

/-- A run that has made all calls up to here and that left the callbacks alone. -/
structure Sound (table : Dict (List κ)) (s : Loop κ π) : Prop where
  callbacks : s.service.callbacks = table
  calls : s.calls ++ ahead table s.control = s.polled.flatMap (owed table)
  cleaning : Cleaning table s

theorem sound_started (table : Dict (List κ)) : Sound table (started table : Loop κ π) := ⟨rfl, rfl, rfl⟩

theorem sound_step (h : Sound table s) (hq : QuietAfterStop s a) (hs : s.step a = some t) : Sound table t := by
  obtain ⟨ht, hca, hcl⟩ := h
  unfold Cleaning at hcl
  cases move_of_step hs with
  | poll records hc hr =>
    rw [hc] at hca hcl
    refine ⟨ht, ?_, hcl⟩
    simp only [ahead, append_nil] at hca ⊢
    rw [flatMap_append, ← hca]
    rfl
  | leave hc hr =>
    rw [hc] at hca hcl
    refine ⟨ht, hca, ?_⟩
    rw [hcl, KafkaService.distinctCallbacks, ht]
    exact Perm.refl _
  | batchEnd hc =>
    rw [hc] at hca hcl
    exact ⟨ht, hca, hcl⟩
  | unassigned hc hg =>
    rw [hc] at hca hcl
    refine ⟨ht, ?_, hcl⟩
    rw [ht] at hg
    simp only [ahead, flatMap_cons, owed_unassigned hg, nil_append] at hca
    simp only [Loop.calls, filterMap_append, calls_check, append_nil, ahead, filterMap_cons, Entry.call, filterMap_nil]
    exact hca
  | assigned hc hg =>
    rw [hc] at hca hcl
    refine ⟨ht, ?_, hcl⟩
    simp only [Loop.calls, filterMap_append, calls_check, append_nil, ahead, drop_zero]
    exact hca
  | callbacksEnd hc hg =>
    rw [hc] at hca hcl
    refine ⟨ht, ?_, hcl⟩
    rw [ht] at hg
    simp only [ahead, owed_drop_end hg, nil_append] at hca
    exact hca
  | attempt hc hg =>
    rw [hc] at hca hcl
    refine ⟨ht, ?_, hcl⟩
    rw [ht] at hg
    simp only [ahead, owed_drop hg] at hca
    exact hca
  | empty hc hv =>
    rw [hc] at hca hcl
    refine ⟨ht, ?_, hcl⟩
    simp only [ahead, hv, Option.toList_none, map_nil, nil_append] at hca
    simp only [Loop.calls, filterMap_append, calls_logged, append_nil, ahead]
    exact hca
  | pass hc hv =>
    rw [hc] at hca hcl
    refine ⟨ht, ?_, hcl⟩
    simp only [ahead, hv, Option.toList_some, map_cons, map_nil] at hca
    rw [Loop.calls, filterMap_append, ← hca, append_assoc]
    rfl
  | served hc hp => exact ⟨(callbacks_of_quiet hq hp).trans ht, hca, hcl⟩
  | refused hc hp => exact ⟨ht, hca, hcl⟩
  | finish outcome hc =>
    rw [hc] at hca hcl
    refine ⟨ht, ?_, hcl⟩
    simp only [Loop.calls, filterMap_append, calls_logged, append_nil, ahead]
    exact hca
  | cleanup hc hm =>
    rw [hc] at hca hcl
    refine ⟨ht, hca, ?_⟩
    simp only [Cleaning, append_assoc, singleton_append] at hcl ⊢
    exact ((perm_cons_erase hm).symm.append_left _).trans hcl
  | finished hc =>
    rw [hc] at hca hcl
    refine ⟨ht, hca, ?_⟩
    simp only [Cleaning, append_nil] at hcl ⊢
    exact hcl

theorem sound_run {run} (h : Sound table s) (hq : Along Loop.step QuietAfterStop s run)
    (hrun : exec Loop.step s run = some t) : Sound table t :=
  exec_inv_along (Sound table) (fun _ _ _ hs ha hst => sound_step hs ha hst) h hq hrun

theorem polled_step (h : s.step a = some t) : t.polled = s.polled ++ a.messages := by
  cases move_of_step h with
  | poll records hc hr => rfl
  | _ => exact (append_nil _).symm

theorem polled_run {run : List (Label κ π)} (h : exec Loop.step s run = some t) :
    t.polled = s.polled ++ run.flatMap Label.messages := by
  induction run generalizing s with
  | nil =>
    cases h
    exact (append_nil _).symm
  | cons a run ih =>
    obtain ⟨u, hu, hr⟩ := exec_cons_some h
    rw [ih hr, polled_step hu, flatMap_cons, append_assoc]

/-! ## Exceptions -/

def Label.calm : Label κ π → Label κ π
  | .finish _ => .finish none
  | a => a

structure Agrees (s t : Loop κ π) : Prop where
  service : t.service = s.service
  control : t.control = s.control
  calls : t.calls = s.calls
  cleaned : t.cleaned = s.cleaned

omit [DecidableEq κ] in
theorem eq_of_calm {b : Label κ π} (h : b.calm = a.calm) : b = a ∨ ∃ o o', a = .finish o ∧ b = .finish o' := by
  cases a with
  | finish o =>
    cases b with
    | finish o' => exact .inr ⟨o, o', rfl, rfl⟩
    | _ => cases h
  | _ =>
    cases b with
    | finish o' => cases h
    | _ => exact .inl h

omit [DecidableEq κ] in
theorem calls_append (s : Loop κ π) (service : KafkaService κ) (control : Control κ π)
    (polled : List (String × Message π)) (more : List (Entry κ π)) (cleaned : List κ) :
    (Loop.mk service control polled (s.trace ++ more) cleaned).calls = s.calls ++ more.filterMap Entry.call :=
  filterMap_append

/-- Whether a call ends with an exception makes no difference to what can happen next. -/
theorem agrees_step {u : Loop κ π} {b : Label κ π} (hag : Agrees s u) (hb : b.calm = a.calm)
    (h : s.step a = some t) : ∃ v, u.step b = some v ∧ Agrees t v := by
  obtain ⟨hs, hco, hca, hcl⟩ := hag
  rcases eq_of_calm hb with rfl | ⟨o, o', rfl, rfl⟩
  · cases move_of_step h with
    | poll records hc hr =>
      exact ⟨_, step_of_move (.poll records (hco.trans hc) (hs ▸ hr)), hs, rfl, hca, hcl⟩
    | leave hc hr =>
      refine ⟨_, step_of_move (.leave (hco.trans hc) (hs ▸ hr)), hs, ?_, hca, hcl⟩
      rw [hs]
    | batchEnd hc => exact ⟨_, step_of_move (.batchEnd (hco.trans hc)), hs, rfl, hca, hcl⟩
    | unassigned hc hg =>
      refine ⟨_, step_of_move (.unassigned (hco.trans hc) (hs ▸ hg)), hs, rfl, ?_, hcl⟩
      rw [append_assoc, append_assoc, calls_append, calls_append, hca]
    | assigned hc hg =>
      refine ⟨_, step_of_move (.assigned (hco.trans hc) (hs ▸ hg)), hs, rfl, ?_, hcl⟩
      rw [calls_append, calls_append, hca]
    | callbacksEnd hc hg =>
      exact ⟨_, step_of_move (.callbacksEnd (hco.trans hc) (hs ▸ hg)), hs, rfl, hca, hcl⟩
    | attempt hc hg =>
      exact ⟨_, step_of_move (.attempt (hco.trans hc) (hs ▸ hg)), hs, rfl, hca, hcl⟩
    | empty hc hv =>
      refine ⟨_, step_of_move (.empty (hco.trans hc) hv), hs, rfl, ?_, hcl⟩
      rw [calls_append, calls_append, hca]
    | pass hc hv =>
      refine ⟨_, step_of_move (.pass (hco.trans hc) hv), hs, rfl, ?_, hcl⟩
      rw [calls_append, calls_append, hca]
    | served hc hp =>
      exact ⟨_, step_of_move (.served (hco.trans hc) (hs ▸ hp)), rfl, hco, hca, hcl⟩
    | refused hc hp =>
      exact ⟨_, step_of_move (.refused (hco.trans hc) (hs ▸ hp)), hs, hco, hca, hcl⟩
    | finish outcome hc =>
      refine ⟨_, step_of_move (.finish outcome (hco.trans hc)), hs, rfl, ?_, hcl⟩
      rw [calls_append, calls_append, hca]
    | cleanup hc hm =>
      refine ⟨_, step_of_move (.cleanup (hco.trans hc) hm), hs, rfl, hca, ?_⟩
      rw [hcl]
    | finished hc => exact ⟨_, step_of_move (.finished (hco.trans hc)), hs, rfl, hca, hcl⟩
  · cases move_of_step h with
    | finish _ hc =>
      refine ⟨_, step_of_move (.finish o' (hco.trans hc)), hs, rfl, ?_, hcl⟩
      rw [calls_append, calls_append, calls_logged, calls_logged, hca]

theorem agrees_run {u} {run run' : List (Label κ π)} (hag : Agrees s u)
    (hc : run'.map Label.calm = run.map Label.calm) (h : exec Loop.step s run = some t) :
    ∃ v, exec Loop.step u run' = some v ∧ Agrees t v := by
  induction run generalizing s u run' with
  | nil =>
    obtain rfl := map_eq_nil_iff.1 hc
    cases h
    exact ⟨u, rfl, hag⟩
  | cons a run ih =>
    obtain ⟨b, run', rfl, hb, hre⟩ := map_eq_cons_iff.1 hc
    obtain ⟨s', hs', hr⟩ := exec_cons_some h
    obtain ⟨u', hu', hag'⟩ := agrees_step hag hb hs'
    obtain ⟨v, hv, hagv⟩ := ih hag' hre hr
    refine ⟨v, ?_, hagv⟩
    rw [exec_cons, hu']
    exact hv

/-! ## The end of a batch -/

def Label.Plain : Label κ π → Prop
  | .next | .finish none | .cleanup _ => True
  | _ => False

def stepsLeft (service : KafkaService κ) (todo : List (String × Message π)) : Nat :=
  (todo.map fun m => 3 * ((service.callbacks.get? m.1).getD []).length + 2).sum +
    service.distinctCallbacks.length + 3

def rank (s : Loop κ π) : Nat :=
  let width topic := ((s.service.callbacks.get? topic).getD []).length
  match s.control with
  | .test => s.service.distinctCallbacks.length + 2
  | .batch todo => stepsLeft s.service todo
  | .callbacks topic _ next todo => 3 * (width topic - next) + 1 + stepsLeft s.service todo
  | .trying _ topic _ next todo => 3 * (width topic - next) + 3 + stepsLeft s.service todo
  | .inside _ topic _ next todo => 3 * (width topic - next) + 2 + stepsLeft s.service todo
  | .cleanup pending => pending.length + 1
  | .ended => 0

def Settled (s : Loop κ π) : Prop := s.control = .test ∧ s.service.running = true ∨ s.control = .ended

theorem plain_step (h : ¬ Settled s) :
    ∃ a t, a.Plain ∧ s.step a = some t ∧ t.service = s.service ∧ rank t < rank s := by
  unfold Settled at h
  cases hc : s.control with
  | test =>
    have hr : s.service.running = false := by simpa [hc] using h
    refine ⟨.next, _, trivial, step_of_move (.leave hc hr), rfl, ?_⟩
    simp only [rank, hc]
    omega
  | batch todo =>
    cases todo with
    | nil =>
      refine ⟨.next, _, trivial, step_of_move (.batchEnd hc), rfl, ?_⟩
      simp only [rank, hc, stepsLeft, map_nil, sum_nil]
      omega
    | cons m todo =>
      obtain ⟨topic, msg⟩ := m
      cases hg : s.service.callbacks.get? topic with
      | none =>
        refine ⟨.next, _, trivial, step_of_move (.unassigned hc hg), rfl, ?_⟩
        simp only [rank, hc, stepsLeft, map_cons, sum_cons, hg]
        omega
      | some cbs =>
        refine ⟨.next, _, trivial, step_of_move (.assigned hc hg), rfl, ?_⟩
        simp only [rank, hc, stepsLeft, map_cons, sum_cons, hg]
        omega
  | callbacks topic msg next todo =>
    cases hg : ((s.service.callbacks.get? topic).getD [])[next]? with
    | none =>
      refine ⟨.next, _, trivial, step_of_move (.callbacksEnd hc hg), rfl, ?_⟩
      simp only [rank, hc]
      omega
    | some callback =>
      have hlt := (List.getElem?_eq_some_iff.1 hg).1
      refine ⟨.next, _, trivial, step_of_move (.attempt hc hg), rfl, ?_⟩
      simp only [rank, hc]
      omega
  | trying callback topic msg next todo =>
    cases hv : msg.value with
    | none =>
      refine ⟨.next, _, trivial, step_of_move (.empty hc hv), rfl, ?_⟩
      simp only [rank, hc]
      omega
    | some event =>
      refine ⟨.next, _, trivial, step_of_move (.pass hc hv), rfl, ?_⟩
      simp only [rank, hc]
      omega
  | inside callback topic msg next todo =>
    refine ⟨.finish none, _, trivial, step_of_move (.finish none hc), rfl, ?_⟩
    simp only [rank, hc]
    omega
  | cleanup pending =>
    cases pending with
    | nil =>
      refine ⟨.next, _, trivial, step_of_move (.finished hc), rfl, ?_⟩
      simp only [rank, hc]
      omega
    | cons callback pending =>
      have hm : callback ∈ callback :: pending := mem_cons_self
      refine ⟨.cleanup callback, _, trivial, step_of_move (.cleanup hc hm), rfl, ?_⟩
      simp only [rank, hc, erase_cons_head, length_cons]
      omega
  | ended => exact absurd (.inr hc) h

/-- Every batch comes to its end, and a loop that has been stopped ends. -/
theorem settles (s : Loop κ π) :
    ∃ rest t, (∀ a ∈ rest, a.Plain) ∧ exec Loop.step s rest = some t ∧ t.service = s.service ∧ Settled t := by
  refine exec_reaches (P := fun t : Loop κ π => t.service = s.service) (s := s) rank (fun t ht hn => ?_) rfl
  obtain ⟨a, u, ha, hu, hs, hlt⟩ := plain_step hn
  exact ⟨a, u, ha, hu, hs.trans ht, hlt⟩

/-! ## Delivery -/

def Control.idle : Control κ π → Bool
  | .test | .cleanup _ | .ended => true
  | _ => false

omit [DecidableEq κ] in
theorem ahead_idle {c : Control κ π} (h : c.idle = true) (table : Dict (List κ)) : ahead table c = [] := by
  cases c with
  | test | cleanup _ | ended => rfl
  | _ => cases h

def CleanedOnce (table : Dict (List κ)) (cleaned : List κ) : Prop :=
  cleaned.Nodup ∧ ∀ callback, callback ∈ cleaned ↔ ∃ topic cbs, table.get? topic = some cbs ∧ callback ∈ cbs

theorem Sound.cleaned_once (h : Sound table s) (hend : s.control = .ended) : CleanedOnce table s.cleaned := by
  have hp : s.cleaned.Perm table.values.flatten.dedup := by
    have hc := h.cleaning
    unfold Cleaning at hc
    rw [hend] at hc
    exact hc
  refine ⟨hp.nodup_iff.2 (nodup_dedup _), fun callback => ?_⟩
  rw [hp.mem_iff, mem_dedup, mem_flatten]
  constructor
  · rintro ⟨cbs, hmem, hcb⟩
    obtain ⟨topic, hget⟩ := table.mem_values_iff.1 hmem
    exact ⟨topic, cbs, hget, hcb⟩
  · rintro ⟨topic, cbs, hget, hcb⟩
    exact ⟨cbs, table.mem_values_iff.2 ⟨topic, hget⟩, hcb⟩

/-- For callbacks that leave the table alone once the loop is stopped: the calls made are those
that the polled messages are worth, in that order, and at the end of a batch none is missing;
whether a call ends with an exception changes no other call; the callbacks stay as they were;
at the end each of them has been cleaned up once; and batch and loop come to their end. -/
theorem delivery (table : Dict (List κ)) (run : List (Label κ π)) (s : Loop κ π)
    (hrun : exec Loop.step (started table) run = some s)
    (hquiet : Along Loop.step QuietAfterStop (started table) run) :
    (∃ missing, s.calls ++ missing = (run.flatMap Label.messages).flatMap (owed table) ∧
      (s.control.idle = true → missing = [])) ∧
    (∀ run', run'.map Label.calm = run.map Label.calm →
      ∃ s', exec Loop.step (started table) run' = some s' ∧ Agrees s s') ∧
    s.service.callbacks = table ∧
    (s.control = .ended → CleanedOnce table s.cleaned) ∧
    ∃ rest t, (∀ a ∈ rest, a.Plain) ∧ exec Loop.step s rest = some t ∧ t.service = s.service ∧ Settled t := by
  have hs := sound_run (sound_started table) hquiet hrun
  refine ⟨⟨ahead table s.control, ?_, fun h => ahead_idle h table⟩, fun run' hc => ?_, hs.callbacks,
    hs.cleaned_once, settles s⟩
  · rw [hs.calls, polled_run hrun]
    rfl
  · exact agrees_run ⟨rfl, rfl, rfl, rfl⟩ hc hrun

def twoCallbacks : Dict (List Nat) := ⟨[("BAI_APP_FETCHER", [1, 2])], by decide⟩

def fetcherEvent : BenchmarkEvent Unit where
  action_id := "action"
  message_id := "message"
  client_id := "client"
  client_version := "1"
  client_username := "user"
  authenticated := true
  tstamp := 0
  visited := []
  type := "BAI_APP_FETCHER"
  payload := ()

def onePoll : Label Nat Unit := .poll [(⟨"BAI_APP_FETCHER", 0⟩, [⟨some fetcherEvent⟩])]

def stoppingRun : List (Label Nat Unit) :=
  [onePoll, .next, .next, .next, .call .stop_loop, .finish (some (.other "no such file")), .next, .next,
    .finish none, .next, .next, .next, .cleanup 2, .cleanup 1, .next]

theorem delivery_stopping : ∃ s, exec Loop.step (started twoCallbacks) stoppingRun = some s ∧ s.control = .ended ∧
      s.calls = [(1, fetcherEvent), (2, fetcherEvent)] ∧ s.service.callbacks = twoCallbacks ∧ s.cleaned.Nodup := by
  obtain ⟨s, hrun, hend⟩ : ∃ s, exec Loop.step (started twoCallbacks) stoppingRun = some s ∧ s.control = .ended :=
    ⟨_, rfl, rfl⟩
  obtain ⟨⟨missing, hc, hn⟩, -, ht, hcl, -⟩ := delivery twoCallbacks stoppingRun s hrun (by decide)
  have hi : s.control.idle = true := by rw [hend]; rfl
  rw [hn hi, append_nil] at hc
  exact ⟨s, hrun, hend, hc, ht, (hcl hend).1⟩

/-- The first callback stops the loop and removes itself. The second one moves up to the place
that the iterator has passed, and does not get the message. -/
theorem removed_after_stop : ∃ s, exec Loop.step (started twoCallbacks)
        [onePoll, .next, .next, .next, .call .stop_loop, .call (.remove_callback 1 (some "BAI_APP_FETCHER")),
          .finish none, .next, .next, .next, .cleanup 2, .next] = some s ∧
      s.control = .ended ∧ s.calls = [(1, fetcherEvent)] ∧ s.service.callbacks.entries ≠ twoCallbacks.entries ∧
      onePoll.messages.flatMap (owed twoCallbacks) = [(1, fetcherEvent), (2, fetcherEvent)] :=
  ⟨_, rfl, rfl, rfl, by decide, rfl⟩

end BenchmarkAi.Kafka
