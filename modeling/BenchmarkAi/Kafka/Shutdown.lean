import BenchmarkAi.Kafka.Delivery
import BenchmarkAi.Lib.Call
/-!
# The signal to stop

`KafkaService.__init__` registers `stop_loop` as the handler of SIGTERM. Python calls a handler
with the number of the signal and the frame that it interrupts, and `stop_loop` takes neither.
So the signal raises at the point that it interrupts: in the `try` of `safe_handle_msg` the
exception is logged, in a callback it is the callback's to catch, and everywhere else it leaves
`run_loop`. In no case is the loop stopped.
-/

open Lib

namespace BenchmarkAi.Kafka

variable {κ π : Type} [DecidableEq κ]

/-! ## The handler -/

inductive HandlerArg
  | self | signum | frame
deriving DecidableEq, Repr

def stopLoopSignature : Call.Signature HandlerArg := { params := [{ name := "self" }] }

def takesOneArgument : String := "stop_loop() takes 1 positional argument but 3 were given"

def KafkaService.onSigterm (s : KafkaService κ) : Except Failure (KafkaService κ) :=
  match stopLoopSignature.bind [.self, .signum, .frame] [] with
  | .ok _ => s.stopLoop
  | .error _ => .error (.typeError takesOneArgument)

omit [DecidableEq κ] in
theorem onSigterm_eq (s : KafkaService κ) : s.onSigterm = .error (.typeError takesOneArgument) := rfl

/-! ## A loop that can be interrupted -/

structure Process (κ π : Type) where
  loop : Loop κ π
  escaped : Option Failure := none

inductive Happening (κ π : Type)
  | loop (a : Label κ π)
  | sigterm
deriving DecidableEq, Repr

namespace Process

def raise (p : Process κ π) (e : Failure) : Process κ π :=
  match p.loop.control with
  | .inside .. => p
  | .trying _ topic msg next todo =>
    { p with loop := { p.loop with
        control := .callbacks topic msg next todo, trace := p.loop.trace ++ logged msg (some e) } }
  | _ => { p with escaped := some e }

def step (p : Process κ π) (h : Happening κ π) : Option (Process κ π) :=
  if p.escaped.isSome then none
  else
    match h with
    | .loop a => (p.loop.step a).map fun loop => { p with loop }
    | .sigterm =>
      match p.loop.control with
      | .ended => none
      | _ =>
        match p.loop.service.onSigterm with
        | .ok service => some { p with loop := { p.loop with service } }
        | .error e => some (p.raise e)

end Process

variable {p q : Process κ π}

variable {a : Label κ π} {s t : Loop κ π} {table : Dict (List κ)}

theorem step_loop_eq : p.step (.loop a) = some q ↔
    p.escaped = none ∧ q.escaped = none ∧ p.loop.step a = some q.loop := by
  obtain ⟨loop, escaped⟩ := p
  obtain ⟨loop', escaped'⟩ := q
  unfold Process.step
  cases escaped with
  | some e => simp
  | none =>
    constructor
    · intro h
      obtain ⟨l, hl, heq⟩ := Option.map_eq_some_iff.1 h
      cases heq
      exact ⟨rfl, rfl, hl⟩
    · rintro ⟨-, hn, hl⟩
      cases hn
      exact Option.map_eq_some_iff.2 ⟨_, hl, rfl⟩

theorem exec_loop_iff {as : List (Label κ π)} (hp : p.escaped = none) :
    exec Process.step p (as.map .loop) = some q ↔ q.escaped = none ∧ exec Loop.step p.loop as = some q.loop := by
  induction as generalizing p with
  | nil =>
    obtain ⟨loop, escaped⟩ := p
    obtain ⟨loop', escaped'⟩ := q
    cases hp
    simp [and_comm, eq_comm]
  | cons a as ih =>
    constructor
    · intro h
      obtain ⟨r, hr, hrt⟩ := exec_cons_some h
      obtain ⟨-, hre, hs⟩ := step_loop_eq.1 hr
      obtain ⟨hq, he⟩ := (ih hre).1 hrt
      refine ⟨hq, ?_⟩
      rw [exec_cons, hs]
      exact he
    · rintro ⟨hq, h⟩
      obtain ⟨l, hl, hrt⟩ := exec_cons_some h
      have hr : p.step (.loop a) = some ⟨l, none⟩ := step_loop_eq.2 ⟨hp, rfl, hl⟩
      rw [List.map_cons, exec_cons, hr]
      exact (ih rfl).2 ⟨hq, hrt⟩

/-! ## What the signal does -/

def Control.inCallback : Control κ π → Bool
  | .inside .. => true
  | _ => false

def Control.guarded : Control κ π → Bool
  | .inside .. | .trying .. => true
  | _ => false

theorem sigterm_inCallback (h : p.loop.control.inCallback = true) (hp : p.escaped = none) :
    p.step .sigterm = some p := by
  unfold Process.step
  rw [hp]
  cases hc : p.loop.control with
  | inside callback topic msg next todo => simp only [onSigterm_eq, Process.raise, hc]; rfl
  | _ => rw [hc] at h; cases h

theorem sigterm_escapes (h : p.loop.control.guarded = false) (hend : p.loop.control ≠ .ended) (hp : p.escaped = none) :
    p.step .sigterm = some { p with escaped := some (.typeError takesOneArgument) } := by
  unfold Process.step
  rw [hp]
  cases hc : p.loop.control with
  | ended => exact absurd hc hend
  | inside callback topic msg next todo => rw [hc] at h; cases h
  | trying callback topic msg next todo => rw [hc] at h; cases h
  | _ => simp only [onSigterm_eq, Process.raise, hc]; rfl

def Control.closing : Control κ π → Bool
  | .cleanup _ | .ended => true
  | _ => false

def Orderly (s : Loop κ π) : Prop := s.service.running = true → s.control.closing = false

theorem running_of_perform {s s' : KafkaService κ} {op} (h : s.perform op = .ok s')
    (hrun : s'.running = true) : s.running = true := by
  -- an operation is refused, or finds the loop running, or leaves `running` as it is
  cases op <;> simp only [KafkaService.perform, KafkaService.stopLoop, KafkaService.addCallback,
    KafkaService.removeCallback] at h <;> repeat' split at h
  all_goals first | assumption | cases h
  all_goals exact hrun

theorem orderly_step (h : Orderly s) (hs : s.step a = some t) : Orderly t := by
  intro hrun
  cases move_of_step hs with
  | leave hc hr => exact absurd (hr.symm.trans hrun) Bool.false_ne_true
  | served hc hp => exact h (running_of_perform hp hrun)
  | refused hc hp => exact h hrun
  | cleanup hc hm =>
    have hno := h hrun
    rw [hc] at hno
    cases hno
  | finished hc =>
    have hno := h hrun
    rw [hc] at hno
    cases hno
  | _ => rfl

theorem orderly_run {run} (hrun : exec Loop.step (started table) run = some s) : Orderly s :=
  exec_inv Orderly (fun _ _ _ hs hst => orderly_step hs hst) (fun _ => rfl) hrun

/-- A signal during a callback, in a loop that nobody has stopped: when the callbacks return,
the loop polls again. -/
theorem sigterm_polls_again {before : List (Label κ π)}
    (hb : exec Process.step ⟨started table, none⟩ (before.map .loop) = some p) (hin : p.loop.control.inCallback = true)
    (hrun : p.loop.service.running = true) :
    ∃ rest, (∀ a ∈ rest, a.Plain) ∧ ∀ records,
      (exec Process.step p (.sigterm :: (rest ++ [.poll records]).map .loop)).isSome := by
  obtain ⟨hp, hl⟩ := (exec_loop_iff rfl).1 hb
  obtain ⟨rest, t, hpl, hre, hse, hsd⟩ := settles p.loop
  refine ⟨rest, hpl, fun records => ?_⟩
  have ho : Orderly t := exec_inv Orderly (fun _ _ _ hs hst => orderly_step hs hst) (orderly_run hl) hre
  have hr : t.service.running = true := by rw [hse]; exact hrun
  have ht : t.control = .test := by
    rcases hsd with h | h
    · exact h.1
    · have hno := ho hr
      rw [h] at hno
      cases hno
  rw [exec_cons, sigterm_inCallback hin hp, Option.isSome_iff_exists]
  have hpo := exec_concat hre (step_of_move (.poll records ht hr))
  exact ⟨⟨_, none⟩, (exec_loop_iff hp).2 ⟨rfl, hpo⟩⟩

theorem sigterm_polls_again_two : ∃ p,
    exec Process.step ⟨started twoCallbacks, none⟩ ([onePoll, .next, .next, .next].map .loop) = some p ∧
      ∃ rest, ∀ records, (exec Process.step p (.sigterm :: (rest ++ [.poll records]).map .loop)).isSome := by
  obtain ⟨p, hp, hin, hrun⟩ : ∃ p,
      exec Process.step ⟨started twoCallbacks, none⟩ ([onePoll, .next, .next, .next].map .loop) = some p ∧
        p.loop.control.inCallback = true ∧ p.loop.service.running = true := ⟨_, rfl, rfl, rfl⟩
  obtain ⟨rest, -, hr⟩ := sigterm_polls_again hp hin hrun
  exact ⟨p, hp, rest, hr⟩

/-! ## Graceful shutdown -/

end BenchmarkAi.Kafka
