import BenchmarkAi.Commands.Integrity
import Mathlib.Data.List.Dedup
/-!
# A cancel over several engines

`ExecutorCommandObject.cancel` goes through the set of its engines and returns or raises for
the first one it comes to.
-/

open Lib Lib.Call List

namespace BenchmarkAi.Commands

variable {ω ρ ι : Type}

/-! ## The set of the engines -/

section Engines

variable (engine : ι → CancelEngine ω ρ) (c : CancelCall) (w : World ω)

def engineOutcome (i : ι) : Except EngineRaise ρ := (engine i c.client_id c.target_action_id c.cascade w.env).1

/-- An order in which `set(self.execution_engines.values())` can be gone through. -/
structure IterationOrder (values order : List ι) : Prop where
  nodup : order.Nodup
  mem_iff : ∀ i, i ∈ order ↔ i ∈ values

def NotFound {α : Type} (r : Except EngineRaise α) : Prop := ∃ msg, r = .error (.noResourcesFound msg)

def outcomeMessages (event : CommandRequestEvent) : Except EngineRaise ρ → List StatusMessage
  | .ok _ => [⟨.succeeded, "Execution successfully cancelled...", c.target_action_id⟩]
  | .error (.executionEngine _) => [⟨.failed, deletionFailedMessage event c.target_action_id, c.target_action_id⟩]
  | .error _ => []

/-- The result is that of the first engine, and so are the messages. -/
theorem cancelLoop_cons (event : CommandRequestEvent) (i : ι) (order : List ι) :
    (cancelLoop event c w ((i :: order).map engine)).1 = (engineOutcome engine c w i).map some ∧
      (cancelLoop event c w ((i :: order).map engine)).2.statuses =
        w.statuses ++ outcomeMessages c event (engineOutcome engine c w i) := by
  rw [map_cons, cancelLoop, engineOutcome]
  rcases engine i c.client_id c.target_action_id c.cascade w.env with ⟨raised | result, env⟩
  · cases raised <;> simp [World.send, Except.map, outcomeMessages]
  · simp [World.send, Except.map, outcomeMessages]

theorem exists_order [DecidableEq ι] {values} {i : ι} (h : i ∈ values) :
    ∃ order, IterationOrder values (i :: order) := by
  refine ⟨values.dedup.erase i, ⟨?_, fun k => ?_⟩⟩
  · rw [nodup_cons]
    exact ⟨(nodup_dedup values).not_mem_erase, (nodup_dedup values).erase i⟩
  · rw [mem_cons, (nodup_dedup values).mem_erase_iff, mem_dedup]
    constructor
    · rintro (rfl | ⟨-, hk⟩)
      · exact h
      · exact hk
    · intro hk
      by_cases hki : k = i
      · exact .inl hki
      · exact .inr ⟨hki, hk⟩

/-- What a cancel over a set of engines should come to. -/
structure CancelContract (event : CommandRequestEvent) (values : List ι) : Prop where
  /-- The one engine that has resources for the action gives the result. -/
  single : ∀ i ∈ values, ∀ result, engineOutcome engine c w i = .ok result →
    (∀ k ∈ values, k ≠ i → NotFound (engineOutcome engine c w k)) →
      ∀ order, IterationOrder values order → (cancelLoop event c w (order.map engine)).1 = .ok (some result)
  /-- Nothing is found only if no engine has found anything. -/
  not_found : ∀ order, IterationOrder values order → NotFound (cancelLoop event c w (order.map engine)).1 →
    ∀ i ∈ values, NotFound (engineOutcome engine c w i)
  /-- The order of the set does not matter. -/
  same : ∀ order order', IterationOrder values order → IterationOrder values order' →
    (cancelLoop event c w (order.map engine)).1 = (cancelLoop event c w (order'.map engine)).1 ∧
      (cancelLoop event c w (order.map engine)).2.statuses = (cancelLoop event c w (order'.map engine)).2.statuses

/-- A cancel over a set of engines keeps to it exactly if all its engines come to the same. -/
theorem cancel_contract_iff [DecidableEq ι] (event : CommandRequestEvent) (values : List ι) :
    CancelContract engine c w event values ↔
      ∀ i ∈ values, ∀ k ∈ values, engineOutcome engine c w i = engineOutcome engine c w k := by
  constructor
  · intro h i hi k hk
    obtain ⟨order, ho⟩ := exists_order hi
    obtain ⟨order', ho'⟩ := exists_order hk
    have hs := (h.same _ _ ho ho').1
    rw [(cancelLoop_cons engine c w event i order).1, (cancelLoop_cons engine c w event k order').1] at hs
    cases hoi : engineOutcome engine c w i <;> cases hok : engineOutcome engine c w k <;>
      rw [hoi, hok] at hs <;> cases hs <;> rfl
  · intro h
    -- the engine that comes first stands for all of them
    have hf {order : List ι} (ho : IterationOrder values order) {i : ι} (hi : i ∈ values) :
        (cancelLoop event c w (order.map engine)).1 = (engineOutcome engine c w i).map some ∧
          (cancelLoop event c w (order.map engine)).2.statuses =
            w.statuses ++ outcomeMessages c event (engineOutcome engine c w i) := by
      cases order with
      | nil => cases (ho.mem_iff i).2 hi
      | cons k rest =>
        rw [h i hi k ((ho.mem_iff k).1 mem_cons_self)]
        exact cancelLoop_cons engine c w event k rest
    refine ⟨?_, ?_, ?_⟩
    · intro i hi result hr _ order ho
      rw [(hf ho hi).1, hr]
      rfl
    · rintro order ho ⟨msg, hmsg⟩ i hi
      rw [(hf ho hi).1] at hmsg
      refine ⟨msg, ?_⟩
      cases hi : engineOutcome engine c w i with
      | ok result => rw [hi] at hmsg; cases hmsg
      | error raised => rw [hi] at hmsg; cases hmsg; rfl
    · intro order order' ho ho'
      cases order with
      | nil =>
        cases order' with
        | nil => exact ⟨rfl, rfl⟩
        | cons k rest => cases (ho.mem_iff k).2 ((ho'.mem_iff k).1 mem_cons_self)
      | cons k rest =>
        have hk := (ho.mem_iff k).1 mem_cons_self
        rw [(hf ho hk).1, (hf ho hk).2, (hf ho' hk).1, (hf ho' hk).2]
        exact ⟨rfl, rfl⟩

end Engines

def engineOf (outcome : Bool → Except EngineRaise String) : Bool → CancelEngine Unit String :=
  fun i _ _ _ env => (outcome i, env)

def oneHolds : Bool → Except EngineRaise String
  | true => .ok "job.batch deleted"
  | false => .error (.noResourcesFound "No resources found for 'action-1'")

def jobCancel : CommandRequestEvent :=
  commandRequest "cancel" (.dict ⟨[("target_action_id", "action-1")], nodup_singleton "target_action_id"⟩)

/-- If the other engine comes first, its exception ends the loop, and the job is not
cancelled. -/
theorem engine_without_job_first : IterationOrder [true, false] [false, true] ∧
      cancelLoop jobCancel ⟨"CLIENT_ID", "action-1", false⟩ ⟨(), []⟩ ([false, true].map (engineOf oneHolds)) =
        (.error (.noResourcesFound "No resources found for 'action-1'"), ⟨(), []⟩) ∧
      IterationOrder [true, false] [true, false] ∧
      (cancelLoop jobCancel ⟨"CLIENT_ID", "action-1", false⟩ ⟨(), []⟩ ([true, false].map (engineOf oneHolds))).1 =
        .ok (some "job.batch deleted") :=
  ⟨⟨by decide, by decide⟩, rfl, ⟨by decide, by decide⟩, rfl⟩

end BenchmarkAi.Commands
