import BenchmarkAi.Commands.Cancel
import BenchmarkAi.Executor.Deletion
/-!
# Whose objects a cancel deletes

A cancel command over an `ExecutorCommandObject` with the Kubernetes engine. The client id
goes into a selector as text, and it is the client's to choose: the arguments of a
command come before the fields of its event.
-/

open Lib Lib.Selector BenchmarkAi.Executor

namespace BenchmarkAi.Commands

def k8sEngine (kubectl : Bool → Kubectl) (error : String) : CancelEngine Cluster (List (List K8sObject)) :=
  fun client_id action_id cascade c =>
    match Executor.cancel kubectl client_id action_id cascade c with
    | (.ok results, c) => (.ok results, c)
    | (.error (.noResourcesFound action_id), c) =>
      (.error (.noResourcesFound ("No resources found for '" ++ action_id ++ "'")), c)
    | (.error .executionEngine, c) => (.error (.executionEngine error), c)

structure Setting where
  python : Python (List (List K8sObject))
  kubectl : Bool → Kubectl
  error : String
  cmd_return_topic : String

def Setting.commandObject (st : Setting) : CmdClass Cluster (List (List K8sObject)) :=
  executorCommandObject [k8sEngine st.kubectl st.error]

def Setting.deleted (st : Setting) (objects : List K8sObject) (e : CommandRequestEvent) : List K8sObject :=
  (handleEvent st.python st.commandObject st.cmd_return_topic
    ⟨st.commandObject.create, ⟨⟨objects, []⟩, []⟩, []⟩ e).world.env.deleted

theorem k8sEngine_cluster (kubectl : Bool → Kubectl) (error client_id action_id : String) (cascade : Bool) (c : Cluster) :
    (k8sEngine kubectl error client_id action_id cascade c).2 =
      (Executor.cancel kubectl client_id action_id cascade c).2 := by
  unfold k8sEngine
  split <;> simp_all

theorem cancelEngines_env {ω ρ : Type} (e : CommandRequestEvent) (c : CancelCall) (w : World ω)
    (engine : CancelEngine ω ρ) (engines : List (CancelEngine ω ρ)) :
    (cancelEngines e c w (engine :: engines)).2.env = (engine c.client_id c.target_action_id c.cascade w.env).2 := by
  rw [cancelEngines, cancelLoop]
  split <;> simp_all [World.send]

theorem deleted_cancel (st : Setting) (objects : List K8sObject) {e : CommandRequestEvent} {args}
    (he : e.payload = some ⟨"cancel", args⟩) : st.deleted objects e = match cancelArgs e args with
      | some c => (Executor.cancel st.kubectl c.client_id c.target_action_id c.cascade ⟨objects, []⟩).2.deleted
      | none => [] := by
  unfold Setting.deleted
  rw [world_cancel (intact_create _) he]
  cases cancelArgs e args with
  | none => rfl
  | some c =>
    have henv := cancelEngines_env e c ⟨⟨objects, []⟩, []⟩ (k8sEngine st.kubectl st.error) []
    rw [k8sEngine_cluster] at henv
    exact congrArg Cluster.deleted henv

variable {client_id action_id : String}

/-- What is selected has the client id that the selector's text comes to. -/
theorem clientId_of_selects {as_parent ls}
    (h : selects (createLabelSelector client_id action_id as_parent) ls = true) :
    ∃ x, exactValue client_id = some x ∧ ls clientIdLabel = some x := by
  have hk := isKey_requirements client_id action_id as_parent
  rw [createLabelSelector_eq] at h
  rw [requirements] at hk
  rw [List.forall_mem_cons] at hk
  have hr := ((selects_cons hk.1 (by decide) hk.2).1 h).2.resolve_left (by simp)
  rw [List.forall_mem_cons] at hk
  obtain ⟨x, hx, -, hls⟩ := head_of_selects hk.2.1 hr
  exact ⟨x, hx, hls⟩

theorem clientId_of_deletable {cascade} {o : K8sObject} (h : Deletable client_id action_id cascade o) :
    ∃ x, exactValue client_id = some x ∧ o.label clientIdLabel = some x := by
  rcases h with h | ⟨-, -, h⟩ <;> exact clientId_of_selects (Bool.and_eq_true_iff.1 h).2

theorem deletable_of_valueOk (hc : valueOk client_id = true) (ha : valueOk action_id = true) (cascade : Bool) :
    ∃ o, Deletable client_id action_id cascade o := by
  let labels := [(createdByLabel, executorService), (clientIdLabel, client_id), (actionIdLabel, action_id)]
  have hv : ∀ kv ∈ requirements client_id action_id false, valueOk kv.2 = true ∧ labels.lookup kv.1 = some kv.2 := by
    have he : valueOk executorService = true := by decide
    unfold requirements
    by_cases h : action_id = ""
    · simp [h, hc, he, labels, lookup_cons_if, createdByLabel, clientIdLabel]
    · simp [h, hc, ha, he, labels, lookup_cons_if, createdByLabel, clientIdLabel, actionIdLabel]
  have hs : selects (createLabelSelector client_id action_id false) (fun k => labels.lookup k) = true := by
    rw [createLabelSelector_eq]
    exact (selects_equalities (by simp [requirements]) (isKey_requirements _ _ _) fun kv hkv => (hv kv hkv).1).2
      fun kv hkv => (hv kv hkv).2
  exact ⟨⟨"jobs", labels⟩, .inl (Bool.and_eq_true_iff.2 ⟨rfl, hs⟩)⟩

/-- The ids of a cancel, written behind their keys as Kubernetes reads them, are met by no
labels; those of the children are looked for only if it cascades and the first text can be read. -/
def UnmetIds (client_id action_id : String) (cascade : Bool) : Prop :=
  ∀ labels : List (String × String),
    selects (equalities (requirements client_id action_id false)) (fun k => labels.lookup k) = false ∧
      (cascade = true → (parse (equalities (requirements client_id action_id false))).isSome = true →
        selects (equalities (requirements client_id action_id true)) (fun k => labels.lookup k) = false)

theorem unmetIds_iff {cascade} : UnmetIds client_id action_id cascade ↔ ∀ o, ¬ Deletable client_id action_id cascade o := by
  simp only [UnmetIds, ← createLabelSelector_eq, Deletable, not_or, not_and, Bool.not_eq_true]
  constructor
  · intro h o
    obtain ⟨hown, hparent⟩ := h o.labels
    exact ⟨Bool.and_eq_false_imp.2 fun _ => hown, fun hc hp => Bool.and_eq_false_imp.2 fun _ => hparent hc hp⟩
  · intro h labels
    obtain ⟨hown, hparent⟩ := h ⟨"jobs", labels⟩
    exact ⟨Bool.and_eq_false_imp.1 hown rfl, fun hc hp => Bool.and_eq_false_imp.1 (hparent hc hp) rfl⟩

/-- What the condition below comes to for valid ids: the client has not given another
client id. -/
theorem reads_own_iff {c : CancelCall} (hc : valueOk c.client_id = true) (ha : valueOk c.target_action_id = true)
    (own : String) : (exactValue c.client_id = some own ∨ UnmetIds c.client_id c.target_action_id c.cascade) ↔
      c.client_id = own := by
  rw [exactValue_of_valueOk hc, Option.some.injEq, unmetIds_iff]
  refine or_iff_left_of_imp fun hno => ?_
  obtain ⟨o, ho⟩ := deletable_of_valueOk hc ha c.cascade
  exact absurd ho (hno o)

/-- A cancel command deletes objects of its own client only, exactly if its arguments do not
fit, or the client id it is called with is read as that of the event, or no labels meet its
ids. -/
theorem cancel_isolated_iff (py : Python (List (List K8sObject))) (error topic : String) {e : CommandRequestEvent}
    {args : CommandArgs} (he : e.payload = some ⟨"cancel", args⟩) :
    (∀ kubectl objects, ∀ o ∈ Setting.deleted ⟨py, kubectl, error, topic⟩ objects e,
      o.label clientIdLabel = some e.client_id) ↔
      ∀ c, cancelArgs e args = some c → exactValue c.client_id = some e.client_id ∨
        UnmetIds c.client_id c.target_action_id c.cascade := by
  simp only [unmetIds_iff]
  constructor
  · intro h c hc
    by_cases hd : ∃ o, Deletable c.client_id c.target_action_id c.cascade o
    · obtain ⟨o, ho⟩ := hd
      have hdel : o ∈ Setting.deleted ⟨py, fun _ => .succeeds, error, topic⟩ [o] e := by
        rw [deleted_cancel _ _ he, hc]
        exact cancel_of_deletable ho
      obtain ⟨x, hx, hl⟩ := clientId_of_deletable ho
      rw [h _ _ o hdel] at hl
      exact .inl (hx.trans hl.symm)
    · exact .inr (not_exists.1 hd)
  · intro h kubectl objects o ho
    rw [deleted_cancel _ _ he] at ho
    cases hc : cancelArgs e args with
    | none => rw [hc] at ho; cases ho
    | some c =>
      rw [hc] at ho
      have hdel := (deletable_of_cancel ho).resolve_left (by simp)
      obtain ⟨x, hx, hl⟩ := clientId_of_deletable hdel
      have heq := (h c hc).resolve_right fun hno => hno o hdel
      exact hl.trans (hx.symm.trans heq)

def ownCancel : CommandRequestEvent :=
  commandRequest "cancel" (.dict ⟨[("target_action_id", "action-1")], by decide⟩)

theorem cancel_isolated_own :
    ownCancel.payload = some ⟨"cancel", .dict ⟨[("target_action_id", "action-1")], by decide⟩⟩ ∧
      ∀ kubectl objects, ∀ o ∈ Setting.deleted ⟨examplePython, kubectl, "", "CMD_RETURN"⟩ objects ownCancel,
        o.label clientIdLabel = some ownCancel.client_id := by
  refine ⟨rfl, (cancel_isolated_iff examplePython "" "CMD_RETURN" rfl).2 fun c hc => ?_⟩
  obtain rfl : _ = c := Option.some.inj hc
  exact .inl (exactValue_of_valueOk (by decide))

/-- A client id among the arguments takes the place of the event's, and the objects of the
other client are deleted. -/
theorem cancel_of_other_client : Setting.deleted ⟨examplePython, fun _ => .succeeds, "", "CMD_RETURN"⟩
      [⟨"jobs", [("created-by", "executor"), ("client-id", "other-client"), ("action-id", "action-1")]⟩]
      (commandRequest "cancel" (.dict ⟨[("target_action_id", "action-1"), ("client_id", "other-client")], by decide⟩)) =
        [⟨"jobs", [("created-by", "executor"), ("client-id", "other-client"), ("action-id", "action-1")]⟩] := by
  decide +kernel

end BenchmarkAi.Commands
