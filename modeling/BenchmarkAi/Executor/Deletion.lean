import BenchmarkAi.Executor.Engine
/-!
# What a cancel deletes

`Deletable` says of which objects there is a cluster where a cancel deletes them: those
that its first selector selects, and, if it cascades and the first selector can be
read, those that the second one selects.
-/

open Lib Lib.Selector

namespace BenchmarkAi.Executor

variable {c : Cluster} {o : K8sObject} {kubectl : Kubectl} {client_id action_id : String} {as_parent : Bool}

theorem mem_delete {p} : o ∈ (c.delete p).deleted ↔ o ∈ c.deleted ∨ o ∈ c.objects ∧ p o = true := by
  rw [Cluster.delete, List.mem_append, List.mem_filter]

theorem parse_of_selects {s ls} (h : selects s ls = true) : (parse s).isSome = true := by
  unfold selects at h
  cases hp : parse s with
  | none => rw [hp] at h; cases h
  | some rs => rfl

theorem createLabelSelector_ne (client_id action_id : String) (as_parent : Bool) :
    createLabelSelector client_id action_id as_parent ≠ "" := by
  intro h
  have hl := congrArg String.toList h
  rw [createLabelSelector_eq, requirements, toList_equalities_cons] at hl
  cases (List.append_eq_nil_iff.1 hl).1

/-! ## One run of `kubectl` -/

theorem cancelOnce_deleted (h : o ∈ (cancelOnce kubectl client_id action_id as_parent c).2.deleted) :
    o ∈ c.deleted ∨ selectedBy (createLabelSelector client_id action_id as_parent) o = true := by
  unfold cancelOnce deleteK8sResources at h
  split at h
  · exact .inl h
  · split at h
    · exact .inl h
    · split at h
      · rcases mem_delete.1 h with h | ⟨-, h⟩
        · exact .inl h
        · exact .inr (Bool.and_eq_true_iff.1 h).1
      · rcases mem_delete.1 h with h | ⟨-, h⟩
        · exact .inl h
        · exact .inr h

theorem cancelOnce_mono (h : o ∈ c.deleted) : o ∈ (cancelOnce kubectl client_id action_id as_parent c).2.deleted := by
  unfold cancelOnce deleteK8sResources
  split
  · exact h
  · split
    · exact h
    · split <;> exact mem_delete.2 (.inl h)

theorem cancelOnce_unread (h : (parse (createLabelSelector client_id action_id as_parent)).isSome = false) :
    cancelOnce kubectl client_id action_id as_parent c = (.error .other, c) := by
  unfold cancelOnce deleteK8sResources
  rw [if_neg (createLabelSelector_ne _ _ _), if_pos (by rw [← Option.not_isSome, h]; rfl)]

theorem cancelOnce_succeeds (c : Cluster) (h : (parse (createLabelSelector client_id action_id as_parent)).isSome = true) :
    cancelOnce .succeeds client_id action_id as_parent c =
      (if c.objects.filter (selectedBy (createLabelSelector client_id action_id as_parent)) = [] then
          .error .noK8sResourcesFound
        else .ok (c.objects.filter (selectedBy (createLabelSelector client_id action_id as_parent))),
        c.delete (selectedBy (createLabelSelector client_id action_id as_parent))) := by
  unfold cancelOnce deleteK8sResources
  rw [if_neg (createLabelSelector_ne _ _ _), if_neg (by rw [← Option.not_isSome, h]; decide)]

/-! ## The whole cancel -/

def Deletable (client_id action_id : String) (cascade : Bool) (o : K8sObject) : Prop :=
  selectedBy (createLabelSelector client_id action_id false) o = true ∨
    cascade = true ∧ (parse (createLabelSelector client_id action_id false)).isSome = true ∧
      selectedBy (createLabelSelector client_id action_id true) o = true

theorem cancelChildren_cluster (kubectl : Kubectl) (client_id action_id : String) (results : List (List K8sObject))
    (c : Cluster) : (cancelChildren kubectl client_id action_id results c).2 =
      (cancelOnce kubectl client_id action_id true c).2 := by
  unfold cancelChildren
  split <;> simp_all

theorem deletable_of_cancel {kubectl cascade}
    (h : o ∈ (cancel kubectl client_id action_id cascade c).2.deleted) :
    o ∈ c.deleted ∨ Deletable client_id action_id cascade o := by
  cases hp : (parse (createLabelSelector client_id action_id false)).isSome with
  | false =>
    rw [cancel, cancelOnce_unread hp] at h
    exact .inl h
  | true =>
    have first (h : o ∈ (cancelOnce (kubectl false) client_id action_id false c).2.deleted) :
        o ∈ c.deleted ∨ Deletable client_id action_id cascade o := (cancelOnce_deleted h).imp_right .inl
    have second (c' : Cluster) (hc : (cancelOnce (kubectl false) client_id action_id false c).2 = c')
        (hca : cascade = true) (h : o ∈ (cancelOnce (kubectl true) client_id action_id true c').2.deleted) :
        o ∈ c.deleted ∨ Deletable client_id action_id cascade o := by
      rcases cancelOnce_deleted h with h | hs
      · exact first (hc ▸ h)
      · exact .inr (.inr ⟨hca, hp, hs⟩)
    unfold cancel at h
    split at h
    · rename_i c' heq
      split at h
      · rename_i hca
        rw [cancelChildren_cluster] at h
        exact second c' (by rw [heq]) hca h
      · exact first (by rw [heq]; exact h)
    · rename_i c' heq
      split at h
      · rename_i hca
        rw [cancelChildren_cluster] at h
        exact second c' (by rw [heq]) hca h
      · exact first (by rw [heq]; exact h)
    · rename_i c' heq
      exact first (by rw [heq]; exact h)

theorem cancel_of_deletable {cascade} (h : Deletable client_id action_id cascade o) :
    o ∈ (cancel (fun _ => .succeeds) client_id action_id cascade ⟨[o], []⟩).2.deleted := by
  have hp : (parse (createLabelSelector client_id action_id false)).isSome = true := by
    rcases h with h | ⟨-, h, -⟩
    · exact parse_of_selects (Bool.and_eq_true_iff.1 h).2
    · exact h
  rw [cancel, cancelOnce_succeeds _ hp]
  cases hs : selectedBy (createLabelSelector client_id action_id false) o with
  | true =>
    have hdel : o ∈ ((⟨[o], []⟩ : Cluster).delete (selectedBy (createLabelSelector client_id action_id false))).deleted :=
      mem_delete.2 (.inr ⟨List.mem_singleton.2 rfl, hs⟩)
    rw [if_neg (by simp [hs])]
    dsimp only
    split
    · rw [cancelChildren_cluster]
      exact cancelOnce_mono hdel
    · exact hdel
  | false =>
    -- the first run finds nothing, and the second one finds the object where it was
    obtain ⟨hc, -, hs'⟩ : cascade = true ∧ _ ∧ _ := h.resolve_left (by rw [hs]; decide)
    have hp' := parse_of_selects (Bool.and_eq_true_iff.1 hs').2
    rw [if_pos (by simp [hs])]
    dsimp only
    rw [if_pos hc, cancelChildren_cluster, cancelOnce_succeeds _ hp']
    exact mem_delete.2 (.inr ⟨List.mem_filter.2 ⟨List.mem_singleton.2 rfl, by rw [hs]; rfl⟩, hs'⟩)

end BenchmarkAi.Executor
