import BenchmarkAi.CloudWatch.Dashboards
import BenchmarkAi.SageMaker.Engine
/-!
# The dimensions of a metric

A metric is published to CloudWatch with dimensions, and a widget of a dashboard finds it by them.
The exporter, the SageMaker executor and the widget each take them from the labels of their own
accord. `widget_finds_metric_iff` says for which labels they agree.
-/

open Lib BenchmarkAi.SageMaker List

namespace BenchmarkAi.CloudWatch

def cloudwatchMaxDimensions : Nat := 10

def exported (labels : List (String × String)) : List (String × String) := labels.filter fun label => label.1 ∉ notExportedLabels

/-- `handle_event`: the dimensions that the metric is put with, and the call of `check_dashboard` then. -/
def handleEvent (labels : Dict String) (name : String) : List (String × String) × Execution :=
  let dimensions := exported labels.entries
  let dimensions := if dimensions.length > cloudwatchMaxDimensions then dimensions.take 10 else dimensions
  let labels := if (labels.get? "region").isSome then labels else labels.set "region" "us-east-1"
  (dimensions, ⟨labels, name⟩)

/-- A call of `check_dashboard` puts the widget, whatever the list of the dashboards and the dashboard
itself are. -/
def Execution.Stores (e : Execution) (widget : Widget) : Prop :=
  (∃ page name, checkDashboard e page = .absent name widget) ∨
    ∃ page name dashboards body, checkDashboard e page = .found name ∧
      updateDashboard e name (Dict.get? dashboards name) = .read name body widget

def Execution.Finds (e : Execution) (dimensions : List (String × String)) : Prop :=
  ∀ widget, e.Stores widget → widget.firstMetric = .ok (some (strings (["ANUBIS/METRICS", e.metric_name] ++
    dimensions.flatMap fun dimension => [dimension.1, dimension.2])))

section Widget
variable {e : Execution}

theorem metric_eq (e : Execution) : e.metric = ["ANUBIS/METRICS", e.metric_name] ++
    (exported e.labels.entries).flatMap fun dimension => [dimension.1, dimension.2] := by
  rw [Execution.metric]
  refine congrArg _ ?_
  induction e.labels.entries with
  | nil => rfl
  | cons label labels ih =>
    rw [flatMap_cons, ih, exported, exported]
    by_cases hl : label.1 ∈ notExportedLabels <;> simp [hl]

theorem flatMap_pair_inj {ds ds' : List (String × String)}
    (h : (ds.flatMap fun d => [d.1, d.2]) = ds'.flatMap fun d => [d.1, d.2]) : ds = ds' := by
  induction ds generalizing ds' with
  | nil =>
    cases ds' with
    | nil => rfl
    | cons d' ds' => simp at h
  | cons d ds ih =>
    cases ds' with
    | nil => simp at h
    | cons d' ds' =>
      simp only [flatMap_cons, cons_append, nil_append, cons.injEq] at h
      rw [ih h.2.2, Prod.ext h.1 h.2.1]

/-- A widget is stored for labels that have a dashboard, a region and a task. -/
theorem widget_ok {widget : Widget} (h : e.widget = .ok widget) :
    (e.labels.get? "region").isSome = true ∧ (e.labels.get? "task_name").isSome = true ∧
      widget.firstMetric = .ok (some (strings e.metric)) := by
  unfold Execution.widget Execution.label at h
  cases hr : e.labels.get? "region" with
  | none => rw [hr] at h; cases h
  | some region =>
    cases ht : e.labels.get? "task_name" with
    | none => rw [hr, ht] at h; cases h
    | some task =>
      rw [hr, ht] at h
      cases h
      exact ⟨rfl, rfl, rfl⟩

theorem stores_iff {widget} :
    e.Stores widget ↔ (e.labels.get? "dashboard-name").isSome = true ∧ e.widget = .ok widget := by
  constructor
  · rintro (⟨page, name, h⟩ | ⟨page, name, dashboards, body, h, hr⟩)
    · have hs := sound_checkDashboard e .empty page
      rw [h] at hs
      exact ⟨Option.isSome_of_eq_some hs.1, hs.2⟩
    · have hs := sound_checkDashboard e .empty page
      rw [h] at hs
      have hs' := @sound_updateDashboard e dashboards name hs
      rw [hr] at hs'
      exact ⟨Option.isSome_of_eq_some hs'.1, hs'.2.1⟩
  · rintro ⟨hn, hw⟩
    obtain ⟨name, hn⟩ := Option.isSome_iff_exists.1 hn
    refine .inl ⟨[], name, ?_⟩
    rw [checkDashboard, hn, hw]
    rfl

theorem exists_widget (hr : (e.labels.get? "region").isSome = true) (ht : (e.labels.get? "task_name").isSome = true) :
    ∃ widget, e.widget = .ok widget := by
  obtain ⟨region, hr⟩ := Option.isSome_iff_exists.1 hr
  obtain ⟨task, ht⟩ := Option.isSome_iff_exists.1 ht
  rw [Execution.widget, Execution.label, Execution.label, hr, ht]
  exact ⟨_, rfl⟩

theorem finds_iff (hr : (e.labels.get? "region").isSome = true) (dimensions : List (String × String)) :
    e.Finds dimensions ↔ e.labels.get? "dashboard-name" = none ∨ e.labels.get? "task_name" = none ∨
      exported e.labels.entries = dimensions := by
  have hm {widget : Widget} (hw : e.widget = .ok widget) := (widget_ok hw).2
  constructor
  · intro h
    by_cases hn : e.labels.get? "dashboard-name" = none
    · exact .inl hn
    by_cases ht : e.labels.get? "task_name" = none
    · exact .inr (.inl ht)
    rw [← ne_eq, ← Option.isSome_iff_ne_none] at hn ht
    obtain ⟨widget, hw⟩ := exists_widget hr ht
    have hsa := (hm hw).2.symm.trans (h widget (stores_iff.2 ⟨hn, hw⟩))
    have hi := Tree.arr.inj (Option.some.inj (Except.ok.inj hsa))
    have hl := (List.map_inj_right fun _ _ => Tree.str.inj).1 hi
    rw [metric_eq] at hl
    exact .inr (.inr (flatMap_pair_inj (append_cancel_left hl)))
  · intro h widget hs
    obtain ⟨hn, hw⟩ := stores_iff.1 hs
    obtain ⟨ht, hm⟩ := hm hw
    rcases h with h | h | rfl
    · rw [h] at hn; cases hn
    · rw [h] at ht; cases ht
    · rw [hm, metric_eq]

end Widget

/-! ## The publishers -/

theorem exported_assign {key} (h : key ∈ notExportedLabels) (value : String) (labels : List (String × String)) :
    exported (assign key value labels) = exported labels := by
  induction labels with
  | nil => simp [assign, exported, h]
  | cons label labels ih =>
    rw [assign]
    split
    · rename_i hkey
      rw [exported, exported, filter_cons_of_neg (by simpa using h), filter_cons_of_neg (by simpa [hkey] using h)]
    · rw [exported, exported, filter_cons, filter_cons]
      rw [exported] at ih
      rw [ih]
      rfl

theorem labels_handleEvent (labels : Dict String) (name : String) :
    ((handleEvent labels name).2.labels.get? "region").isSome = true ∧
    exported (handleEvent labels name).2.labels.entries = exported labels.entries ∧
    ∀ key ≠ "region", (handleEvent labels name).2.labels.get? key = labels.get? key := by
  rw [handleEvent]
  dsimp only
  split
  · rename_i hr
    exact ⟨hr, rfl, fun _ _ => rfl⟩
  · refine ⟨by rw [Dict.get?_set_self]; rfl, exported_assign (by decide) _ _, fun key hkey => Dict.get?_set_ne _ hkey _⟩

theorem calls_checkDashboards {aws labels labels' metrics name}
    (h : .checkDashboard labels' name ∈ (checkDashboards aws labels metrics).2) : labels' = labels := by
  induction metrics with
  | nil => cases h
  | cons metric metrics ih =>
    rw [checkDashboards] at h
    split at h
    · simp_all
    · rcases mem_cons.1 h with h | h
      · exact (AwsCall.checkDashboard.inj h).1
      · exact ih h

/-- `check_dashboard` is called with the labels of the descriptor, and the dashboard and the region. -/
theorem labels_exportMetrics {aws d data labels}
    {name} (h : .checkDashboard labels name ∈ (exportMetrics aws d data).2) :
    ∃ dashboard, labels = dashboardLabels d dashboard := by
  rw [exportMetrics] at h
  split at h
  · simp at h
  · dsimp only at h
    split at h
    · rcases mem_cons.1 h with h | h
      · cases h
      · exact ⟨_, calls_checkDashboards h⟩
    · simp at h

/-- The widget for a metric has the dimensions that the metric is published with: from the exporter if there are no more
labels than dimensions, and from the SageMaker executor if all labels are exported, or if no widget is stored at all. -/
theorem widget_finds_metric_iff (labels : Dict String) (name : String) :
    ((handleEvent labels name).2.Finds (handleEvent labels name).1 ↔
      labels.get? "dashboard-name" = none ∨ labels.get? "task_name" = none ∨ (exported labels.entries).length ≤ 10) ∧
    ∀ aws d data, ∀ metric ∈ tagDimensions d data,
      .checkDashboard labels.entries metric.metricName ∈ (exportMetrics aws d data).2 →
        (Execution.Finds ⟨labels, metric.metricName⟩ metric.dimensions ↔
          d.info.labels.get? "task_name" = none ∨ ∀ label ∈ d.info.labels.entries, label.1 ∉ notExportedLabels) := by
  constructor
  · obtain ⟨hr, he, hget⟩ := labels_handleEvent labels name
    rw [finds_iff hr, he, hget _ (by decide), hget _ (by decide), handleEvent]
    refine or_congr_right (or_congr_right ?_)
    split
    · rename_i hma
      refine iff_of_false (fun heq => ?_) (Nat.not_le.2 hma)
      have hl := congrArg length heq
      rw [length_take] at hl
      exact absurd hma (by rw [cloudwatchMaxDimensions]; omega)
    · rename_i hfew
      exact iff_of_true rfl (Nat.not_lt.1 hfew)
  · intro aws d data metric hm hc
    obtain ⟨dashboard, hla⟩ := labels_exportMetrics hc
    obtain ⟨datum, -, rfl⟩ := mem_map.1 hm
    have hget (key : String) : labels.get? key = (dashboardLabels d dashboard).lookup key := by rw [Dict.get?, hla]
    have hr : (labels.get? "region").isSome = true := by
      rw [hget, dashboardLabels, lookup_assign_self]
      rfl
    have hn : labels.get? "dashboard-name" = some dashboard := by
      rw [hget, dashboardLabels, lookup_assign_ne (by decide), lookup_assign_self]
    have ht : labels.get? "task_name" = d.info.labels.get? "task_name" := by
      rw [hget, dashboardLabels, lookup_assign_ne (by decide), lookup_assign_ne (by decide), Dict.get?]
    have he : exported labels.entries = exported d.info.labels.entries := by
      rw [hla, dashboardLabels, exported_assign (by decide), exported_assign (by decide)]
    rw [finds_iff hr]
    rw [hn, ht, he, exported]
    simp

def labelsWith (n : Nat) : Dict String :=
  .ofFields ([("dashboard-name", "board"), ("task_name", "task")] ++ (range n).map fun i => ("label" ++ toString i, ""))

theorem widget_finds_metric_few : (handleEvent (labelsWith 9) "accuracy").2.Finds (handleEvent (labelsWith 9) "accuracy").1 :=
  (widget_finds_metric_iff _ _).1.2 (.inr (.inr (by decide +kernel)))

/-- With one label more, the widget is for dimensions that nothing is published with. -/
theorem widget_misses_metric :
    ¬(handleEvent (labelsWith 10) "accuracy").2.Finds (handleEvent (labelsWith 10) "accuracy").1 := by
  rw [finds_iff (labels_handleEvent _ _).1]
  decide +kernel

end BenchmarkAi.CloudWatch
