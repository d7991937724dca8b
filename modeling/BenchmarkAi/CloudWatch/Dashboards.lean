import BenchmarkAi.Lib.Environ
import BenchmarkAi.Lib.Runs
/-!
# Dashboards

`check_dashboard` of `cloudwatch_exporter/cloudwatch_exporter.py`, which the replicas of the
exporter and the SageMaker executor call for each metric. It looks whether the dashboard is
listed, reads it, and puts it back as a whole with one more widget. The executions share only
CloudWatch; a step is one call of it.
-/

open Lib List

namespace BenchmarkAi.CloudWatch

/-! ## Widgets -/

structure Widget where
  type : String
  properties : List (String × Tree)
  layout : List (String × Tree) := []

structure Dashboard where
  widgets : List Widget
  settings : List (String × Tree) := []

inductive Raised
  | keyError (key : String)
  | indexError
  | typeError
  | resourceNotFound
deriving DecidableEq, Repr

def Widget.firstMetric (widget : Widget) : Except Raised (Option Tree) :=
  match widget.properties.lookup "metrics" with
  | none => .ok none
  | some (.arr (metric :: _)) => .ok (some metric)
  | some (.arr []) => .error .indexError
  | some _ => .error .typeError

def notExportedLabels : List String := ["action-id", "parent-action-id", "client-id", "dashboard-name", "region"]

structure Execution where
  labels : Dict String
  metric_name : String

def Execution.metric (e : Execution) : List String :=
  ["ANUBIS/METRICS", e.metric_name] ++
    e.labels.entries.flatMap fun label => if label.1 ∈ notExportedLabels then [] else [label.1, label.2]

def strings (texts : List String) : Tree := .arr (texts.map .str)

def Execution.label (e : Execution) (key : String) : Except Raised String :=
  match e.labels.get? key with
  | some value => .ok value
  | none => .error (.keyError key)

def Execution.widget (e : Execution) : Except Raised Widget := do
  let region ← e.label "region"
  let title ← e.label "task_name"
  return {
    type := "metric"
    properties := [("metrics", .arr [strings e.metric]), ("region", .str region), ("title", .str title),
      ("period", .num 86400)] }

def findMetric (metric : List String) : List Widget → Except Raised Bool
  | [] => .ok false
  | widget :: widgets =>
    match widget.firstMetric with
    | .error r => .error r
    | .ok none => findMetric metric widgets
    | .ok (some first) => if first.pyEq (strings metric) then .ok true else findMetric metric widgets

/-! ## Executions -/

inductive Pc
  | start
  | found (name : String)
  | absent (name : String) (widget : Widget)
  | read (name : String) (body : Dashboard) (widget : Widget)
  | finished (result : Except Raised Unit)

/-- `check_dashboard`, with the names on the page that `list_dashboards` returns, as far as the next
call. -/
def checkDashboard (e : Execution) (page : List String) : Pc :=
  match e.labels.get? "dashboard-name" with
  | none => .finished (.ok ())
  | some name =>
    if name ∈ page then .found name
    else
      -- `create_dashboard`
      match e.widget with
      | .error r => .finished (.error r)
      | .ok widget => .absent name widget

def updateDashboard (e : Execution) (name : String) : Option Dashboard → Pc
  | none => .finished (.error .resourceNotFound)
  | some body =>
    match findMetric e.metric body.widgets with
    | .error r => .finished (.error r)
    | .ok true => .finished (.ok ())
    | .ok false =>
      match e.widget with
      | .error r => .finished (.error r)
      | .ok widget => .read name body widget

structure State (ι : Type) where
  dashboards : Dict Dashboard
  pcs : ι → Pc

inductive Call
  | list | get | put
deriving DecidableEq, Repr

variable {ι : Type} [DecidableEq ι] (firstPage : List String → List String) (jobs : ι → Execution)

def step (s : State ι) : ι × Call → Option (State ι)
  | (i, .list) =>
    match s.pcs i with
    | .start =>
      let page := firstPage (s.dashboards.entries.map Prod.fst)
      some { s with pcs := Function.update s.pcs i (checkDashboard (jobs i) page) }
    | _ => none
  | (i, .get) =>
    match s.pcs i with
    | .found name =>
      some { s with pcs := Function.update s.pcs i (updateDashboard (jobs i) name (s.dashboards.get? name)) }
    | _ => none
  | (i, .put) =>
    match s.pcs i with
    | .absent name widget =>
      some ⟨s.dashboards.set name ⟨[widget], []⟩, Function.update s.pcs i (.finished (.ok ()))⟩
    | .read name body widget =>
      some ⟨s.dashboards.set name { body with widgets := body.widgets ++ [widget] },
        Function.update s.pcs i (.finished (.ok ()))⟩
    | _ => none

def State.init (dashboards : Dict Dashboard) : State ι := ⟨dashboards, fun _ => .start⟩

/-! ## What is to hold -/

def widgetsOf (dashboards : Dict Dashboard) (name : String) : List Widget :=
  ((dashboards.get? name).map (·.widgets)).getD []

def Widget.shows (metric : List String) (widget : Widget) : Bool :=
  match widget.firstMetric with
  | .ok (some first) => first.pyEq (strings metric)
  | _ => false

/-- The dashboards keep the widgets they had, and get one for each metric that they did not show. -/
structure LosesNothing (before after : Dict Dashboard) : Prop where
  keeps : ∀ name, (widgetsOf before name).Sublist (widgetsOf after name)
  once : ∀ i name, (jobs i).labels.get? "dashboard-name" = some name →
    (∀ widget ∈ widgetsOf before name, widget.shows (jobs i).metric = false) →
    (widgetsOf after name).countP (Widget.shows (jobs i).metric) = 1

/-- A put finds the dashboard as the execution saw it last. -/
def Fresh (s : State ι) (call : ι × Call) : Prop :=
  call.2 = .put →
    match s.pcs call.1 with
    | .absent name _ => widgetsOf s.dashboards name = []
    | .read name body _ => widgetsOf s.dashboards name = body.widgets
    | _ => True

/-! ## Metrics -/

theorem pyEq_strings (texts texts' : List String) : (strings texts).pyEq (strings texts') = decide (texts = texts') := by
  have hi : ∀ texts texts' : List String,
      Tree.pyEqItems (texts.map .str) (texts'.map .str) = decide (texts = texts') := by
    intro texts
    induction texts with
    | nil =>
      intro texts'
      cases texts' <;> simp [Tree.pyEqItems]
    | cons text texts ih =>
      intro texts'
      cases texts' with
      | nil => simp [Tree.pyEqItems]
      | cons text' texts' => simp [Tree.pyEqItems, Tree.pyEq, ih, Bool.beq_eq_decide_eq]
  simpa [strings, Tree.pyEq] using hi texts texts'

variable {e : Execution} {widgets : List Widget} {i : ι}

theorem shows_widget {widget : Widget} (h : e.widget = .ok widget) (metric : List String) :
    widget.shows metric = decide (e.metric = metric) := by
  rw [Execution.widget] at h
  cases hr : e.label "region" with
  | error r => rw [hr] at h; cases h
  | ok region =>
    cases ht : e.label "task_name" with
    | error r => rw [hr, ht] at h; cases h
    | ok title =>
      rw [hr, ht] at h
      cases h
      exact pyEq_strings e.metric metric

theorem shows_of_findMetric_false {metric} (h : findMetric metric widgets = .ok false) :
    ∀ widget ∈ widgets, widget.shows metric = false := by
  induction widgets with
  | nil => exact fun _ hmem => absurd hmem not_mem_nil
  | cons widget widgets ih =>
    rw [findMetric] at h
    refine forall_mem_cons.2 ?_
    rw [Widget.shows]
    split at h
    · cases h
    · rename_i hf
      exact ⟨by rw [hf], ih h⟩
    · rename_i first hf
      split at h
      · cases h
      · rename_i hne
        exact ⟨by rw [hf]; simpa using hne, ih h⟩

theorem shows_of_findMetric_true {metric} (h : findMetric metric widgets = .ok true) :
    ∃ widget ∈ widgets, widget.shows metric = true := by
  induction widgets with
  | nil => cases h
  | cons widget widgets ih =>
    rw [findMetric] at h
    split at h
    · cases h
    · obtain ⟨other, hmem, hs⟩ := ih h
      exact ⟨other, .tail _ hmem, hs⟩
    · rename_i first hf
      split at h
      · rename_i heq
        exact ⟨widget, .head _, by rw [Widget.shows, hf]; exact heq⟩
      · obtain ⟨other, hmem, hs⟩ := ih h
        exact ⟨other, .tail _ hmem, hs⟩

theorem countP_shows_eq_zero {metric} (h : ∀ widget ∈ widgets, widget.shows metric = false) :
    widgets.countP (Widget.shows metric) = 0 :=
  countP_eq_zero.2 fun widget hmem => by simp [h widget hmem]

/-! ## Steps -/

section Steps

variable {firstPage jobs} {s t : State ι} {before : Dict Dashboard}

theorem widgetsOf_set_self (dashboards : Dict Dashboard) (name : String) (body : Dashboard) :
    widgetsOf (dashboards.set name body) name = body.widgets := by
  rw [widgetsOf, Dict.get?_set_self]
  rfl

theorem widgetsOf_set_ne (dashboards : Dict Dashboard) {name name'} (h : name' ≠ name) (body : Dashboard) :
    widgetsOf (dashboards.set name body) name' = widgetsOf dashboards name' := by
  rw [widgetsOf, Dict.get?_set_ne _ h, widgetsOf]

def Pc.Sound (e : Execution) (dashboards : Dict Dashboard) : Pc → Prop
  | .start => True
  | .found name => e.labels.get? "dashboard-name" = some name
  | .absent name widget => e.labels.get? "dashboard-name" = some name ∧ e.widget = .ok widget
  | .read name body widget =>
    e.labels.get? "dashboard-name" = some name ∧ e.widget = .ok widget ∧
      ∀ other ∈ body.widgets, other.shows e.metric = false
  | .finished (.ok ()) =>
    ∀ name, e.labels.get? "dashboard-name" = some name → ∃ widget ∈ widgetsOf dashboards name, widget.shows e.metric = true
  | .finished (.error _) => True

theorem sound_checkDashboard (e : Execution) (dashboards : Dict Dashboard) (page : List String) :
    (checkDashboard e page).Sound e dashboards := by
  rw [checkDashboard]
  split
  · rename_i hn
    intro name hna
    rw [hn] at hna
    cases hna
  · rename_i name hna
    split
    · exact hna
    · split
      · trivial
      · rename_i hw
        exact ⟨hna, hw⟩

theorem sound_updateDashboard {e : Execution} {dashboards : Dict Dashboard} {name}
    (h : e.labels.get? "dashboard-name" = some name) :
    (updateDashboard e name (dashboards.get? name)).Sound e dashboards := by
  cases hget : dashboards.get? name with
  | none => trivial
  | some body =>
    rw [updateDashboard]
    split
    · trivial
    · rename_i hf
      intro name' hn'
      obtain rfl := Option.some.inj (h.symm.trans hn')
      rw [widgetsOf, hget]
      exact shows_of_findMetric_true hf
    · rename_i hf
      split
      · trivial
      · rename_i hw
        exact ⟨h, hw, shows_of_findMetric_false hf⟩

theorem Pc.Sound.mono {dashboards dashboards'} {pc : Pc} (h : pc.Sound e dashboards)
    (hsub : ∀ name, (widgetsOf dashboards name).Sublist (widgetsOf dashboards' name)) : pc.Sound e dashboards' := by
  cases pc with
  | finished result =>
    cases result with
    | error r => trivial
    | ok u =>
      intro name hn
      obtain ⟨widget, hmem, hs⟩ := h name hn
      exact ⟨widget, (hsub name).subset hmem, hs⟩
  | start => trivial
  | found name => exact h
  | absent name widget => exact h
  | read name body widget => exact h

/-- A step of the execution `i`: it goes on without a change of the dashboards, or it adds its
widget to its dashboard, where its metric is not shown. -/
inductive Moves (jobs : ι → Execution) (s : State ι) (i : ι) : State ι → Prop
  | think (pc : Pc) : pc.Sound (jobs i) s.dashboards → Moves jobs s i { s with pcs := Function.update s.pcs i pc }
  | add (name : String) (widget : Widget) (dashboards : Dict Dashboard) :
    (jobs i).labels.get? "dashboard-name" = some name → (jobs i).widget = .ok widget →
    (∀ other ∈ widgetsOf s.dashboards name, other.shows (jobs i).metric = false) →
    (∀ name', widgetsOf dashboards name' =
      if name' = name then widgetsOf s.dashboards name ++ [widget] else widgetsOf s.dashboards name') →
    Moves jobs s i ⟨dashboards, Function.update s.pcs i (.finished (.ok ()))⟩

theorem moves_of_step {call} (hs : ∀ i, (s.pcs i).Sound (jobs i) s.dashboards) (hf : Fresh s (i, call))
    (h : step firstPage jobs s (i, call) = some t) : Moves jobs s i t := by
  have hset (name : String) (body : Dashboard) (widgets : List Widget) (hb : body.widgets = widgets) (name' : String) :
      widgetsOf (s.dashboards.set name body) name' = if name' = name then widgets else widgetsOf s.dashboards name' := by
    split
    · rename_i heq
      rw [heq, widgetsOf_set_self, hb]
    · rename_i hne
      exact widgetsOf_set_ne _ hne _
  cases call with
  | list =>
    rw [step] at h
    split at h
    · cases h
      exact .think _ (sound_checkDashboard _ _ _)
    · cases h
  | get =>
    rw [step] at h
    split at h
    · rename_i name hpc
      cases h
      have hn := hs i
      rw [hpc] at hn
      exact .think _ (sound_updateDashboard hn)
    · cases h
  | put =>
    have hf := hf rfl
    have hpc := hs i
    rw [step] at h
    split at h
    · rename_i name widget heq
      cases h
      rw [heq] at hf hpc
      refine .add name widget _ hpc.1 hpc.2 (by simp [hf]) (hset name _ _ ?_)
      rw [hf, nil_append]
    · rename_i name body widget heq
      cases h
      rw [heq] at hf hpc
      refine .add name widget _ hpc.1 hpc.2.1 (by rw [hf]; exact hpc.2.2) (hset name _ _ ?_)
      rw [hf]
    · cases h

structure Inv (jobs : ι → Execution) (before : Dict Dashboard) (s : State ι) : Prop where
  sound : ∀ i, (s.pcs i).Sound (jobs i) s.dashboards
  keeps : ∀ name, (widgetsOf before name).Sublist (widgetsOf s.dashboards name)
  once : ∀ name metric, (∀ widget ∈ widgetsOf before name, widget.shows metric = false) →
    (widgetsOf s.dashboards name).countP (Widget.shows metric) ≤ 1

omit [DecidableEq ι] in
theorem inv_init (before : Dict Dashboard) : Inv jobs before (.init before) where
  sound _ := trivial
  keeps _ := Sublist.refl _
  once name metric h := by
    change (widgetsOf before name).countP _ ≤ 1
    rw [countP_shows_eq_zero h]
    exact Nat.zero_le 1

theorem inv_moves (hi : Inv jobs before s) (h : Moves jobs s i t) : Inv jobs before t := by
  cases h with
  | think pc hpc =>
    refine ⟨fun j => ?_, hi.keeps, hi.once⟩
    by_cases hj : j = i
    · subst hj
      simpa using hpc
    · simpa [Function.update_of_ne hj] using hi.sound j
  | add name widget dashboards hn hw hno hwi =>
    have hsub (name' : String) : (widgetsOf s.dashboards name').Sublist (widgetsOf dashboards name') := by
      rw [hwi]
      split
      · rename_i heq
        rw [heq]
        exact sublist_append_left _ _
      · exact Sublist.refl _
    refine ⟨fun j => ?_, fun name' => (hi.keeps name').trans (hsub name'), fun name' metric hb => ?_⟩
    · by_cases hj : j = i
      · subst hj
        simp only [Function.update_self]
        intro name' hn'
        obtain rfl := Option.some.inj (hn.symm.trans hn')
        refine ⟨widget, ?_, ?_⟩
        · rw [hwi, if_pos rfl]
          exact mem_append_right _ (mem_singleton_self _)
        · rw [shows_widget hw, decide_eq_true rfl]
      · simp only [Function.update_of_ne hj]
        exact (hi.sound j).mono hsub
    · rw [hwi]
      split
      · rename_i heq
        subst heq
        rw [countP_append, countP_singleton, shows_widget hw]
        split
        · -- the metric of the execution was not shown
          rename_i hm
          rw [of_decide_eq_true hm] at hno
          have hz := countP_shows_eq_zero hno
          omega
        · exact hi.once name' metric hb
      · exact hi.once name' metric hb

theorem inv_step {call} (hi : Inv jobs before s) (hf : Fresh s call)
    (h : step firstPage jobs s call = some t) : Inv jobs before t :=
  inv_moves hi (moves_of_step hi.sound hf h)

/-- A dashboard that is not on the page is replaced by one that has only the widget. -/
theorem unlisted_replaced {name widget} (hn : (jobs i).labels.get? "dashboard-name" = some name)
    (hw : (jobs i).widget = .ok widget) (hp : name ∉ firstPage (before.entries.map Prod.fst)) :
    ∃ t, exec (step firstPage jobs) (.init before) [(i, .list), (i, .put)] = some t ∧
      widgetsOf t.dashboards name = [widget] := by
  have hpc : checkDashboard (jobs i) (firstPage (before.entries.map Prod.fst)) = .absent name widget := by
    simp [checkDashboard, hn, hw, hp]
  let replaced : State ι := ⟨before.set name ⟨[widget], []⟩,
    Function.update (Function.update (fun _ => .start) i (.absent name widget)) i (.finished (.ok ()))⟩
  refine ⟨replaced, ?_, widgetsOf_set_self before name ⟨[widget], []⟩⟩
  simp [exec_cons, step, State.init, hpc, replaced]

end Steps

/-- If all executions come to their end, and each put finds the dashboard as its execution saw it, no
widget is lost, and each metric has got its own. -/
theorem dashboards_lose_nothing {firstPage : List String → List String} {jobs : ι → Execution} {before : Dict Dashboard}
    {s : State ι} {calls : List (ι × Call)} (hrun : exec (step firstPage jobs) (.init before) calls = some s)
    (hdone : ∀ i, s.pcs i = .finished (.ok ()))
    (hfresh : Along (step firstPage jobs) Fresh (.init before) calls) : LosesNothing jobs before s.dashboards := by
  have hinv : Inv jobs before s :=
    exec_inv_along (Inv jobs before) (fun _ _ _ hi hf h => inv_step hi hf h) (inv_init before) hfresh hrun
  refine ⟨hinv.keeps, fun i name hn hb => ?_⟩
  have hs := hinv.sound i
  rw [hdone i] at hs
  obtain ⟨widget, hmem, hsh⟩ := hs name hn
  have hpos : 0 < (widgetsOf s.dashboards name).countP (Widget.shows (jobs i).metric) :=
    countP_pos_iff.2 ⟨widget, hmem, hsh⟩
  exact Nat.le_antisymm (hinv.once name _ hb) hpos

def twoMetrics (second : Bool) : Execution where
  labels := ⟨[("task_name", "train"), ("dashboard-name", "board"), ("region", "us-east-1")], by decide⟩
  metric_name := if second then "loss" else "accuracy"

def serialCalls : List (Bool × Call) := [(false, .list), (false, .put), (true, .list), (true, .get), (true, .put)]

theorem dashboards_lose_nothing_serial : ∃ s, exec (step (take 1000) twoMetrics) (.init .empty) serialCalls = some s ∧
    (∀ i, s.pcs i = .finished (.ok ())) ∧ LosesNothing twoMetrics .empty s.dashboards := by
  have hrun : ∃ s, exec (step (take 1000) twoMetrics) (.init .empty) serialCalls = some s ∧
      ∀ i, s.pcs i = .finished (.ok ()) := ⟨_, rfl, fun i => by cases i <;> rfl⟩
  have hf : Along (step (take 1000) twoMetrics) Fresh (.init .empty) serialCalls := by
    refine ⟨fun h => absurd h (by decide), fun _ h₁ => ?_⟩
    cases h₁
    refine ⟨fun _ => rfl, fun _ h₂ => ?_⟩
    cases h₂
    refine ⟨fun h => absurd h (by decide), fun _ h₃ => ?_⟩
    cases h₃
    refine ⟨fun h => absurd h (by decide), fun _ h₄ => ?_⟩
    cases h₄
    exact ⟨fun _ => rfl, fun _ _ => trivial⟩
  obtain ⟨s, hs, hd⟩ := hrun
  exact ⟨s, hs, hd, dashboards_lose_nothing hs hd hf⟩

/-- Both executions see that the dashboard is not there; the second one puts it without the widget
of the first. -/
theorem concurrent_put_loses_widget : ∃ s, exec (step (take 1000) twoMetrics) (.init .empty)
      [(false, .list), (true, .list), (false, .put), (true, .put)] = some s ∧
    (∀ i, s.pcs i = .finished (.ok ())) ∧
    (widgetsOf s.dashboards "board").countP (Widget.shows (twoMetrics false).metric) = 0 :=
  ⟨_, rfl, fun i => by cases i <;> rfl, rfl⟩

end BenchmarkAi.CloudWatch
