import BenchmarkAi.Executor.Deletion
/-!
# What a cancel comes to

The selectors of `ServiceLabels` are compared with the labels they are meant to ask for, and
`K8SExecutionEngine.cancel` with the objects it is meant to delete. Both deletions of a
cascading cancel look for objects of their own, and the second one has the last word.
-/

open Lib Lib.Selector

namespace BenchmarkAi.Executor

/-! ## Selectors -/

/-- The labels that a selector of `ServiceLabels` is meant to ask for. -/
def HasLabels (service_name client_id key action_id : String) (ls : Labels) : Prop :=
  ls createdByLabel = some service_name ∧ ls clientIdLabel = some client_id ∧ ls key = some action_id

structure SelectorExact (service_name client_id action_id : String) : Prop where
  own : ∀ m : LabelMap, selects (getLabelSelector service_name client_id (some action_id)) m.get = true ↔
    HasLabels service_name client_id actionIdLabel action_id m.get
  as_parent : ∀ m : LabelMap, selects (getLabelSelectorAsParent service_name client_id action_id) m.get = true ↔
    HasLabels service_name client_id parentActionIdLabel action_id m.get
  isolated : ∀ m : LabelMap, ∀ other, m.get actionIdLabel = some other → other ≠ action_id →
    selects (getLabelSelector service_name client_id (some action_id)) m.get = false

/-- Each id is a label value as Kubernetes accepts it. -/
def ValidIds (service_name client_id action_id : String) : Prop :=
  valueOk service_name = true ∧ valueOk client_id = true ∧ valueOk action_id = true

/-- The ids, written behind their keys as Kubernetes reads them, are met by no labels. -/
def UnmetIds (service_name client_id action_id : String) : Prop :=
  SelectsNone (equalities ((createdByLabel, service_name) :: (clientIdLabel, client_id) ::
    if action_id = "" then [] else [(actionIdLabel, action_id)])) ∧
  SelectsNone (equalities [(createdByLabel, service_name), (clientIdLabel, client_id), (parentActionIdLabel, action_id)])

theorem buildLabelSelector_eq (service_name client_id : String) (additional_labels : List (String × String)) :
    buildLabelSelector service_name client_id additional_labels =
      equalities ((createdByLabel, service_name) :: (clientIdLabel, client_id) :: additional_labels) := rfl

theorem isKey_labels : isKey createdByLabel = true ∧ isKey clientIdLabel = true ∧ isKey actionIdLabel = true ∧
    isKey parentActionIdLabel = true := by decide

variable {service_name other : String}

theorem exact_three_iff {client_id key action_id} (hkey : isKey key = true) :
    (∀ m : LabelMap, selects (buildLabelSelector service_name client_id [(key, action_id)]) m.get = true ↔
      HasLabels service_name client_id key action_id m.get) ↔
      ValidIds service_name client_id action_id ∨
        SelectsNone (buildLabelSelector service_name client_id [(key, action_id)]) := by
  have he := @selects_exact_iff [(createdByLabel, service_name), (clientIdLabel, client_id), (key, action_id)]
    (by simp) (by simp [isKey_labels, hkey])
  simpa [ValidIds, HasLabels, buildLabelSelector_eq] using he

def objectLabels {service_name client_id other : String} (hs : valueOk service_name = true)
    (hc : valueOk client_id = true) (ho : valueOk other = true) : LabelMap where
  entries := [(createdByLabel, service_name), (clientIdLabel, client_id), (actionIdLabel, other)]
  valid := by
    have hkeys : keyOk createdByLabel = true ∧ keyOk clientIdLabel = true ∧ keyOk actionIdLabel = true := by decide
    simp [hkeys, hs, hc, ho]

theorem hasLabels_objectLabels {client_id} (hs : valueOk service_name = true) (hc : valueOk client_id = true)
    (ho : valueOk other = true) :
    HasLabels service_name client_id actionIdLabel other (objectLabels hs hc ho).get := ⟨rfl, rfl, rfl⟩

/-- Without an action id all objects of the client are selected. -/
theorem selects_without_action {client_id} (hs : valueOk service_name = true) (hc : valueOk client_id = true)
    (ho : valueOk other = true) : selects (buildLabelSelector service_name client_id []) (objectLabels hs hc ho).get = true := by
  obtain ⟨hse, hcl, -⟩ := hasLabels_objectLabels hs hc ho
  rw [buildLabelSelector_eq, selects_equalities (by simp) (by simp [isKey_labels]) (by simp [hs, hc])]
  simp [hse, hcl]

/-- A selector without an action id is exact only if it selects nothing. -/
theorem exact_two_iff {client_id} :
    (∀ m : LabelMap, selects (buildLabelSelector service_name client_id []) m.get = true ↔
      HasLabels service_name client_id actionIdLabel "" m.get) ↔
      SelectsNone (buildLabelSelector service_name client_id []) := by
  constructor
  · intro h m
    rw [Bool.eq_false_iff]
    intro hm
    obtain ⟨hs, hc, -⟩ := (h m).1 hm
    have ho : valueOk "other" = true := by decide
    have hse := selects_without_action (LabelMap.valueOk_get hs) (LabelMap.valueOk_get hc) ho
    -- the labels have another action id, and not the empty one
    have ha := ((h _).1 hse).2.2
    exact absurd (Option.some.inj ha) (by decide)
  · intro hn m
    constructor
    · intro hm
      rw [hn m] at hm
      cases hm
    · rintro ⟨hs, hc, -⟩
      have hm := (selects_equalities (by simp) (by simp [isKey_labels])
        (by simp [LabelMap.valueOk_get hs, LabelMap.valueOk_get hc])).2
        (by simp [hs, hc] : ∀ kv ∈ [(createdByLabel, service_name), (clientIdLabel, client_id)], m.get kv.1 = some kv.2)
      rw [← buildLabelSelector_eq, hn m] at hm
      cases hm

theorem getLabelSelector_some (service_name client_id action_id : String) :
    getLabelSelector service_name client_id (some action_id) =
      buildLabelSelector service_name client_id (if action_id = "" then [] else [(actionIdLabel, action_id)]) := by
  by_cases ha : action_id = ""
  · subst ha
    rfl
  · rw [getLabelSelector, truthy, bne_iff_ne.2 ha, if_neg ha]
    rfl

theorem own_exact_iff {client_id action_id} :
    (∀ m : LabelMap, selects (getLabelSelector service_name client_id (some action_id)) m.get = true ↔
      HasLabels service_name client_id actionIdLabel action_id m.get) ↔
      ValidIds service_name client_id action_id ∧ action_id ≠ "" ∨
        SelectsNone (getLabelSelector service_name client_id (some action_id)) := by
  rw [getLabelSelector_some]
  by_cases ha : action_id = ""
  · subst ha
    exact exact_two_iff.trans (by simp)
  · rw [if_neg ha, and_iff_left ha]
    exact exact_three_iff isKey_labels.2.2.1

/-- That no other action is met follows. -/
theorem selectorExact_of_both {client_id action_id} : SelectorExact service_name client_id action_id ↔
      (∀ m : LabelMap, selects (getLabelSelector service_name client_id (some action_id)) m.get = true ↔
        HasLabels service_name client_id actionIdLabel action_id m.get) ∧
      ∀ m : LabelMap, selects (getLabelSelectorAsParent service_name client_id action_id) m.get = true ↔
        HasLabels service_name client_id parentActionIdLabel action_id m.get := by
  constructor
  · exact fun h => ⟨h.own, h.as_parent⟩
  · rintro ⟨hown, hp⟩
    refine ⟨hown, hp, fun m other ho hne => ?_⟩
    rw [Bool.eq_false_iff]
    intro hm
    exact hne (Option.some.inj (ho.symm.trans ((hown m).1 hm).2.2))

/-- The selectors are exact if and only if the ids are label values and the action id is not
empty, or no labels at all meet the ids. -/
theorem selector_exact_iff (service_name client_id action_id : String) :
    SelectorExact service_name client_id action_id ↔
      ValidIds service_name client_id action_id ∧ action_id ≠ "" ∨ UnmetIds service_name client_id action_id := by
  refine (selectorExact_of_both.trans (and_congr own_exact_iff (exact_three_iff isKey_labels.2.2.2))).trans ?_
  constructor
  · rintro ⟨hv | hown, hv' | hp⟩
    · exact .inl hv
    · exact .inl hv
    · refine .inl ⟨hv', fun ha => ?_⟩
      -- with valid ids there are objects that the first selector selects
      have hs := selects_without_action hv'.1 hv'.2.1 hv'.2.2
      rw [getLabelSelector_some, if_pos ha] at hown
      rw [hown] at hs
      cases hs
    · rw [getLabelSelector_some] at hown
      exact .inr ⟨hown, hp⟩
  · rintro (⟨hv, ha⟩ | ⟨hown, hp⟩)
    · exact ⟨.inl ⟨hv, ha⟩, .inl hv⟩
    · refine ⟨.inr ?_, .inr hp⟩
      rw [getLabelSelector_some]
      exact hown

def otherAction : LabelMap :=
  objectLabels (by decide : valueOk "executor" = true) (by decide : valueOk "client" = true)
    (by decide : valueOk "action-1" = true)

/-- With an empty action id the objects of other actions of the client are selected. -/
theorem empty_action_selects_others : otherAction.get actionIdLabel = some "action-1" ∧
      selects (getLabelSelector executorService "client" (some "")) otherAction.get = true := by
  refine ⟨rfl, ?_⟩
  exact selects_without_action _ _ _

/-! ## The cancel -/

/-- An object of the action, or, with the label of the parent, of one of its children. -/
def isTarget (client_id action_id key : String) (o : K8sObject) : Bool :=
  allK8sResourceTypes.contains o.resource && o.label createdByLabel == some executorService &&
    o.label clientIdLabel == some client_id && o.label key == some action_id

/-- Ids that `create_label_selector` makes a selector of that reads as it is meant. -/
def LabelIds (client_id action_id : String) : Prop :=
  valueOk client_id = true ∧ valueOk action_id = true ∧ action_id ≠ ""

instance (client_id action_id : String) : Decidable (LabelIds client_id action_id) := inferInstanceAs (Decidable (_ ∧ _ ∧ _))

def cancelTargets (client_id action_id : String) (cascade : Bool) (o : K8sObject) : Bool :=
  isTarget client_id action_id actionIdLabel o || cascade && isTarget client_id action_id parentActionIdLabel o

def cancelSelects (client_id action_id : String) (cascade : Bool) (o : K8sObject) : Bool :=
  selectedBy (createLabelSelector client_id action_id false) o ||
    cascade && selectedBy (createLabelSelector client_id action_id true) o

def cancelled (client_id action_id : String) (cascade : Bool) (c : Cluster) :
    Except EngineError (List (List K8sObject)) × Cluster :=
  cancel (fun _ => .succeeds) client_id action_id cascade c

/-- What a cancel should come to: the targets are gone and the rest is left, and it says that
nothing was found exactly if nothing was deleted. -/
structure CancelOutcome (client_id action_id : String) (cascade : Bool) (c : Cluster) : Prop where
  objects : (cancelled client_id action_id cascade c).2.objects =
    c.objects.filter fun o => !cancelTargets client_id action_id cascade o
  raises : (∃ a, (cancelled client_id action_id cascade c).1 = .error (.noResourcesFound a)) ↔
    (cancelled client_id action_id cascade c).2.deleted = c.deleted

section Run

variable {client_id action_id : String} {cascade : Bool} {c : Cluster}

theorem cancelled_true (h : (parse (createLabelSelector client_id action_id false)).isSome = true) :
    ∃ results, cancelled client_id action_id true c = cancelChildren .succeeds client_id action_id results
      (c.delete (selectedBy (createLabelSelector client_id action_id false))) := by
  rw [cancelled, cancel, cancelOnce_succeeds c h]
  by_cases hf : c.objects.filter (selectedBy (createLabelSelector client_id action_id false)) = []
  · rw [if_pos hf]
    dsimp only
    rw [if_pos rfl]
    exact ⟨_, rfl⟩
  · rw [if_neg hf]
    dsimp only
    rw [if_pos rfl]
    exact ⟨_, rfl⟩

theorem readable_of_cancelled (h : (cancelled client_id action_id cascade c).1 ≠ .error .executionEngine) :
    (parse (createLabelSelector client_id action_id false)).isSome = true ∧
      (cascade = true → (parse (createLabelSelector client_id action_id true)).isSome = true) := by
  have hf : (parse (createLabelSelector client_id action_id false)).isSome = true := by
    rw [← Bool.not_eq_false]
    intro hp
    rw [cancelled, cancel, cancelOnce_unread hp] at h
    exact h rfl
  refine ⟨hf, fun hc => ?_⟩
  rw [← Bool.not_eq_false]
  intro hp
  subst hc
  obtain ⟨results, hr⟩ := cancelled_true (c := c) hf
  rw [hr] at h
  delta cancelChildren at h
  rw [cancelOnce_unread hp] at h
  exact h rfl

def children (client_id action_id : String) (c : Cluster) : List K8sObject :=
  (c.delete (selectedBy (createLabelSelector client_id action_id false))).objects.filter
    (selectedBy (createLabelSelector client_id action_id true))

theorem cancelled_alone (h : (parse (createLabelSelector client_id action_id false)).isSome = true) :
    cancelled client_id action_id false c =
      (if c.objects.filter (selectedBy (createLabelSelector client_id action_id false)) = [] then
          .error (.noResourcesFound action_id)
        else .ok [c.objects.filter (selectedBy (createLabelSelector client_id action_id false))],
        c.delete (selectedBy (createLabelSelector client_id action_id false))) := by
  rw [cancelled, cancel, cancelOnce_succeeds c h]
  by_cases hf : c.objects.filter (selectedBy (createLabelSelector client_id action_id false)) = []
  · rw [if_pos hf, if_pos hf]
    rfl
  · rw [if_neg hf, if_neg hf]
    rfl

theorem cancelled_cascade (h : (parse (createLabelSelector client_id action_id false)).isSome = true)
    (h' : (parse (createLabelSelector client_id action_id true)).isSome = true) :
    ((∃ a, (cancelled client_id action_id true c).1 = .error (.noResourcesFound a)) ↔ children client_id action_id c = []) ∧
      (cancelled client_id action_id true c).2 =
        (c.delete (selectedBy (createLabelSelector client_id action_id false))).delete
          (selectedBy (createLabelSelector client_id action_id true)) := by
  obtain ⟨results, hr⟩ := cancelled_true (c := c) h
  rw [hr]
  delta cancelChildren
  rw [cancelOnce_succeeds _ h', ← children]
  by_cases hf : children client_id action_id c = []
  · rw [if_pos hf]
    exact ⟨iff_of_true ⟨action_id, rfl⟩ hf, rfl⟩
  · rw [if_neg hf]
    exact ⟨iff_of_false nofun hf, rfl⟩

theorem objects_cancelled (h : (cancelled client_id action_id cascade c).1 ≠ .error .executionEngine) :
    (cancelled client_id action_id cascade c).2.objects =
      c.objects.filter fun o => !cancelSelects client_id action_id cascade o := by
  obtain ⟨hf, hs⟩ := readable_of_cancelled h
  cases cascade with
  | false =>
    rw [cancelled_alone hf]
    simp [Cluster.delete, cancelSelects]
  | true =>
    rw [(cancelled_cascade hf (hs rfl)).2]
    simp [Cluster.delete, cancelSelects, List.filter_filter, Bool.and_comm]

/-- It says that nothing was found though it has deleted something, exactly if it cascades,
the action has objects and its children have none. -/
theorem raises_cancelled (h : (cancelled client_id action_id cascade c).1 ≠ .error .executionEngine) :
    ((∃ a, (cancelled client_id action_id cascade c).1 = .error (.noResourcesFound a)) ↔
      (cancelled client_id action_id cascade c).2.deleted = c.deleted) ↔
      (cascade = true → children client_id action_id c = [] →
        ∀ o ∈ c.objects, selectedBy (createLabelSelector client_id action_id false) o = false) := by
  obtain ⟨hf, hs⟩ := readable_of_cancelled h
  have hn : c.objects.filter (selectedBy (createLabelSelector client_id action_id false)) = [] ↔
      ∀ o ∈ c.objects, selectedBy (createLabelSelector client_id action_id false) o = false := by
    rw [List.filter_eq_nil_iff]
    exact forall₂_congr fun o _ => Bool.not_eq_true _ ▸ Iff.rfl
  cases cascade with
  | false =>
    rw [cancelled_alone hf]
    by_cases hfo : c.objects.filter (selectedBy (createLabelSelector client_id action_id false)) = [] <;>
      simp [Cluster.delete, hfo]
  | true =>
    obtain ⟨hr, hd⟩ := cancelled_cascade (c := c) hf (hs rfl)
    have hall : (cancelled client_id action_id true c).2.deleted = c.deleted ↔
        c.objects.filter (selectedBy (createLabelSelector client_id action_id false)) = [] ∧
          children client_id action_id c = [] := by
      rw [hd, ← List.append_eq_nil_iff, ← List.append_right_eq_self, ← List.append_assoc]
      rfl
    rw [hr, hall, hn]
    constructor
    · intro hiff _ hc
      exact (hiff.1 hc).1
    · intro himp
      exact ⟨fun hc => ⟨himp rfl hc, hc⟩, And.right⟩

/-- For ids that are label values, and an action id that is not empty, the selectors select
what they are meant for. -/
theorem selectedBy_of_labelIds (h : LabelIds client_id action_id) (as_parent : Bool) (o : K8sObject) :
    selectedBy (createLabelSelector client_id action_id as_parent) o =
      isTarget client_id action_id (if as_parent then parentActionIdLabel else actionIdLabel) o := by
  obtain ⟨hc, ha, hne⟩ := h
  have he : valueOk executorService = true := by decide
  have hl := @selects_equalities (requirements client_id action_id as_parent) o.label (by simp [requirements])
    (isKey_requirements _ _ _) (by cases as_parent <;> simp [requirements, hne, he, hc, ha])
  rw [selectedBy, isTarget, createLabelSelector_eq, Bool.eq_iff_iff]
  simp only [Bool.and_eq_true, hl, and_assoc]
  cases as_parent <;> simp [requirements, hne]

theorem cancelSelects_of_labelIds (h : LabelIds client_id action_id) (o : K8sObject) :
    cancelSelects client_id action_id cascade o = cancelTargets client_id action_id cascade o := by
  rw [cancelSelects, selectedBy_of_labelIds h, selectedBy_of_labelIds h]
  rfl

theorem children_of_labelIds (h : LabelIds client_id action_id) : children client_id action_id c = [] ↔
      ∀ o ∈ c.objects, isTarget client_id action_id parentActionIdLabel o = true →
        isTarget client_id action_id actionIdLabel o = true := by
  simp only [children, Cluster.delete, List.filter_filter, List.filter_eq_nil_iff, selectedBy_of_labelIds h]
  refine forall₂_congr fun o _ => ?_
  simp

theorem objects_outcome_iff (h : (cancelled client_id action_id cascade c).1 ≠ .error .executionEngine) :
    (cancelled client_id action_id cascade c).2.objects =
      c.objects.filter (fun o => !cancelTargets client_id action_id cascade o) ↔
      ∀ o ∈ c.objects, cancelSelects client_id action_id cascade o = cancelTargets client_id action_id cascade o := by
  rw [objects_cancelled h]
  constructor
  · intro heq o ho
    have hmem : o ∈ c.objects.filter (fun o => !cancelSelects client_id action_id cascade o) ↔
        o ∈ c.objects.filter (fun o => !cancelTargets client_id action_id cascade o) := by rw [heq]
    rw [List.mem_filter, List.mem_filter, and_iff_right ho, and_iff_right ho] at hmem
    exact Bool.not_inj (Bool.eq_iff_iff.2 hmem)
  · intro heq
    exact List.filter_congr fun o ho => by rw [heq o ho]

/-- A cancel that does not fail comes to what it should, for ids that are label values, exactly
if it does not cascade, or the action has a child that is not an object of its own, or it has no
objects; for other ids exactly if their text happens to select the right objects of the cluster. -/
theorem cancel_outcome_iff (h : (cancelled client_id action_id cascade c).1 ≠ .error .executionEngine) :
    CancelOutcome client_id action_id cascade c ↔
      if LabelIds client_id action_id then
        cascade = true →
          (∃ o ∈ c.objects, isTarget client_id action_id parentActionIdLabel o = true ∧
            isTarget client_id action_id actionIdLabel o = false) ∨
          ∀ o ∈ c.objects, isTarget client_id action_id actionIdLabel o = false
      else
        (∀ o ∈ c.objects, cancelSelects client_id action_id cascade o = cancelTargets client_id action_id cascade o) ∧
          (cascade = true → children client_id action_id c = [] →
            ∀ o ∈ c.objects, selectedBy (createLabelSelector client_id action_id false) o = false) := by
  have hout : CancelOutcome client_id action_id cascade c ↔
      (∀ o ∈ c.objects, cancelSelects client_id action_id cascade o = cancelTargets client_id action_id cascade o) ∧
        (cascade = true → children client_id action_id c = [] →
          ∀ o ∈ c.objects, selectedBy (createLabelSelector client_id action_id false) o = false) := by
    rw [← raises_cancelled h, ← objects_outcome_iff h]
    exact ⟨fun ho => ⟨ho.objects, ho.raises⟩, fun ho => ⟨ho.1, ho.2⟩⟩
  split
  case isTrue hid =>
    rw [hout, and_iff_right fun o _ => cancelSelects_of_labelIds hid o]
    simp only [children_of_labelIds hid, selectedBy_of_labelIds hid]
    refine imp_congr_right fun _ => ?_
    rw [Classical.or_iff_not_imp_left]
    simp
  case isFalse => exact hout

end Run

def scheduledOnly : Cluster :=
  ⟨[⟨"cronjobs", [("created-by", "executor"), ("client-id", "client"), ("action-id", "action-1")]⟩,
    ⟨"jobs", [("created-by", "executor"), ("client-id", "other-client"), ("action-id", "action-1")]⟩], []⟩

/-- The same with a run of the scheduled benchmark. -/
def scheduledRun : Cluster :=
  ⟨⟨"jobs", [("created-by", "executor"), ("client-id", "client"), ("action-id", "run-1"), ("parent-action-id", "action-1")]⟩ ::
    scheduledOnly.objects, []⟩

theorem cancel_outcome_cascade : (cancelled "client" "action-1" true scheduledRun).1 ≠ .error .executionEngine ∧
      CancelOutcome "client" "action-1" true scheduledRun := by
  have hrun : (cancelled "client" "action-1" true scheduledRun).1 ≠ .error .executionEngine := by decide +kernel
  refine ⟨hrun, (cancel_outcome_iff hrun).2 ?_⟩
  rw [if_pos (by decide)]
  exact fun _ => .inl ⟨_, List.mem_cons_self, by decide⟩

/-- A cascading cancel deletes the scheduled benchmark, and then says that it has found
nothing. -/
theorem cascade_denies_deletion : cancelled "client" "action-1" true scheduledOnly =
      (.error (.noResourcesFound "action-1"),
        ⟨[⟨"jobs", [("created-by", "executor"), ("client-id", "other-client"), ("action-id", "action-1")]⟩],
          [⟨"cronjobs", [("created-by", "executor"), ("client-id", "client"), ("action-id", "action-1")]⟩]⟩) := by
  decide +kernel

end BenchmarkAi.Executor
