import BenchmarkAi.Pusher.Labels
/-!
# The labels of the objects and those of the metrics

Custom labels, dashboard, region and the parent action are written twice by each builder: as
labels of all objects, and as variables of the metrics pusher. The names of the variables are in
upper case, and of several variables with one name the last one counts.
`metric_labels_agree_iff` says when both come to the same.
-/

open Lib BenchmarkAi.Transpiler
open List hiding after

namespace BenchmarkAi.Pusher

/-! ## What is set -/

def given (k : String) (v : Option String) : List (String × String) := if truthy v then [(k, v.getD "")] else []

variable {kv : String × String} {h : RootObjectHelper} {vars : List (String × String)} {v : Values}

theorem mem_given {k v} : kv ∈ given k v ↔ truthy v = true ∧ kv.1 = k ∧ v = some kv.2 := by
  obtain ⟨k', v'⟩ := kv
  unfold given
  cases v with
  | none => simp [truthy]
  | some s =>
    split
    · simp [*, eq_comm]
    · simp [*]

def dashboard (r : Request) : Option String := r.descriptor.custom_params.bind (·.dashboard)

def region (r : Request) : Option String := r.descriptor.custom_params.bind (·.region)

def customParams (r : Request) : List (String × String) := given "dashboard-name" (dashboard r) ++ given "region" (region r)

def builderParams (r : Request) : List (String × String) :=
  customParams r ++ given "parent-action-id" r.event.parent_action_id

def setLabels (r : Request) : List (String × String) :=
  builderParams r ++ r.descriptor.info.labels.entries.filter fun kv => ((builderParams r).lookup kv.1).isNone

/-! ## On the objects -/

/-- The label `k` of an object after the builder's own assignments. The label `region` gets the
dashboard. -/
def assigned (r : Request) (k : String) (old : Option String) : Option String :=
  if k = "parent-action-id" ∧ truthy r.event.parent_action_id then r.event.parent_action_id
  else if k = "region" ∧ truthy (region r) then dashboard r
  else if k = "dashboard-name" ∧ truthy (dashboard r) then dashboard r
  else old

theorem after_doIf (c : Bool) (k' : String) (v : Option String) (k : String) (old : Option String) :
    after (if c then [(k', labelValue v)] else []) k old = if k = k' ∧ c then v else old := by
  cases c with
  | false => simp [after]
  | true =>
    have hv : (labelValue v).asString = v := by cases v <;> rfl
    simp [after, hv, eq_comm]

theorem assigned_twice (r : Request) (k : String) (old : Option String) :
    assigned r k (assigned r k old) = assigned r k old := by
  unfold assigned
  split
  · rfl
  · split
    · rfl
    · split <;> rfl

section After
variable (r : Request) (k : String) (old : Option String)

theorem after_customParams : after (customParamLabels r.descriptor.custom_params) k old =
    if k = "region" ∧ truthy (region r) then dashboard r
    else if k = "dashboard-name" ∧ truthy (dashboard r) then dashboard r else old := by
  rw [customParamLabels, after_append, after_doIf, after_doIf]
  rfl

theorem after_benchmarkLabels (h : r.descriptor.output.isSome = true) : after (benchmarkLabels r) k old = assigned r k old := by
  rw [benchmarkLabels, h, if_pos rfl, after_append, after_customParams, parentLabels, after_doIf, assigned]

theorem after_serverLabels :
    after (parentLabels r.event.parent_action_id ++ customParamLabels r.descriptor.custom_params) k old =
      assigned r k old := by
  rw [after_append, after_customParams, parentLabels, after_doIf, assigned]
  by_cases hk : k = "parent-action-id"
  · subst hk
    simp
  · simp [hk]

end After

def ShowsLabels (r : Request) (h : RootObjectHelper) : Prop :=
  ∀ obj ∈ h.objects, ∀ k, ∃ old, labelOf obj k = assigned r k ((r.descriptor.info.labels.get? k).or old)

theorem showsLabels_build {o} {r : Request} {t v update B}
    (hA : Assigns B update) (hB : ∀ k old, after B k old = assigned r k old) (hs : Scalars o t v)
    (hok : build o t v r.descriptor.info.labels update = .ok h) : ShowsLabels r h := by
  intro obj hobj k
  obtain ⟨h₀, hf, hrel⟩ := relabels_build hA hok
  obtain ⟨d, hd, hdo⟩ := exists_of_forall₂ hrel hobj
  obtain ⟨v, docs, rfl, hr⟩ := hs
  have hm := (fillTemplate_labels hr hf hd).metadata
  rw [labelOf_built hdo hm, hB, customized, if_pos hm]
  exact ⟨_, rfl⟩

theorem showsLabels_benchmark {o} {r : Request} (hok : buildBenchmark o r = .ok h)
    (hs : Scalars o r.descriptor.hardware.strategy.template (benchmarkValues o r)) (ho : r.descriptor.output.isSome = true) :
    ShowsLabels r h := by
  obtain ⟨scripts, -, hok⟩ := bind_ok.1 hok
  have hl (k : String) (old : Option String) := after_benchmarkLabels r k old ho
  have hsi := assigns_singleRunUpdate o r scripts
  have hh := assigns_horovodUpdate o r scripts
  unfold benchmarkUpdate at hok
  split at hok
  · exact showsLabels_build hsi hl hs hok
  · exact showsLabels_build hsi hl hs hok
  · refine showsLabels_build hh (fun k old => ?_) hs hok
    rw [after_append, hl, hl, assigned_twice]

theorem showsLabels_server {o r} {server : ServerDescriptor} (hok : buildInferenceServer o r server = .ok h)
    (hs : Scalars o .inference_server_job (serverValues o r server)) (ho : server.output.isSome = true) : ShowsLabels r h := by
  have hse := assigns_inferenceServerUpdate o r server
  rw [ho] at hse
  exact showsLabels_build hse (after_serverLabels r) hs hok

theorem assigned_setLabels {r : Request} (hr : truthy (region r) = true → dashboard r = region r) (hkv : kv ∈ setLabels r)
    (old : Option String) : assigned r kv.1 ((r.descriptor.info.labels.get? kv.1).or old) = some kv.2 := by
  obtain ⟨k, v⟩ := kv
  unfold assigned
  rcases mem_append.1 hkv with hkv | hkv
  · rcases mem_append.1 hkv with hkv | hkv
    · rcases mem_append.1 hkv with hkv | hkv
      · obtain ⟨ht, rfl, hv⟩ := mem_given.1 hkv
        rw [if_neg (by simp), if_neg (by simp), if_pos ⟨rfl, ht⟩, hv]
      · obtain ⟨ht, rfl, hv⟩ := mem_given.1 hkv
        rw [if_neg (by simp), if_pos ⟨rfl, ht⟩, hr ht, hv]
    · obtain ⟨ht, rfl, hv⟩ := mem_given.1 hkv
      rw [if_pos ⟨rfl, ht⟩, hv]
  · -- a custom label, and the builder has none with its key
    obtain ⟨hkv, hno⟩ := mem_filter.1 hkv
    rw [Option.isNone_iff_eq_none, lookup_eq_none] at hno
    have ho {k' : String} {w : Option String} (hw : given k' w ⊆ builderParams r) : ¬(k = k' ∧ truthy w = true) := by
      rintro ⟨rfl, ht⟩
      obtain ⟨s, rfl⟩ : ∃ s, w = some s := by
        cases w with
        | none => cases ht
        | some s => exact ⟨s, rfl⟩
      exact hno (mem_map.2 ⟨(k, s), hw (mem_given.2 ⟨ht, rfl, rfl⟩), rfl⟩)
    have hl : r.descriptor.info.labels.get? k = some v :=
      (mem_entries_iff_lookup r.descriptor.info.labels.nodup).1 hkv
    rw [if_neg (ho (subset_append_right _ _)), if_neg (ho ?_), if_neg (ho ?_), hl]
    · rfl
    · exact fun kv h => mem_append_left _ (mem_append_left _ h)
    · exact fun kv h => mem_append_left _ (mem_append_right _ h)

/-! ## On the pushers -/

def lastVar (c : Tree) (name : String) : Option String :=
  (((listOf "env" c).reverse.find? fun var => nameOf var = some name).bind (·.get? "value")).bind (·.asString)

def lastValue (upper : String → String) (kvs : List (String × String)) (k : String) : Option String :=
  (kvs.reverse.find? fun kv => upper kv.1 = upper k).map Prod.snd

section LastValue
variable {upper : String → String} {kvs : List (String × String)} {k : String}

theorem lastValue_append (kvs' : List (String × String)) :
    lastValue upper (kvs ++ kvs') k = (lastValue upper kvs' k).or (lastValue upper kvs k) := by
  rw [lastValue, reverse_append, find?_append, Option.map_or, ← lastValue, ← lastValue]

theorem lastValue_congr {k'} (h : upper k = upper k') : lastValue upper kvs k = lastValue upper kvs k' := by
  rw [lastValue, lastValue, h]

theorem lastValue_eq_none : lastValue upper kvs k = none ↔ ∀ kv ∈ kvs, upper kv.1 ≠ upper k := by
  rw [lastValue, Option.map_eq_none_iff]
  simp

theorem lastValue_mem {v} (h : lastValue upper kvs k = some v) : ∃ kv ∈ kvs, upper kv.1 = upper k ∧ kv.2 = v := by
  obtain ⟨kv, hkv, rfl⟩ := Option.map_eq_some_iff.1 h
  exact ⟨kv, mem_reverse.1 (mem_of_find?_eq_some hkv), by simpa using find?_some hkv, rfl⟩

end LastValue

theorem lastVar_pusher {o : Outside} {E c} (h : PusherShows E (vars.map fun kv => labelVar o kv.1 kv.2) c) :
    ∃ base, E base ∧ ∀ k, lastVar c (labelName o k) = (lastValue o.upper vars k).or
      (((base.reverse.find? fun var => nameOf var = some (labelName o k)).bind (·.get? "value")).bind (·.asString)) := by
  obtain ⟨base, hb, henv⟩ := h.env
  refine ⟨base, hb, fun k => ?_⟩
  have hn (kv : String × String) : nameOf (labelVar o kv.1 kv.2) = some (labelName o k) ↔ o.upper kv.1 = o.upper k := by
    have hkv : nameOf (labelVar o kv.1 kv.2) = some (labelName o kv.1) := rfl
    rw [hkv, Option.some.injEq, labelName, labelName, String.append_right_inj]
  rw [lastVar, listOf_of_get? henv, reverse_append, find?_append, ← map_reverse, find?_map, lastValue]
  simp only [Function.comp_def, hn]
  cases vars.reverse.find? fun kv => decide (o.upper kv.1 = o.upper k) <;> rfl

theorem nameOf_pusherEnv {o base} (h : PusherEnv o v base) {var} (hvar : var ∈ base) :
    ∃ name ∈ templateNames, nameOf var = some name := by
  obtain ⟨d, hd, hr⟩ := exists_of_forall₂ (forall₂_read h) hvar
  have hn : (Template.pusherEnv v).map Doc.name? = templateNames.map some := rfl
  have hna : d.name? ∈ templateNames.map some := hn ▸ mem_map_of_mem hd
  obtain ⟨name, hmem, hna⟩ := mem_map.1 hna
  exact ⟨name, hmem, nameOf_read hna.symm hr⟩

theorem map_given (f : String × String → Tree) (k : String) (v : Option String) :
    (given k v).map f = if truthy v then [f (k, v.getD "")] else [] := by
  unfold given
  split <;> rfl

theorem metricsVars_eq_map (o : Outside) (r : Request) : metricsVars o r.descriptor =
    (r.descriptor.info.labels.entries ++ customParams r).map fun kv => labelVar o kv.1 kv.2 := by
  rw [map_append, customParams, map_append, map_given, map_given]
  rfl

theorem benchmarkVars_eq_map (o : Outside) (r : Request) :
    metricsVars o r.descriptor ++ parentVars o r.event.parent_action_id =
      (r.descriptor.info.labels.entries ++ builderParams r).map fun kv => labelVar o kv.1 kv.2 := by
  rw [metricsVars_eq_map, builderParams, ← append_assoc, @map_append _ _ _ (_ ++ _), map_given]
  rfl

theorem ascii_builderParams {r} (h : kv ∈ builderParams r) : Ascii kv.1 := by
  simp only [builderParams, customParams, mem_append, mem_given] at h
  rcases h with (⟨-, hk, -⟩ | ⟨-, hk, -⟩) | ⟨-, hk, -⟩
  all_goals
    rw [hk]
    decide

theorem lastVar_setLabels {o : Outside} (hc : AsciiCase o.lower o.upper) {r : Request} {c}
    (h : PusherShows (PusherEnv o v) (vars.map fun kv => labelVar o kv.1 kv.2) c)
    (hv : r.descriptor.info.labels.entries ⊆ vars) (hkv : kv ∈ setLabels r) :
    lastVar c (labelName o kv.1) = lastValue o.upper vars kv.1 := by
  obtain ⟨base, hb, hl⟩ := lastVar_pusher h
  rw [hl]
  rcases mem_append.1 hkv with hkv | hkv
  · have hn : (base.reverse.find? fun var => nameOf var = some (labelName o kv.1)) = none := by
      rw [find?_eq_none]
      intro var hvar
      obtain ⟨name, hna, heq⟩ := nameOf_pusherEnv hb (mem_reverse.1 hvar)
      rw [decide_eq_true_iff, heq, Option.some.injEq]
      exact (labelName_ne hc (ascii_builderParams hkv) hna).symm
    rw [hn]
    exact Option.or_none
  · have hs : lastValue o.upper vars kv.1 ≠ none := by
      rw [Ne, lastValue_eq_none]
      exact fun hno => hno kv (hv (mem_filter.1 hkv).1) rfl
    obtain ⟨w, hw⟩ := Option.ne_none_iff_exists'.1 hs
    rw [hw]
    rfl

/-! ## Agreement -/

/-- The labels of all objects are the variables of all pushers, and the region is the descriptor's. -/
structure LabelsMatch (o : Outside) (r : Request) (pods : List PodPlan) (h : RootObjectHelper) : Prop where
  agree : ∀ kv ∈ setLabels r, ∀ obj ∈ h.objects, ∀ plan ∈ pods, ∃ spec, getPodSpec h plan.replica = .ok spec ∧
    ∀ x ∈ containersNamed metricsPusherContainer spec, labelOf obj kv.1 = lastVar x.2 (labelName o kv.1)
  region : truthy (region r) = true → ∀ obj ∈ h.objects, labelOf obj "region" = region r

theorem labelsMatch_iff {o : Outside} (hca : AsciiCase o.lower o.upper) {r : Request} {pods}
    (hs : ShowsLabels r h) (hpo : pods ≠ []) (hv : r.descriptor.info.labels.entries ⊆ vars)
    (hp : ∀ plan ∈ pods, Finds plan.replica metricsPusherContainer (Only [.main] (PusherShows (PusherEnv o v) (vars.map fun kv => labelVar o kv.1 kv.2))) h.root) :
    LabelsMatch o r pods h ↔ (truthy (region r) = true → dashboard r = region r) ∧
      ∀ kv ∈ setLabels r, lastValue o.upper vars kv.1 = some kv.2 := by
  constructor
  · intro hm
    have hr : truthy (region r) = true → dashboard r = region r := by
      intro ht
      obtain ⟨old, hl⟩ := hs h.root (root_mem_objects h) "region"
      rw [← hm.region ht h.root (root_mem_objects h), hl, assigned, if_neg (by simp), if_pos ⟨rfl, ht⟩]
    refine ⟨hr, fun kv hkv => ?_⟩
    obtain ⟨plan, hpl⟩ := exists_mem_of_ne_nil pods hpo
    obtain ⟨spec, hsp, ha⟩ := hm.agree kv hkv h.root (root_mem_objects h) plan hpl
    obtain ⟨c, hc, hpu⟩ := only_one.1 ((hp plan hpl).of_getPodSpec hsp)
    obtain ⟨old, hl⟩ := hs h.root (root_mem_objects h) kv.1
    rw [hc, forall_mem_singleton, hl, assigned_setLabels hr hkv, lastVar_setLabels hca hpu hv hkv] at ha
    exact ha.symm
  · rintro ⟨hr, hla⟩
    constructor
    · intro kv hkv obj hobj plan hpl
      obtain ⟨spec, c, hsp, hc, hpu⟩ := finds_getPodSpec (hp plan hpl)
      obtain ⟨old, hl⟩ := hs obj hobj kv.1
      refine ⟨spec, hsp, ?_⟩
      rw [hc, forall_mem_singleton, hl, assigned_setLabels hr hkv, lastVar_setLabels hca hpu hv hkv, hla kv hkv]
    · intro ht obj hobj
      obtain ⟨old, hl⟩ := hs obj hobj "region"
      rw [hl, assigned, if_neg (by simp), if_pos ⟨rfl, ht⟩, hr ht]

/-- Labels that become one variable have one value. -/
def SameUpToCase (o : Outside) (r : Request) : Prop :=
  ∀ kv ∈ setLabels r, ∀ kv' ∈ setLabels r, o.upper kv.1 = o.upper kv'.1 → kv.2 = kv'.2

instance (o : Outside) (r : Request) : Decidable (SameUpToCase o r) :=
  inferInstanceAs (Decidable (∀ kv ∈ setLabels r, ∀ kv' ∈ setLabels r, o.upper kv.1 = o.upper kv'.1 → kv.2 = kv'.2))

section Last
variable {o : Outside} {r : Request}

theorem sameUpToCase_of_last (h : ∀ kv ∈ setLabels r, lastValue o.upper vars kv.1 = some kv.2) : SameUpToCase o r := by
  intro kv hkv kv' hkv' heq
  have hl := (h kv hkv).symm.trans ((lastValue_congr heq).trans (h kv' hkv'))
  exact Option.some.inj hl

/-- The variables `own` come behind those of the custom labels. What the builder has a label but no
variable for has to be in the custom labels. -/
theorem last_of_sameUpToCase (hs : SameUpToCase o r) {own} (hown : own ⊆ builderParams r)
    (hr : ∀ kv ∈ builderParams r, kv ∉ own → lastValue o.upper r.descriptor.info.labels.entries kv.1 = some kv.2)
    (hkv : kv ∈ setLabels r) : lastValue o.upper (r.descriptor.info.labels.entries ++ own) kv.1 = some kv.2 := by
  rw [lastValue_append]
  cases hla : lastValue o.upper own kv.1 with
  | some w =>
    obtain ⟨kv', hkv', heq, rfl⟩ := lastValue_mem hla
    have hv := hs kv hkv kv' (mem_append_left _ (hown hkv')) heq.symm
    exact congrArg some hv.symm
  | none =>
    have hnot (kv' : String × String) (heq : o.upper kv'.1 = o.upper kv.1) : kv' ∉ own :=
      fun hmem => lastValue_eq_none.1 hla kv' hmem heq
    rw [Option.none_or]
    rcases mem_append.1 hkv with hmem | hmem
    · exact hr kv hmem (hnot kv rfl)
    · cases he : lastValue o.upper r.descriptor.info.labels.entries kv.1 with
      | none => exact absurd rfl (lastValue_eq_none.1 he kv (mem_filter.1 hmem).1)
      | some w =>
        obtain ⟨kv', hkv', heq, rfl⟩ := lastValue_mem he
        cases hl : (builderParams r).lookup kv'.1 with
        | none =>
          have hset : kv' ∈ setLabels r :=
            mem_append_right _ (mem_filter.2 ⟨hkv', Option.isNone_iff_eq_none.2 hl⟩)
          rw [hs kv hkv kv' hset heq.symm]
        | some u =>
          -- the custom label gave way to one of the builder
          have hb := mem_of_lookup hl
          have hv := hr _ hb (hnot _ heq)
          rw [lastValue_congr heq, he] at hv
          rw [hv, hs kv hkv _ (mem_append_left _ hb) heq.symm]

theorem parent_of_last (hc : AsciiCase o.lower o.upper)
    (h : ∀ kv ∈ setLabels r, lastValue o.upper (r.descriptor.info.labels.entries ++ customParams r) kv.1 = some kv.2)
    (ht : truthy r.event.parent_action_id = true) :
    lastValue o.upper r.descriptor.info.labels.entries "parent-action-id" = r.event.parent_action_id := by
  have hn : lastValue o.upper (customParams r) "parent-action-id" = none := by
    rw [lastValue_eq_none]
    intro kv hkv
    rw [hc.upper_eq "parent-action-id" (by decide)]
    rcases mem_append.1 hkv with hkv | hkv
    · rw [(mem_given.1 hkv).2.1, hc.upper_eq _ (by decide)]
      decide
    · rw [(mem_given.1 hkv).2.1, hc.upper_eq _ (by decide)]
      decide
  cases hp : r.event.parent_action_id with
  | none =>
    rw [hp] at ht
    cases ht
  | some p =>
    have hmem : ("parent-action-id", p) ∈ setLabels r :=
      mem_append_left _ (mem_append_right _ (mem_given.2 ⟨ht, rfl, hp⟩))
    have hl := h _ hmem
    rwa [lastValue_append, hn, Option.none_or] at hl

end Last

/-- With output, the labels of the objects and of the metrics agree exactly when the region is the
dashboard, no two labels differ in case only, and for an inference server a parent action is also in
the custom labels. -/
theorem metric_labels_agree_iff (o : Outside) (hcase : AsciiCase o.lower o.upper) (r : Request) (h : RootObjectHelper) :
    (buildBenchmark o r = .ok h → Scalars o r.descriptor.hardware.strategy.template (benchmarkValues o r) →
      r.descriptor.output.isSome = true →
      (LabelsMatch o r (benchmarkPods r) h ↔ (truthy (region r) = true → dashboard r = region r) ∧ SameUpToCase o r)) ∧
    ∀ server, buildInferenceServer o r server = .ok h → Scalars o .inference_server_job (serverValues o r server) →
      server.output.isSome = true →
      (LabelsMatch o r (serverPods r server) h ↔
        (truthy (region r) = true → dashboard r = region r) ∧ SameUpToCase o r ∧
          (truthy r.event.parent_action_id = true →
            lastValue o.upper r.descriptor.info.labels.entries "parent-action-id" = r.event.parent_action_id)) := by
  constructor
  · intro hok hs ho
    obtain ⟨v, -, hv, -⟩ := id hs
    have hpo : benchmarkPods r ≠ [] := by
      unfold benchmarkPods
      cases r.descriptor.hardware.strategy <;> simp
    have hp (plan : PodPlan) (hpl : plan ∈ benchmarkPods r) := pusher_container hok hs hv hpl
    rw [ho, benchmarkVars_eq_map] at hp
    rw [labelsMatch_iff hcase (showsLabels_benchmark hok hs ho) hpo (subset_append_left _ _) hp]
    refine and_congr_right fun _ => ⟨sameUpToCase_of_last, fun hsa kv hkv => ?_⟩
    exact last_of_sameUpToCase hsa (List.Subset.refl _) (fun kv hmem hnot => absurd hmem hnot) hkv
  · intro server hok hs ho
    obtain ⟨v, -, hv, -⟩ := id hs
    have hp := server_pusher_container hok hs hv
    rw [ho, metricsVars_eq_map] at hp
    have hpo : serverPods r server ≠ [] := cons_ne_nil _ _
    have hall : ∀ plan ∈ serverPods r server, Finds plan.replica metricsPusherContainer (Only [.main]
        (PusherShows (PusherEnv o v) ((r.descriptor.info.labels.entries ++ customParams r).map
          fun kv => labelVar o kv.1 kv.2))) h.root :=
      forall_mem_singleton.2 hp
    rw [labelsMatch_iff hcase (showsLabels_server hok hs ho) hpo (subset_append_left _ _) hall]
    refine and_congr_right fun _ => ⟨fun hl => ⟨sameUpToCase_of_last hl, fun ht => ?_⟩, fun ⟨hsa, hpa⟩ => ?_⟩
    · exact parent_of_last hcase hl ht
    · intro kv hkv
      refine last_of_sameUpToCase hsa (subset_append_left _ _) (fun kv hmem hnot => ?_) hkv
      rcases mem_append.1 hmem with hmem | hmem
      · exact absurd hmem hnot
      · obtain ⟨ht, hk, hv⟩ := mem_given.1 hmem
        rw [hk, hpa ht, hv]

def dashboardRequest (region : Option String) : Request :=
  { exampleRequest trainingLabels with
    descriptor := { (exampleRequest trainingLabels).descriptor with
      custom_params := some { dashboard := some "board", region } } }

theorem metric_labels_agree_dashboard : ∃ h, buildBenchmark caseOutside (dashboardRequest none) = .ok h ∧
    LabelsMatch caseOutside (dashboardRequest none) (benchmarkPods (dashboardRequest none)) h := by
  have hb : (buildBenchmark caseOutside (dashboardRequest none)).toOption.any (fun _ => true) = true := by
    decide +kernel
  obtain ⟨h, hok, -⟩ := exists_ok_of_any hb
  have hm := metric_labels_agree_iff caseOutside ⟨fun _ _ => rfl, fun _ _ => rfl⟩ (dashboardRequest none) h
  refine ⟨h, hok, (hm.1 hok (scalars_of_buildBenchmark rfl hok) rfl).2 ⟨fun ht => ?_, by decide +kernel⟩⟩
  cases ht

/-- The label `region` of all objects is the name of the dashboard. -/
theorem region_label_is_dashboard : ∃ h,
    createJobSpec caseOutside (dashboardRequest (some "us-east-1")) = .ok h.objects ∧
    buildBenchmark caseOutside (dashboardRequest (some "us-east-1")) = .ok h ∧
    (∀ obj ∈ h.objects, labelOf obj "region" = some "board") ∧
    ¬ LabelsMatch caseOutside (dashboardRequest (some "us-east-1")) (benchmarkPods (dashboardRequest (some "us-east-1"))) h := by
  have hv : ((dashboardRequest (some "us-east-1")).descriptor.fromDict caseOutside.cronValid
      (dashboardRequest (some "us-east-1")).config.descriptor_config).toOption.any
        (fun d => d.hardware.strategy ≠ .inference) = true := by
    decide +kernel
  have hb : (buildBenchmark caseOutside (dashboardRequest (some "us-east-1"))).toOption.any (fun h =>
      h.objects.all fun obj => labelOf obj "region" == some "board") = true := by
    decide +kernel
  obtain ⟨h, hok, hl⟩ := exists_ok_of_any hb
  have hr : ∀ obj ∈ h.objects, labelOf obj "region" = some "board" := by
    simpa [all_eq_true] using hl
  refine ⟨h, createJobSpec_of_valid hv hok, hok, hr, fun hm => ?_⟩
  have hla := hm.region rfl h.root (root_mem_objects h)
  rw [hr h.root (root_mem_objects h)] at hla
  exact absurd hla (by decide)

end BenchmarkAi.Pusher
