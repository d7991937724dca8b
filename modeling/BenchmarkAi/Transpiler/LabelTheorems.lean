import BenchmarkAi.Executor.Engine
import BenchmarkAi.Transpiler.TemplateLabels
/-!
# The labels of a specification and the selector of a cancel

A cancel finds the objects of a benchmark by their labels. The templates write the
labels, and what is assigned later may replace them: the custom labels of the
descriptor go to every object, whatever their names are.
-/

open Lib Lib.Selector BenchmarkAi.Executor List

namespace BenchmarkAi.Transpiler

/-! ## What is left of a label -/

theorem after_append (L M : List (String × Tree)) (k : String) (old : Option String) :
    after (L ++ M) k old = after M k (after L k old) := foldl_append

variable {k : String} {o : Outside} {B : List (String × Tree)} {h' : RootObjectHelper} {r : Request} {d : Tree} {scheduled : Bool}
  {objs : List Tree} {v : Values}

theorem after_of_not_mem {L : List (String × Tree)} (h : k ∉ L.map Prod.fst) (old : Option String) : after L k old = old := by
  induction L with
  | nil => rfl
  | cons kv L ih =>
    rw [map_cons, mem_cons, not_or] at h
    rw [after, foldl_cons, if_neg (Ne.symm h.1)]
    exact ih h.2

def customLabels (labels : Dict String) : List (String × Tree) := labels.entries.map fun kv => (kv.1, .str kv.2)

theorem after_customLabels (labels : Dict String) (k : String) (old : Option String) :
    after (customLabels labels) k old = (labels.get? k).or old := by
  obtain ⟨entries, hnd⟩ := labels
  unfold customLabels Dict.get?
  induction entries generalizing old with
  | nil => rfl
  | cons kv entries ih =>
    obtain ⟨k', v⟩ := kv
    rw [map_cons, nodup_cons] at hnd
    rw [map_cons, after, foldl_cons, lookup_cons_if]
    by_cases hk : k' = k
    · -- the key does not come again
      subst hk
      rw [if_pos rfl, if_pos rfl]
      exact after_of_not_mem (by rw [map_map]; exact hnd.1) _
    · rw [if_neg hk, if_neg (Ne.symm hk)]
      exact ih old hnd.2

theorem relabels_build {t v labels update} (hB : Assigns B update)
    (hok : build o t v labels update = .ok h') : ∃ h, fillTemplate o t v = .ok h ∧ Relabels (customLabels labels ++ B) h h' := by
  obtain ⟨h, hf, hok⟩ := bind_ok.1 hok
  obtain ⟨h₁, hl, hok⟩ := bind_ok.1 hok
  obtain ⟨b, hu, hok⟩ := bind_ok.1 hok
  cases hok
  have hc := edits_foldlM (fun kv : String × String => edits_addLabel kv.1 (.str kv.2)) labels.entries h h₁ hl
  rw [← map_eq_flatMap] at hc
  exact ⟨h, hf, hc.trans (hB _ b hu)⟩

/-! ## What a builder's own labels leave alone -/

def ownLabels (r : Request) : List (String × String) :=
  [(createdByLabel, executorService), (clientIdLabel, r.event.client_id), (actionIdLabel, r.event.action_id)]

/-- The labels `B` of a builder: none of the own labels is among them, and the label
for the parent action is what the builder assigns, if it assigns it. -/
structure BuilderLabels (r : Request) (scheduled : Bool) (B : List (String × Tree)) : Prop where
  own : ∀ kv ∈ ownLabels r, ∀ old, after B kv.1 old = old
  parent : ∀ old, after B parentActionIdLabel old =
    if !scheduled && truthy r.event.parent_action_id then r.event.parent_action_id else old

theorem keys_customParamLabels {params} (h : k ∈ (customParamLabels params).map Prod.fst) :
    k = "dashboard-name" ∨ k = "region" := by
  unfold customParamLabels at h
  split at h <;> split at h <;> simp_all

theorem after_customParamLabels (params : Option CustomParamsDescriptor) (old : Option String)
    (hk : k ≠ "dashboard-name" ∧ k ≠ "region") : after (customParamLabels params) k old = old :=
  after_of_not_mem (fun h => (keys_customParamLabels h).elim hk.1 hk.2) old

theorem after_outputLabels (c : Bool) (params : Option CustomParamsDescriptor) (old : Option String)
    (hk : k ≠ "dashboard-name" ∧ k ≠ "region") : after (if c then customParamLabels params else []) k old = old := by
  cases c with
  | true => exact after_customParamLabels params old hk
  | false => rfl

theorem after_parentLabels_ne (parent : Option String) (hk : k ≠ "parent-action-id") (old : Option String) :
    after (parentLabels parent) k old = old := by
  refine after_of_not_mem ?_ old
  unfold parentLabels
  split <;> simp [hk]

theorem after_parentLabels (parent old : Option String) :
    after (parentLabels parent) "parent-action-id" old = if truthy parent then parent else old := by
  unfold parentLabels
  split
  · cases parent <;> rfl
  · rfl

theorem own_keys {kv : String × String} (h : kv ∈ ownLabels r) :
    (kv.1 ≠ "dashboard-name" ∧ kv.1 ≠ "region") ∧ kv.1 ≠ "parent-action-id" := by
  simp only [ownLabels, mem_cons, not_mem_nil, or_false] at h
  rcases h with rfl | rfl | rfl <;> dsimp only <;> decide

theorem builderLabels_scheduled (r : Request) : BuilderLabels r true [] := ⟨fun _ _ _ => rfl, fun _ => rfl⟩

theorem builderLabels_benchmark (r : Request) : BuilderLabels r false (benchmarkLabels r) where
  own := fun kv hkv old => by
    rw [benchmarkLabels, after_append, after_parentLabels_ne _ (own_keys hkv).2, after_outputLabels _ _ _ (own_keys hkv).1]
  parent := fun old => by
    rw [benchmarkLabels, after_append, after_outputLabels _ _ _ (by decide)]
    exact after_parentLabels _ _

theorem BuilderLabels.append {r B C} (hB : BuilderLabels r false B)
    (hC : BuilderLabels r false C) : BuilderLabels r false (B ++ C) where
  own := fun kv hkv old => by rw [after_append, hC.own kv hkv, hB.own kv hkv]
  parent := fun old => by
    rw [after_append, hC.parent, hB.parent]
    split <;> rfl

theorem builderLabels_server (r : Request) (c : Bool) : BuilderLabels r false (parentLabels r.event.parent_action_id ++
      (if c then customParamLabels r.descriptor.custom_params else [])) where
  own := fun kv hkv old => by
    rw [after_append, after_outputLabels _ _ _ (own_keys hkv).1, after_parentLabels_ne _ (own_keys hkv).2]
  parent := fun old => by
    rw [after_append, after_outputLabels _ _ _ (by decide)]
    exact after_parentLabels _ _

/-! ## The objects of a specification -/

def Carries (r : Request) (t : Tree) : Prop :=
  (∀ kv ∈ ownLabels r, labelOf t kv.1 = some kv.2) ∧
    ∀ p, r.event.parent_action_id = some p → labelOf t parentActionIdLabel = some p

def customized (r : Request) (d : Tree) (k : String) : Option String :=
  if hasMetadata d then (r.descriptor.info.labels.get? k).or (labelOf d k) else none

/-- The template and the custom labels give the object its own labels; where no builder
assigns the label for the parent action, they give it that one too. -/
def Kept (r : Request) (scheduled : Bool) (d : Tree) : Prop :=
  (∀ kv ∈ ownLabels r, customized r d kv.1 = some kv.2) ∧
    ∀ p, r.event.parent_action_id = some p → (scheduled = true ∨ p = "") →
      customized r d parentActionIdLabel = some p

theorem hasMetadata_of_customized {v} (h : customized r d k = some v) : hasMetadata d = true := by
  unfold customized at h
  split at h
  · assumption
  · cases h

theorem labelOf_built {t} (h : Relabelled (customLabels r.descriptor.info.labels ++ B) d t) (hm : hasMetadata d = true)
    (k : String) : labelOf t k = after B k (customized r d k) := by
  rw [h.labels hm, after_append, after_customLabels, customized, if_pos hm]

theorem carries_iff {t} (hB : BuilderLabels r scheduled B)
    (h : Relabelled (customLabels r.descriptor.info.labels ++ B) d t) : Carries r t ↔ Kept r scheduled d := by
  have own : (∀ kv ∈ ownLabels r, labelOf t kv.1 = some kv.2) ↔ ∀ kv ∈ ownLabels r, customized r d kv.1 = some kv.2 := by
    refine forall₂_congr fun kv hkv => ?_
    cases hm : hasMetadata d with
    | true => rw [labelOf_built h hm, hB.own kv hkv]
    | false =>
      rw [labelOf_eq_none (h.metadata.trans hm), customized, hm]
      rfl
  rw [Carries, own]
  refine and_congr_right fun hown => forall₂_congr fun p hp => ?_
  have hm : hasMetadata d = true := hasMetadata_of_customized (hown _ mem_cons_self)
  rw [labelOf_built h hm, hB.parent, hp]
  by_cases hno : scheduled = true ∨ p = ""
  · have hs : (!scheduled && truthy (some p)) = false := by
      rcases hno with rfl | rfl
      · rfl
      · exact Bool.and_false _
    rw [hs]
    exact ⟨fun h _ => h, fun h => h hno⟩
  · rw [not_or, Bool.not_eq_true] at hno
    have hset : (!scheduled && truthy (some p)) = true := by
      rw [hno.1, truthy, bne_iff_ne.2 hno.2]
      rfl
    rw [hset]
    exact ⟨fun _ hor => absurd hor (by simp [hno]), fun _ => rfl⟩

/-! ## From the templates to the objects -/

/-- `K8SExecutionEngine.run` or `schedule`: the objects that are given to `kubectl apply`. -/
def createSpec (o : Outside) (r : Request) (scheduled : Bool) : Py (List Tree) :=
  if scheduled then createScheduledJobSpec o r else createJobSpec o r

def templates (o : Outside) (r : Request) (scheduled : Bool) : List (Template × Py Values) :=
  if scheduled then [(.cron_job, scheduledValues o r)]
  else (r.descriptor.hardware.strategy.template, benchmarkValues o r) ::
    match r.descriptor.hardware.strategy, r.descriptor.server with
    | .inference, some server => [(.inference_server_job, serverValues o r server)]
    | _, _ => []

def Built (o : Outside) (r : Request) (scheduled : Bool) (tv : Template × Py Values) (objs : List Tree) : Prop :=
  ∃ h h' B, fillTemplate o tv.1 tv.2 = .ok h ∧ BuilderLabels r scheduled B ∧
    Relabels (customLabels r.descriptor.info.labels ++ B) h h' ∧ objs = h'.objects

theorem built_build {t v update} (hA : Assigns B update) (hB : BuilderLabels r scheduled B)
    (hok : build o t v r.descriptor.info.labels update = .ok h') : Built o r scheduled (t, v) h'.objects := by
  obtain ⟨h, hf, hrel⟩ := relabels_build hA hok
  exact ⟨h, h', B, hf, hB, hrel, rfl⟩

theorem built_buildBenchmark (hok : buildBenchmark o r = .ok h') :
    Built o r false (r.descriptor.hardware.strategy.template, benchmarkValues o r) h'.objects := by
  obtain ⟨scripts, -, hok⟩ := bind_ok.1 hok
  have hs := assigns_singleRunUpdate o r scripts
  have hh := assigns_horovodUpdate o r scripts
  unfold benchmarkUpdate at hok
  split at hok
  · exact built_build hs (builderLabels_benchmark r) hok
  · exact built_build hs (builderLabels_benchmark r) hok
  · exact built_build hh ((builderLabels_benchmark r).append (builderLabels_benchmark r)) hok

theorem fromDict_ok {cronValid config} {d d' : BenchmarkDescriptor}
    (h : d.fromDict cronValid config = .ok d') : d' = d := by
  iterate 2 obtain ⟨_, -, h⟩ := bind_ok.1 h
  split at h
  · cases h
  · obtain ⟨_, -, h⟩ := bind_ok.1 h
    exact (pure_ok.1 h).symm

theorem built_createSpec (hok : createSpec o r scheduled = .ok objs) :
    ∃ parts, Forall₂ (Built o r scheduled) (templates o r scheduled) parts ∧ objs = parts.flatten := by
  unfold templates
  cases scheduled with
  | true =>
    obtain ⟨_, -, hok⟩ := bind_ok.1 hok
    obtain ⟨job, hjob, hok⟩ := bind_ok.1 hok
    cases hok
    exact ⟨[_], .cons (built_build assigns_pure (builderLabels_scheduled r) hjob) .nil, by simp⟩
  | false =>
    obtain ⟨d, hd, hok⟩ := bind_ok.1 hok
    obtain rfl := fromDict_ok hd
    obtain ⟨job, hjob, hok⟩ := bind_ok.1 hok
    have hb := built_buildBenchmark hjob
    rw [if_neg (by decide)]
    split at hok
    · rename_i hs
      cases hok
      split
      · exact absurd ‹_› hs
      · exact ⟨[_], .cons hb .nil, by simp⟩
    · rename_i hs
      split at hok
      · cases hok
      · rename_i server hse
        obtain ⟨job', hjob', hok⟩ := bind_ok.1 hok
        cases hok
        have hsrv := built_build (assigns_inferenceServerUpdate o _ server) (builderLabels_server _ _) hjob'
        split
        · rename_i server' _ hse'
          obtain rfl := Option.some.inj (hse.symm.trans hse')
          exact ⟨[_, _], .cons hb (.cons hsrv .nil), by simp⟩
        · rename_i hno
          exact absurd hse (hno server (not_not.1 hs))

/-! ## The condition on a template -/

/-- The custom labels leave each own label what it is, and the loader reads its value as
a string. A scheduled benchmark and an empty parent id have no other source for the label
of the parent action than the custom labels. -/
def Written (o : Outside) (r : Request) (scheduled : Bool) : Prop :=
  (∀ kv ∈ ownLabels r, (r.descriptor.info.labels.get? kv.1).or (o.yaml.string kv.2) = some kv.2) ∧
    ∀ p, r.event.parent_action_id = some p → (scheduled = true ∨ p = "") →
      r.descriptor.info.labels.get? parentActionIdLabel = some p

/-- What the template `t` with the values `v` has to give: `Written`, if each value is one
scalar in its place. A value that is not changes the structure of the text; then it is
up to the objects that are read from it. -/
def LabelsKept (o : Outside) (r : Request) (scheduled : Bool) (t : Template) (v : Values) : Prop :=
  match Doc.readItems o.yaml.scalar (t.docs v) with
  | some _ => Written o r scheduled
  | none => ∀ docs h, o.yaml.load t v = .ok docs → ofDocs docs = .ok h → ∀ d ∈ h.objects, Kept r scheduled d

structure FeedsIds (r : Request) (v : Values) : Prop where
  service_name : v.service_name = executorService
  client_id : v.client_id = r.event.client_id
  action_id : v.action_id = r.event.action_id

theorem feedsIds_commonValues (h : commonValues o r = .ok v) : FeedsIds r v := by
  obtain ⟨_, -, h⟩ := bind_ok.1 h
  cases h
  exact ⟨rfl, rfl, rfl⟩

/-- The values that a builder adds to the common ones are not the ids. -/
theorem FeedsIds.of_eq {w : Values} (h : FeedsIds r v) (hs : w.service_name = v.service_name) (hc : w.client_id = v.client_id)
    (ha : w.action_id = v.action_id) : FeedsIds r w :=
  ⟨hs.trans h.service_name, hc.trans h.client_id, ha.trans h.action_id⟩

theorem feedsIds_scheduledValues (h : scheduledValues o r = .ok v) : FeedsIds r v := by
  obtain ⟨v₀, hv₀, h⟩ := bind_ok.1 h
  cases h
  exact (feedsIds_commonValues hv₀).of_eq rfl rfl rfl

theorem feedsIds_benchmarkValues (h : benchmarkValues o r = .ok v) : FeedsIds r v := by
  obtain ⟨v₀, hv₀, h⟩ := bind_ok.1 h
  obtain ⟨_, -, h⟩ := bind_ok.1 h
  cases h
  exact (feedsIds_commonValues hv₀).of_eq rfl rfl rfl

theorem feedsIds_serverValues {server} (h : serverValues o r server = .ok v) : FeedsIds r v := by
  obtain ⟨v₀, hv₀, h⟩ := bind_ok.1 h
  iterate 2 obtain ⟨_, -, h⟩ := bind_ok.1 h
  cases h
  exact (feedsIds_commonValues hv₀).of_eq rfl rfl rfl

theorem feedsIds_templates {tv : Template × Py Values} (htv : tv ∈ templates o r scheduled) (hv : tv.2 = .ok v) : FeedsIds r v := by
  unfold templates at htv
  split at htv
  · obtain rfl := mem_singleton.1 htv
    exact feedsIds_scheduledValues hv
  · rcases mem_cons.1 htv with rfl | htv
    · exact feedsIds_benchmarkValues hv
    · split at htv
      · obtain rfl := mem_singleton.1 htv
        exact feedsIds_serverValues hv
      · cases htv

/-- Of an object with the labels as they are read, `Kept` is a matter of the inputs. -/
theorem kept_iff_written (hv : FeedsIds r v) (hd : ReadsIds o.yaml v d) : Kept r scheduled d ↔ Written o r scheduled := by
  have read (k : String) : customized r d k = (r.descriptor.info.labels.get? k).or (labelOf d k) :=
    if_pos hd.metadata
  refine and_congr (forall₂_congr fun kv hkv => ?_) (forall₃_congr fun p _ _ => ?_)
  · rw [read]
    simp only [ownLabels, mem_cons, not_mem_nil, or_false] at hkv
    rcases hkv with rfl | rfl | rfl
    · rw [← hv.service_name, ← hd.service]; rfl
    · rw [← hv.client_id, ← hd.client]; rfl
    · rw [← hv.action_id, ← hd.action]; rfl
  · rw [read, parentActionIdLabel, hd.parent, Option.or_none]

theorem root_mem_objects (h : RootObjectHelper) : h.root ∈ h.objects :=
  mem_append_right _ (mem_singleton.2 rfl)

/-- The objects from one template carry the labels exactly when the template keeps them. -/
theorem carries_built {tv : Template × Py Values} (htv : tv ∈ templates o r scheduled) (h : Built o r scheduled tv objs) :
    (∀ obj ∈ objs, Carries r obj) ↔ ∀ v, tv.2 = .ok v → LabelsKept o r scheduled tv.1 v := by
  obtain ⟨h₀, h', B, hf, hB, hrel, rfl⟩ := h
  rw [forall_mem_iff_of_forall₂ (fun _ _ _ hd => carries_iff hB hd) hrel]
  obtain ⟨v, hv, hl⟩ := bind_ok.1 hf
  obtain ⟨docs, hl, hdo⟩ := bind_ok.1 hl
  have only : (∀ w, tv.2 = .ok w → LabelsKept o r scheduled tv.1 w) ↔ LabelsKept o r scheduled tv.1 v :=
    ⟨fun h => h v hv, fun h w hw => Except.ok.inj (hv.symm.trans hw) ▸ h⟩
  rw [only, LabelsKept]
  split
  · rename_i hr
    rw [hv] at hf
    have reads (d : Tree) (hd : d ∈ h₀.objects) : Kept r scheduled d ↔ Written o r scheduled :=
      kept_iff_written (feedsIds_templates htv hv) (fillTemplate_labels hr hf hd)
    exact ⟨fun h => (reads _ (root_mem_objects h₀)).1 (h _ (root_mem_objects h₀)), fun h d hd => (reads d hd).2 h⟩
  · constructor
    · intro h docs' h₁ hl' hdo'
      obtain rfl := Except.ok.inj (hl.symm.trans hl')
      obtain rfl := Except.ok.inj (hdo.symm.trans hdo')
      exact h
    · exact fun h => h docs h₀ hl hdo

theorem carries_createSpec (hok : createSpec o r scheduled = .ok objs) : (∀ obj ∈ objs, Carries r obj) ↔
      ∀ tv ∈ templates o r scheduled, ∀ v, tv.2 = .ok v → LabelsKept o r scheduled tv.1 v := by
  obtain ⟨parts, hp, rfl⟩ := built_createSpec hok
  rw [← forall_mem_iff_of_forall₂ (fun tv htv objs hb => carries_built htv hb) hp]
  simp only [mem_flatten]
  exact ⟨fun h objs ho obj hobj => h obj ⟨objs, ho, hobj⟩, fun h obj ⟨objs, ho, hobj⟩ => h objs ho obj hobj⟩

theorem createSpec_ne_nil (hok : createSpec o r scheduled = .ok objs) : ∃ obj, obj ∈ objs := by
  obtain ⟨parts, hp, rfl⟩ := built_createSpec hok
  unfold templates at hp
  have root {tv : Template × Py Values} {tvs parts} (h : Forall₂ (Built o r scheduled) (tv :: tvs) parts) :
      ∃ obj, obj ∈ parts.flatten := by
    cases h with
    | cons hb _ =>
      obtain ⟨_, h', _, -, -, -, rfl⟩ := hb
      exact ⟨h'.root, mem_flatten.2 ⟨_, mem_cons_self, root_mem_objects h'⟩⟩
  split at hp
  · exact root hp
  · exact root hp

/-! ## The selector -/

/-- An object with the labels is selected exactly when they can stand in a selector. -/
theorem selects_of_carries {obj} (h : Carries r obj) :
    selects (createLabelSelector r.event.client_id r.event.action_id false) (labelOf obj) = true ↔
      valueOk r.event.client_id = true ∧ valueOk r.event.action_id = true := by
  have hl : ∀ kv ∈ requirements r.event.client_id r.event.action_id false, labelOf obj kv.1 = some kv.2 := by
    intro kv hkv
    refine h.1 kv ?_
    rcases mem_cons.1 hkv with rfl | hkv
    · simp [ownLabels]
    · rcases mem_cons.1 hkv with rfl | hkv
      · simp [ownLabels]
      · rw [if_neg (by decide)] at hkv
        split at hkv
        · simp [mem_singleton.1 hkv, ownLabels]
        · cases hkv
  have hk := isKey_requirements r.event.client_id r.event.action_id false
  have hva : (∀ kv ∈ requirements r.event.client_id r.event.action_id false, valueOk kv.2 = true) ↔
      valueOk r.event.client_id = true ∧ valueOk r.event.action_id = true := by
    by_cases ha : r.event.action_id = ""
    · rw [ha]
      simp [requirements, show valueOk executorService = true by decide, show valueOk "" = true by decide]
    · simp [requirements, ha, show valueOk executorService = true by decide]
  rw [createLabelSelector_eq, ← hva]
  exact ⟨valueOk_of_selects hk hl, fun hv => (selects_equalities (by simp [requirements]) hk hv).2 hl⟩

/-! ## A benchmark -/

def exampleScalar (s : String) : Option Tree :=
  if s = "True" then some (.bool true)
  else if s = "False" then some (.bool false)
  else if s = "4" then some (.num 4)
  else if ["executor", "client-1", "action-1", "job-1", "is-job-1", "benchmark-image", "helper-image", "p3.8xlarge",
    "us-east-1a"].contains s then some (.str s)
  else none

/-- A loader that reads a template only where each value is one node in its place. -/
def Yaml.ofScalar (scalar : String → Option Tree) : Yaml where
  scalar
  load := fun t v =>
    match Doc.readItems scalar (t.docs v) with
    | some docs => return docs
    | none => throw .builtin
  load_scalars := fun t v docs h => by rw [h]; rfl

def exampleYaml : Yaml := .ofScalar exampleScalar

def exampleOutside : Outside where
  yaml := exampleYaml
  lower := id
  upper := id
  cronValid := fun _ => false
  instanceGpus := fun _ => return 4
  urlparse := fun _ => throw .builtin
  shlexSplit := fun s => return [s]
  base64 := id
  dumpMetrics := fun _ => "[]"
  choice := fun zones => match zones with
    | zone :: _ => return zone
    | [] => throw .builtin

def exampleRequest (labels : Dict String) : Request where
  descriptor := {
    info := { labels }
    hardware := { instance_type := "p3.8xlarge" }
    env := { docker_image := "benchmark-image" }
    output := some []
    ml := some { benchmark_code := some "train.sh" } }
  config := {
    descriptor_config := { valid_strategies := ["single_node"], valid_frameworks := [""] }
    bai_config := {
      puller_mount_chmod := "700"
      puller_docker_image := "helper-image"
      cron_job_docker_image := "helper-image"
      metrics_pusher_docker_image := "helper-image"
      metrics_extractor_docker_image := "helper-image"
      job_status_trigger_docker_image := "helper-image" }
    availability_zones := [("use1-az1", "us-east-1a")] }
  job_id := "job-1"
  event := {
    action_id := "action-1"
    parent_action_id := some "action-0"
    message_id := "message-1"
    client_id := "client-1"
    client_version := "1.0"
    client_username := "user"
    authenticated := true
    tstamp := 0
    visited := []
    type := "BAI_APP_EXECUTOR"
    payload := () }

def trainingLabels : Dict String := ⟨[("task", "training")], by decide⟩

def foreignLabels : Dict String := ⟨[("created-by", "me")], by decide⟩

/-! ## Agreement -/

/-- The objects of a specification carry the labels of their benchmark and are selected by
its cancel exactly when the ids can stand in a selector and the templates keep the labels. -/
theorem labels_agree_iff {o : Outside} {r : Request} {scheduled : Bool} {objs : List Tree}
    (hok : createSpec o r scheduled = .ok objs) :
    (∀ obj ∈ objs, Carries r obj ∧
      selects (createLabelSelector r.event.client_id r.event.action_id false) (labelOf obj) = true) ↔
      (valueOk r.event.client_id = true ∧ valueOk r.event.action_id = true) ∧
        ∀ tv ∈ templates o r scheduled, ∀ v, tv.2 = .ok v → LabelsKept o r scheduled tv.1 v := by
  rw [← carries_createSpec hok]
  constructor
  · intro h
    obtain ⟨obj, hobj⟩ := createSpec_ne_nil hok
    exact ⟨(selects_of_carries (h obj hobj).1).1 (h obj hobj).2, fun obj hobj => (h obj hobj).1⟩
  · exact fun ⟨hv, h⟩ obj hobj => ⟨h obj hobj, (selects_of_carries (h obj hobj)).2 hv⟩

theorem labels_agree_training : ∃ objs, createSpec exampleOutside (exampleRequest trainingLabels) false = .ok objs ∧
    ∀ obj ∈ objs, Carries (exampleRequest trainingLabels) obj ∧
      selects (createLabelSelector "client-1" "action-1" false) (labelOf obj) = true := by
  have hsp : (createSpec exampleOutside (exampleRequest trainingLabels) false).toOption.any (fun _ => true) = true := by
    decide +kernel
  have hs : (benchmarkValues exampleOutside (exampleRequest trainingLabels)).toOption.all
      (fun v => (Doc.readItems exampleScalar (Template.jobSingleNode v)).isSome) = true := by decide +kernel
  have hw : Written exampleOutside (exampleRequest trainingLabels) false :=
    ⟨by decide, fun p hp => by simp [← Option.some.inj hp]⟩
  obtain ⟨objs, hok, -⟩ := exists_ok_of_any hsp
  refine ⟨objs, hok, (labels_agree_iff hok).2 ⟨by decide, fun tv htv v hv => ?_⟩⟩
  obtain rfl := mem_singleton.1 htv
  rw [show benchmarkValues exampleOutside (exampleRequest trainingLabels) = .ok v from hv] at hs
  unfold LabelsKept
  split
  · exact hw
  · rename_i hn
    have hr : Doc.readItems exampleScalar (Template.jobSingleNode v) = none := hn
    rw [Except.toOption, Option.all_some, hr] at hs
    cases hs

/-- The label that says which service created an object can be a custom label: the
benchmark is accepted, and its cancel finds nothing of it. -/
theorem custom_created_by_hides_benchmark :
    ∃ objs, createSpec exampleOutside (exampleRequest foreignLabels) false = .ok objs ∧ objs ≠ [] ∧
      ∀ obj ∈ objs, ¬ Carries (exampleRequest foreignLabels) obj ∧
        selects (createLabelSelector "client-1" "action-1" false) (labelOf obj) = false := by
  have hs : (createSpec exampleOutside (exampleRequest foreignLabels) false).toOption.any (fun objs =>
      !objs.isEmpty && objs.all fun obj => labelOf obj createdByLabel == some "me" &&
        !selects (createLabelSelector "client-1" "action-1" false) (labelOf obj)) = true := by decide +kernel
  obtain ⟨objs, hok, ho⟩ := exists_ok_of_any hs
  simp only [Bool.and_eq_true, all_eq_true, Bool.not_eq_true', isEmpty_eq_false_iff, beq_iff_eq] at ho
  refine ⟨objs, hok, ho.1, fun obj hobj => ⟨fun hc => ?_, (ho.2 obj hobj).2⟩⟩
  have hown := hc.1 _ mem_cons_self
  rw [(ho.2 obj hobj).1] at hown
  exact absurd hown (by decide)

end BenchmarkAi.Transpiler
