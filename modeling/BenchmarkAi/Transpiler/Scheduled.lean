import BenchmarkAi.Transpiler.BenchmarkContainer
import BenchmarkAi.Transpiler.VolumeTheorems
/-!
# The container of a scheduled benchmark

A scheduled benchmark is a cron job with one container, `benchmark-starter`. Its variables are
those of the template: three values from config maps, and the event as JSON. Neither the empty
lists that are made nor the labels of the descriptor change them.
-/

open Lib

namespace BenchmarkAi.Transpiler

/-! ## The container -/

def cronPath : List String := ["spec", "jobTemplate", "spec", "template", "spec"]

def starter (root : Tree) : Option Tree := (root.getPath? cronPath).bind fun spec => (listOf "containers" spec).head?

structure Referred (name : String) (var : Tree) : Prop where
  name : nameOf var = some name
  value : var.get? "value" = none

/-- The variables of the container: three that refer to config maps, then the event. -/
structure StarterShows (value c : Tree) : Prop where
  env : ∃ brokers producer status event, c.get? "env" = some (.arr [brokers, producer, status, event]) ∧
    Referred "KAFKA_BOOTSTRAP_SERVERS" brokers ∧ Referred "PRODUCER_TOPIC" producer ∧ Referred "STATUS_TOPIC" status ∧
    nameOf event = some "BENCHMARK_EVENT" ∧ event.get? "value" = some value

def Starts (value root : Tree) : Prop :=
  ∃ spec c, root.getPath? cronPath = some spec ∧ spec.get? "containers" = some (.arr [c]) ∧ StarterShows value c

/-! ## The template -/

section Template
variable {scalar : String → Option Tree} {v : Values}

theorem referred_envConfig {name config key var}
    (h : (Template.envConfig name config key).read scalar = some var) : Referred name var :=
  ⟨nameOf_read rfl h, get?_read_none h rfl⟩

structure CronDoc (value d : Tree) : Prop where
  kind : d.get? "kind" = some (.str "CronJob")
  spec : ∃ s, d.get? "spec" = some s ∧ s.get? "template" = none
  starts : Starts value d

theorem cronDoc_read {docs} (h : Doc.readItems scalar (Template.docs .cron_job v) = some docs) :
    ∃ d value, docs = [d] ∧ scalar v.event_json_str = some value ∧ CronDoc value d := by
  obtain _ | ⟨hd, hnil⟩ := forall₂_read h
  cases hnil
  rename_i d
  obtain ⟨s, hs, hjob⟩ := get?_read (k := "spec") hd rfl
  obtain ⟨spec, hsp, hpod⟩ := @getPath?_read scalar cronPath _ _ _ rfl hd
  obtain ⟨containers, hco, hr⟩ := get?_read_arr (k := "containers") hpod rfl
  obtain _ | ⟨hc, hnil⟩ := hr
  cases hnil
  obtain ⟨env, henv, hva⟩ := get?_read_arr (k := "env") hc rfl
  obtain _ | ⟨hb, hva⟩ := hva
  obtain _ | ⟨hp, hva⟩ := hva
  obtain _ | ⟨hst, hva⟩ := hva
  obtain _ | ⟨he, hnil⟩ := hva
  cases hnil
  obtain ⟨value, hv, hsc⟩ := get?_read (k := "value") he rfl
  exact ⟨d, value, rfl, hsc, get?_read_text hd rfl, ⟨s, hs, get?_read_none hjob rfl⟩, spec, _, hsp, hco,
    ⟨_, _, _, _, henv, referred_envConfig hb, referred_envConfig hp, referred_envConfig hst, nameOf_read rfl he, hv⟩⟩

/-- Where the values are scalars, the template becomes a cron job. -/
theorem exists_ofDocs_cronJob {job action client service image value}
    (hjob : scalar v.job_id = some job) (ha : scalar v.action_id = some action) (hc : scalar v.client_id = some client)
    (hs : scalar v.service_name = some service) (hi : scalar v.cron_job_docker_image = some image)
    (hv : scalar v.event_json_str = some value)
    (hsc : (v.scheduling.toList.any fun c => ['"', '\\', '\n'].contains c) = false) :
    ∃ docs h, Doc.readItems scalar (Template.docs .cron_job v) = some docs ∧ ofDocs docs = .ok h := by
  simp only [Template.docs, Template.cronJob, Template.appLabels, Template.idLabels, Template.text, Template.envConfig,
    Template.envValue, Doc.readItems, Doc.readFields, Doc.read, hjob, ha, hc, hs, hi, hv, hsc,
    Option.bind_eq_bind, Option.bind_some, Option.map_some, Bool.false_eq_true, if_false, pure]
  exact ⟨_, _, rfl, rfl⟩

end Template

/-! ## What is done to it -/

section Edits
variable {value : Tree} {h h' : RootObjectHelper}

theorem podSpecPath_cron {root spec s : Tree} {path} (hsp : root.getPath? cronPath = some spec)
    (hs : root.get? "spec" = some s) (hno : s.get? "template" = none) (hok : podSpecPath root none = .ok path) :
    path = cronPath := by
  unfold podSpecPath at hok
  rw [cronPath, Tree.getPath?, hs, Option.bind_some] at hsp
  obtain ⟨t, ht, hsp⟩ := Option.bind_eq_some_iff.1 hsp
  obtain ⟨u, hu, hsp⟩ := Option.bind_eq_some_iff.1 hsp
  obtain ⟨w, hw, hsp⟩ := Option.bind_eq_some_iff.1 hsp
  obtain ⟨x, hx, -⟩ := Option.bind_eq_some_iff.1 hsp
  have hte : attrs ["spec", "template"] root = .ok (.obj []) := by
    rw [attrs, List.foldlM_cons, attr_of_get? hs]
    cases s with
    | obj fs =>
      have hl : fs.lookup "template" = none := hno
      change (attr "template" (.obj fs) >>= pure) = _
      rw [attr, hl]
      rfl
    | _ => cases ht
  have hjob : root.getPath? ["spec", "jobTemplate"] = some t := by
    rw [Tree.getPath?, hs, Option.bind_some, Tree.getPath?, ht]
    rfl
  have hpod : root.getPath? ["spec", "jobTemplate", "spec", "template"] = some w := by
    rw [Tree.getPath?, hs, Option.bind_some, Tree.getPath?, ht, Option.bind_some, Tree.getPath?, hu, Option.bind_some,
      Tree.getPath?, hw]
    rfl
  rw [hte, attrs_of_getPath? hjob, attrs_of_getPath? hpod] at hok
  obtain ⟨_, h₁, hok⟩ := bind_ok.1 hok
  cases h₁
  obtain ⟨_, h₂, hok⟩ := bind_ok.1 hok
  cases h₂
  rw [if_pos (Tree.truthy_of_get? hu)] at hok
  obtain ⟨_, h₃, hok⟩ := bind_ok.1 hok
  cases h₃
  rw [if_pos (Tree.truthy_of_get? hx)] at hok
  exact (pure_ok.1 hok).symm

theorem get?_orEmptyList_ne {k k'} {t t' : Tree} (hk : k ≠ k') (hok : orEmptyList k' t = .ok t') :
    t'.get? k = t.get? k := by
  obtain ⟨u, -, hok⟩ := bind_ok.1 hok
  split at hok
  · rw [pure_ok.1 hok]
  · rw [← pure_ok.1 hok]
    exact Tree.get?_put_ne hk t _

theorem starterShows_orEmptyList {c c'} (hc : StarterShows value c) (hok : orEmptyList "volumeMounts" c = .ok c') :
    StarterShows value c' := by
  obtain ⟨brokers, producer, status, event, henv, hv⟩ := hc.env
  exact ⟨brokers, producer, status, event, (get?_orEmptyList_ne (by decide) hok).trans henv, hv⟩

theorem starts_createEmptyFields (hd : CronDoc value h.root) (hok : createEmptyFields none h = .ok h') :
    ∃ root, h' = { h with root } ∧ Starts value root := by
  obtain ⟨s, hs, hno⟩ := hd.spec
  obtain ⟨spec, c, hsp, hco, hc⟩ := hd.starts
  obtain ⟨path, hp, hok⟩ := bind_ok.1 hok
  obtain rfl := podSpecPath_cron hsp hs hno hp
  rw [attrs_of_getPath? hsp] at hok
  obtain ⟨_, h₀, hok⟩ := bind_ok.1 hok
  cases h₀
  obtain ⟨spec', he, hok⟩ := bind_ok.1 hok
  obtain ⟨spec₁, h₁, he⟩ := bind_ok.1 he
  obtain ⟨spec₂, h₂, he⟩ := bind_ok.1 he
  have hget : spec₂.get? "containers" = some (.arr [c]) :=
    (get?_orEmptyList_ne (by decide) h₂).trans ((get?_orEmptyList_ne (by decide) h₁).trans hco)
  rw [attr_of_get? hget] at he
  obtain ⟨_, h₃, he⟩ := bind_ok.1 he
  cases h₃
  obtain ⟨_, h₄, he⟩ := bind_ok.1 he
  cases h₄
  obtain ⟨cs, hcs, he⟩ := bind_ok.1 he
  obtain _ | ⟨hm, hnil⟩ := forall₂_of_mapM hcs
  cases hnil
  refine ⟨_, (pure_ok.1 hok).symm, spec', _, Tree.getPath?_set_self hsp spec', ?_, starterShows_orEmptyList hc hm⟩
  rw [← pure_ok.1 he]
  cases spec₂ with
  | obj fs => exact lookup_assign_self _ _ fs
  | _ => cases hget

theorem starts_addLabelTo {root root' key label} (hr : Starts value root)
    (hok : addLabelTo key label root = .ok root') : Starts value root' := by
  obtain ⟨spec, c, hs, hco, hc⟩ := hr
  rw [← (addLabelTo_ok.1 hok).1]
  refine ⟨_, c, getPath?_mapDicts hs (by decide), ?_, hc⟩
  rw [get?_mapDicts_ne key label spec (by decide), hco]
  rfl

structure Alone (value : Tree) (h : RootObjectHelper) : Prop where
  starts : Starts value h.root
  others : h.config_maps = [] ∧ h.role_bindings = [] ∧ h.services = []

theorem alone_addLabel {key label} (ha : Alone value h) (hok : addLabel key label h = .ok h') :
    Alone value h' := by
  obtain ⟨hm, hb, hs⟩ := ha.others
  unfold addLabel at hok
  rw [hm, hb, hs] at hok
  obtain ⟨root, hr, hok⟩ := bind_ok.1 hok
  cases hok
  exact ⟨starts_addLabelTo ha.starts hr, rfl, rfl, rfl⟩

theorem alone_labels {labels : List (String × String)} (ha : Alone value h)
    (hok : labels.foldlM (fun h kv => addLabel kv.1 (.str kv.2) h) h = .ok h') : Alone value h' := by
  induction labels generalizing h with
  | nil => exact pure_ok.1 hok ▸ ha
  | cons kv labels ih =>
    obtain ⟨h₁, h₁ok, hok⟩ := bind_ok.1 hok
    exact ih (alone_addLabel ha h₁ok) hok

theorem alone_ofDocs {d} (hd : CronDoc value d) (hok : ofDocs [d] = .ok h) : Alone value h := by
  unfold ofDocs at hok
  rw [List.foldlM_cons, readDoc_root hd.kind (by decide)] at hok
  obtain ⟨l, hl, hok⟩ := bind_ok.1 hok
  cases hl
  obtain ⟨_, -, hok⟩ := bind_ok.1 hok
  obtain ⟨root, rfl, hs⟩ := starts_createEmptyFields hd hok
  exact ⟨hs, rfl, rfl, rfl⟩

end Edits

/-! ## The environment of the container -/

/-- A scheduled benchmark is one object, and its container gets what the loader reads the text of the
event as. -/
theorem starts_createScheduledJobSpec {o : Outside} {r : Request} (hs : Scalars o .cron_job (scheduledValues o r)) {objs}
    (hok : createScheduledJobSpec o r = .ok objs) :
    ∃ root value, objs = [root] ∧ o.yaml.scalar r.event_json_str = some value ∧ Starts value root := by
  obtain ⟨v, docs, hv, hr⟩ := hs
  obtain ⟨_, -, hok⟩ := bind_ok.1 hok
  obtain ⟨job, hjob, hok⟩ := bind_ok.1 hok
  obtain ⟨d, value, rfl, hs, hd⟩ := cronDoc_read hr
  have hlo := o.yaml.load_scalars .cron_job v [d] hr
  obtain ⟨h, hf, hjob⟩ := bind_ok.1 hjob
  rw [hv] at hf
  obtain ⟨_, hv', hf⟩ := bind_ok.1 hf
  cases hv'
  rw [hlo] at hf
  obtain ⟨_, hdo, hf⟩ := bind_ok.1 hf
  cases hdo
  obtain ⟨h', hl, hjob⟩ := bind_ok.1 hjob
  cases hjob
  obtain ⟨hst, hm, hb, hse⟩ := alone_labels (alone_ofDocs hd hf) hl
  have he : v.event_json_str = r.event_json_str := by
    obtain ⟨_, -, hv⟩ := bind_ok.1 hv
    rw [← pure_ok.1 hv]
  refine ⟨h'.root, value, ?_, he ▸ hs, hst⟩
  rw [← pure_ok.1 hok]
  simp [RootObjectHelper.objects, hm, hb, hse]

def starterVars (brokers producer status : String) : List (String × Source) :=
  [("KAFKA_BOOTSTRAP_SERVERS", .given brokers), ("PRODUCER_TOPIC", .given producer), ("STATUS_TOPIC", .given status)]

theorem Starts.containerVars {s root} (h : Starts (.str s) root) :
    ∃ c brokers producer status, starter root = some c ∧ ∀ refs, containerVars refs c =
      starterVars (refs brokers) (refs producer) (refs status) ++ [("BENCHMARK_EVENT", .text s)] := by
  obtain ⟨spec, c, hsp, hco, hc⟩ := h
  obtain ⟨brokers, producer, status, event, henv, hb, hp, hs, hn, hv⟩ := hc.env
  refine ⟨c, brokers, producer, status, ?_, fun refs => ?_⟩
  · rw [starter, hsp, Option.bind_some, listOf, hco]
    rfl
  · rw [Transpiler.containerVars, listOf, henv]
    simp [varSource, hb.name, hb.value, hp.name, hp.value, hs.name, hs.value, hn, hv, starterVars]

end BenchmarkAi.Transpiler
