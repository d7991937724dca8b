import BenchmarkAi.Lib.BlockYaml
import BenchmarkAi.Transpiler.LabelTheorems
import BenchmarkAi.Transpiler.TemplatePods
/-!
# Volumes of the generated pods

In each pod of a specification the mounts are of volumes that the pod declares, no two
volumes and no two containers share a name, and the pullers are there exactly when there
is something to pull. A value that is more than one scalar in its template can break this.
-/

open Lib List

namespace BenchmarkAi.Transpiler

/-! ## Closed pod specs -/

def podContainers (spec : Tree) : List Tree := listOf "initContainers" spec ++ listOf "containers" spec

structure VolumesClosed (spec : Tree) : Prop where
  mounted : ∀ c ∈ podContainers spec, ∀ m ∈ listOf "volumeMounts" c,
    ∃ volume, nameOf m = some volume ∧ some volume ∈ (listOf "volumes" spec).map nameOf
  volumes_nodup : ((listOf "volumes" spec).map nameOf).Nodup
  containers_nodup : ((podContainers spec).map nameOf).Nodup

def PodClosed (h : RootObjectHelper) (plan : PodPlan) : Prop :=
  ∃ spec, getPodSpec h plan.replica = .ok spec ∧ VolumesClosed spec ∧
    (some dataPullerContainer ∈ (podContainers spec).map nameOf ↔ plan.data_sources ≠ []) ∧
    (some scriptsPullerContainer ∈ (podContainers spec).map nameOf ↔ plan.scripts ≠ [])

/-! ## What the views say about the trees -/

variable {α : Type} {R : Tree → α → Prop} {xs : List α} {t : Tree} {r : Request} {h : RootObjectHelper}

theorem map_nameOf {f} (hR : ∀ t x, R t x → NameIs t (f x)) {ts : List Tree} (h : Forall₂ R ts xs) :
    ts.map nameOf = (xs.map f).map some := by
  induction h with
  | nil => rfl
  | cons ht _ ih => rw [map_cons, map_cons, map_cons, ih, nameOf_of_nameIs (hR _ _ ht)]

variable {spec : Tree} {p : PodShape} {o : Outside}

theorem ListShows.listOf {k} (h : ListShows R spec k xs) : Forall₂ R (Transpiler.listOf k spec) xs := by
  obtain ⟨ts, hget, hall⟩ := h
  rw [Transpiler.listOf, hget]
  exact hall

theorem ContainerShows.listOf_mounts {c : PodContainer} (h : ContainerShows t c) :
    (listOf "volumeMounts" t).map nameOf = c.mounts.map some := by
  rcases h.mounts with ⟨hno, hnil⟩ | hl
  · rw [listOf, hno, hnil]
    rfl
  · have hn := map_nameOf (f := id) (fun t x hm => MountShows.name hm) (ListShows.listOf hl)
    rwa [map_id] at hn

theorem Shows.podContainers (h : Shows spec p) :
    Forall₂ ContainerShows (podContainers spec) p.containers := rel_append h.inits.listOf h.mains.listOf

theorem Shows.names (h : Shows spec p) : (Transpiler.podContainers spec).map nameOf = p.names.map some :=
  map_nameOf (fun _ _ hc => hc.name) h.podContainers

theorem Shows.volumeNames (h : Shows spec p) : (listOf "volumes" spec).map nameOf = p.volumes.map some := by
  have hn := map_nameOf (f := id) (fun _ _ hv => hv) h.volumes.listOf
  rwa [map_id] at hn

theorem some_mem_map_some {x} {xs : List String} : some x ∈ xs.map some ↔ x ∈ xs :=
  mem_map_of_injective fun _ _ => Option.some.inj

theorem volumesClosed_of_shows {p : Pod} (h : Shows spec p.toPodShape) : VolumesClosed spec where
  mounted := by
    intro t ht m hm
    obtain ⟨c, hc, hs⟩ := exists_of_forall₂ h.podContainers.flip ht
    have hn : nameOf m ∈ c.mounts.map some := hs.listOf_mounts ▸ mem_map_of_mem hm
    obtain ⟨volume, hv, heq⟩ := mem_map.1 hn
    refine ⟨volume, heq.symm, ?_⟩
    rw [h.volumeNames, some_mem_map_some]
    exact p.mounted c hc volume hv
  volumes_nodup := h.volumeNames ▸ p.volumes_nodup.map fun _ _ => Option.some.inj
  containers_nodup := h.names ▸ p.names_nodup.map fun _ _ => Option.some.inj

theorem mem_names_of_pulls (h : Shows spec p) {name} {pulls : Option (Option (String × String))}
    (hp : (p.find name).map (·.pulls) = pulls) : some name ∈ (podContainers spec).map nameOf ↔ pulls.isSome = true := by
  rw [h.names, some_mem_map_some, PodShape.mem_names_iff, ← hp, Option.isSome_map]

theorem Shows.find_of_nameOf {p : Pod} (h : Shows spec p.toPodShape) {name} (ht : t ∈ Transpiler.podContainers spec)
    (hn : nameOf t = some name) : ∃ c, p.find name = some c ∧ ContainerShows t c := by
  obtain ⟨c, hc, htc⟩ := exists_of_forall₂ h.podContainers.flip ht
  rw [nameOf_of_nameIs htc.name] at hn
  exact ⟨c, Option.some.inj hn ▸ PodShape.find_of_mem p.names_nodup hc, htc⟩

theorem isSome_pulledData {config data_sources} :
    (pulledData o config data_sources).isSome = true ↔ data_sources ≠ [] := by
  unfold pulledData
  split
  · rename_i hnil
    exact ⟨nofun, fun h => absurd hnil h⟩
  · rename_i hne
    exact ⟨fun _ => hne, fun _ => rfl⟩

theorem isSome_pulledScripts {dsts : List String} {scripts}
    (h : dsts.mapM (fun dst => s3Object o "script" (some dst)) = .ok scripts) :
    (pulledScripts scripts).isSome = true ↔ dsts ≠ [] := by
  cases forall₂_of_mapM h with
  | nil => exact ⟨nofun, fun h => absurd rfl h⟩
  | cons _ _ => exact ⟨fun _ => nofun, fun _ => rfl⟩

/-! ## Volume closure -/

theorem podClosed_of_fulfils {plan} (hf : Fulfils o r h plan) : PodClosed h plan := by
  obtain ⟨scripts, hs, p, hat, hst⟩ := hf
  obtain ⟨spec, hsp, hsh⟩ := getPodSpec_of_at hat
  refine ⟨spec, hsp, volumesClosed_of_shows hsh, ?_, ?_⟩
  · rw [mem_names_of_pulls hsh hst.data, isSome_pulledData]
  · rw [mem_names_of_pulls hsh hst.scripts, isSome_pulledScripts hs]

/-- Every pod of a specification is closed: the pods of the benchmark job and the pod of
the inference server, when the values that are fed to the template are scalars. -/
theorem generated_pods_closed (o : Outside) (r : Request) (h : RootObjectHelper) :
    (buildBenchmark o r = .ok h → Scalars o r.descriptor.hardware.strategy.template (benchmarkValues o r) →
      ∀ plan ∈ benchmarkPods r, PodClosed h plan) ∧
    ∀ server, buildInferenceServer o r server = .ok h →
      Scalars o .inference_server_job (serverValues o r server) → ∀ plan ∈ serverPods r server, PodClosed h plan := by
  constructor
  · intro hok hs plan hp
    exact podClosed_of_fulfils (fulfils_benchmark hok hs hp)
  · intro server hok hs plan hp
    exact podClosed_of_fulfils (fulfils_server hok hs hp)

theorem generated_pods_closed_training : ∃ h, buildBenchmark exampleOutside (exampleRequest trainingLabels) = .ok h ∧
    PodClosed h ⟨none, [], [], some []⟩ := by
  have hb : (buildBenchmark exampleOutside (exampleRequest trainingLabels)).toOption.any (fun _ => true) = true := by
    decide +kernel
  have hs : (benchmarkValues exampleOutside (exampleRequest trainingLabels)).toOption.any
      (fun v => (Doc.readItems exampleScalar (Template.jobSingleNode v)).isSome) = true := by decide +kernel
  obtain ⟨h, hok, -⟩ := exists_ok_of_any hb
  obtain ⟨v, hv, hr⟩ := exists_ok_of_any hs
  obtain ⟨docs, hd⟩ := Option.isSome_iff_exists.1 hr
  exact ⟨h, hok, (generated_pods_closed _ _ h).1 hok ⟨v, docs, hv, hd⟩ _ mem_cons_self⟩

theorem createJobSpec_of_valid
    (hv : (r.descriptor.fromDict o.cronValid r.config.descriptor_config).toOption.any (fun d => d.hardware.strategy ≠ .inference) = true)
    (hok : buildBenchmark o r = .ok h) : createJobSpec o r = .ok h.objects := by
  obtain ⟨d, hd, hs⟩ := exists_ok_of_any hv
  rw [createJobSpec, hd, hok]
  exact if_pos (of_decide_eq_true hs)

/-! ## A loader of scalars -/

theorem load_of_build {o : Outside} {t v labels update} (hok : build o t v labels update = .ok h) :
    ∃ vs docs, v = .ok vs ∧ o.yaml.load t vs = .ok docs := by
  obtain ⟨_, hf, -⟩ := bind_ok.1 hok
  obtain ⟨vs, hv, hf⟩ := bind_ok.1 hf
  obtain ⟨docs, hl, -⟩ := bind_ok.1 hf
  exact ⟨vs, docs, hv, hl⟩

theorem readItems_of_load {scalar t v docs} (h : (Yaml.ofScalar scalar).load t v = .ok docs) :
    Doc.readItems scalar (t.docs v) = some docs := by
  cases hr : Doc.readItems scalar (t.docs v) with
  | none => simp [Yaml.ofScalar, hr] at h
  | some docs' =>
    simp only [Yaml.ofScalar, hr] at h
    exact congrArg some (pure_ok.1 h)

theorem scalars_of_build {o : Outside} {scalar} (ho : o.yaml = .ofScalar scalar) {t v labels}
    {update} (hok : build o t v labels update = .ok h) : Scalars o t v := by
  obtain ⟨vs, docs, hv, hl⟩ := load_of_build hok
  rw [ho] at hl
  exact ⟨vs, docs, hv, ho ▸ readItems_of_load hl⟩

def plainYaml : Yaml := .ofScalar Scalar.read

theorem scalars_of_buildBenchmark {o : Outside} {scalar} (ho : o.yaml = .ofScalar scalar) (hok : buildBenchmark o r = .ok h) :
    Scalars o r.descriptor.hardware.strategy.template (benchmarkValues o r) := by
  obtain ⟨_, -, hok⟩ := bind_ok.1 hok
  exact scalars_of_build ho hok

def plainOutside : Outside := { exampleOutside with yaml := plainYaml }

/-! ## A value with line breaks -/

/-- An image that goes on with mounts of its own, and with the head of a second container
that takes the rest of the benchmark container. -/
def wideImage : String :=
  "benchmark-image\n        volumeMounts:\n        - name: nowhere\n          mountPath: /x\n      - name: other\n" ++
  "        image: benchmark-image"

/-- What stands in the line of a key. -/
def Doc.inline : Doc → List Char
  | .lit (.str s) => Json.quote s
  | .lit (.num n) => (toString n).toList
  | .lit (.bool b) => (toString b).toList
  | .plain s => s.toList
  | .single s => '\'' :: s.toList ++ ['\'']
  | .double s => '"' :: s.toList ++ ['"']
  | .obj _ => ['\x7b', '\x7d']
  | .lit _ | .arr _ => ['[', ']']

mutual
/-- The text of a template with its values, as the files are laid out: a level is two columns, and a
list starts in the column of its key. -/
def Doc.write (indent : Nat) : Doc → List Char
  | .arr (d :: ds) => '\n' :: writeItems indent (d :: ds)
  | .obj (f :: fs) => '\n' :: writeFields (indent + 2) (f :: fs)
  | d => ' ' :: d.inline ++ ['\n']

def Doc.writeItems (indent : Nat) : List Doc → List Char
  | [] => []
  | .obj fs :: ds => replicate indent ' ' ++ '-' :: ' ' :: (writeFields (indent + 2) fs).drop (indent + 2) ++ writeItems indent ds
  | d :: ds => replicate indent ' ' ++ '-' :: ' ' :: d.inline ++ '\n' :: writeItems indent ds

def Doc.writeFields (indent : Nat) : List (String × Doc) → List Char
  | [] => []
  | (k, d) :: fs => replicate indent ' ' ++ k.toList ++ ':' :: d.write indent ++ writeFields indent fs
end

def Doc.text : Doc → List Char
  | .obj fs => writeFields 0 fs
  | d => d.inline

/-- A loader that reads the text line by line where a value is not one node in its place. -/
def blockYaml : Yaml where
  scalar := Scalar.read
  load := fun t v =>
    match Doc.readItems Scalar.read (t.docs v), (t.docs v).mapM fun d => BlockYaml.read d.text with
    | some docs, _ => return docs
    | none, some docs => return docs
    | none, none => throw .builtin
  load_scalars := fun t v docs h => by rw [h]; rfl

def wideOutside : Outside := { exampleOutside with yaml := blockYaml }

def wideRequest : Request :=
  { exampleRequest trainingLabels with
    descriptor := { (exampleRequest trainingLabels).descriptor with env := { docker_image := wideImage } } }

/-- The specification is accepted, and its benchmark container mounts a volume that is
not declared. -/
theorem wide_image_mounts_nowhere : ∃ objs h, createJobSpec wideOutside wideRequest = .ok objs ∧
    buildBenchmark wideOutside wideRequest = .ok h ∧ objs = h.objects ∧
    ∃ plan ∈ benchmarkPods wideRequest, ¬ PodClosed h plan := by
  have hv : (wideRequest.descriptor.fromDict wideOutside.cronValid wideRequest.config.descriptor_config).toOption.any
      (fun d => d.hardware.strategy ≠ .inference) = true := by decide +kernel
  have hb : (buildBenchmark wideOutside wideRequest).toOption.any (fun h =>
      (getPodSpec h none).toOption.any fun spec =>
        (podContainers spec).any fun c => (listOf "volumeMounts" c).any fun m =>
          nameOf m == some "nowhere" && !((listOf "volumes" spec).map nameOf).contains (some "nowhere")) = true := by
    decide +kernel
  obtain ⟨h, hok, hpod⟩ := exists_ok_of_any hb
  obtain ⟨spec, hp, hany⟩ := exists_ok_of_any hpod
  simp only [any_eq_true, Bool.and_eq_true, beq_iff_eq, Bool.not_eq_true', contains_eq_mem,
    decide_eq_false_iff_not] at hany
  obtain ⟨c, hc, m, hm, hn, hno⟩ := hany
  refine ⟨_, h, createJobSpec_of_valid hv hok, hok, rfl, _, mem_cons_self, ?_⟩
  rintro ⟨spec', hs', hcl, -⟩
  obtain rfl := Except.ok.inj (hp.symm.trans hs')
  obtain ⟨volume, hvo, hd⟩ := hcl.mounted c hc m hm
  obtain rfl := Option.some.inj (hn.symm.trans hvo)
  exact hno hd

end BenchmarkAi.Transpiler
