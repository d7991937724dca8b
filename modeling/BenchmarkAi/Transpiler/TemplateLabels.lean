import BenchmarkAi.Transpiler.Labels
/-!
# The labels that the templates write

The objects of a filled template are its documents as the loader reads them. Every
document of every template writes the labels for the action, the client and the
service as plain scalars, and none writes the label for a parent action.
-/

open Lib List

namespace BenchmarkAi.Transpiler

/-! ## From documents to objects -/

def Loading.holds (l : Loading) (d : Tree) : Prop :=
  l.root = some d ∨ d ∈ l.config_maps ∨ d ∈ l.role_bindings ∨ d ∈ l.services

variable {e t : Tree} {scalar : String → Option Tree} {fs : List (String × Doc)} {d : Doc} {v : Values}

variable {l l' : Loading} {h : RootObjectHelper} {ls : List (String × Doc)} {y : Yaml}

theorem readDoc_holds {d} (h : readDoc l d = .ok l') (he : l'.holds e) : l.holds e ∨ e = d := by
  unfold readDoc at h
  split at h
  · cases h
  · split at h
    · cases h
      simp only [Loading.holds, mem_append, mem_singleton] at he ⊢
      tauto
    · split at h
      · cases h
        simp only [Loading.holds, Option.some.injEq] at he ⊢
        rcases he with rfl | he
        · exact .inr rfl
        · exact .inl (.inr he)
      · split at h
        · cases h
          simp only [Loading.holds, mem_append, mem_singleton] at he ⊢
          tauto
        · split at h
          · cases h
            simp only [Loading.holds, mem_append, mem_singleton] at he ⊢
            tauto
          · cases h

theorem loading_holds {docs : List Tree} (h : docs.foldlM readDoc l = .ok l') (he : l'.holds e) : l.holds e ∨ e ∈ docs := by
  induction docs generalizing l with
  | nil =>
    cases h
    exact .inl he
  | cons d docs ih =>
    obtain ⟨l₁, h₁, h⟩ := bind_ok.1 h
    rcases ih h with hl | hmem
    · exact (readDoc_holds h₁ hl).imp_right fun (hd : e = d) => hd ▸ mem_cons_self
    · exact .inr (mem_cons_of_mem _ hmem)

/-- The objects are the documents that were read, but for empty lists in the pod specs. -/
theorem ofDocs_objects {docs} (hok : ofDocs docs = .ok h) {d} (hd : d ∈ h.objects) :
    ∃ e ∈ docs, Relabelled [] e d := by
  obtain ⟨l, hl, hok⟩ := bind_ok.1 hok
  split at hok
  · rename_i kind root hk hr
    have hrel : Relabels [] ⟨root, l.config_maps, l.role_bindings, l.services⟩ h := by
      split at hok
      · obtain ⟨_, -, hok⟩ := bind_ok.1 hok
        obtain ⟨h₁, h₁ok, hok⟩ := bind_ok.1 hok
        exact (edits_onPodSpec _ _ _ _ h₁ok).trans (edits_onPodSpec _ _ _ _ hok)
      · obtain ⟨_, -, hok⟩ := bind_ok.1 hok
        exact edits_onPodSpec _ _ _ _ hok
    obtain ⟨e, he, hed⟩ := exists_of_forall₂ hrel hd
    have hh : l.holds e := by
      simp only [RootObjectHelper.objects, mem_append, mem_singleton] at he
      rcases he with ((he | he) | he) | rfl
      · exact .inr (.inr (.inl he))
      · exact .inr (.inl he)
      · exact .inr (.inr (.inr he))
      · exact .inl hr
    rcases loading_holds hl hh with hem | hmem
    · simp [Loading.holds] at hem
    · exact ⟨e, hmem, hed⟩
  · cases hok

/-! ## Labels of a document -/

def Doc.Labelled (ls : List (String × Doc)) (d : Doc) : Prop :=
  ∃ fs ms, d = .obj fs ∧ fs.lookup "metadata" = some (.obj ms) ∧ ms.lookup "labels" = some (.obj ls)

theorem lookup_readFields {gs : List (String × Tree)} (h : Doc.readFields scalar fs = some gs) (k : String) :
    (gs.lookup k).map some = (fs.lookup k).map (·.read scalar) := by
  induction fs generalizing gs with
  | nil =>
    cases h
    rfl
  | cons f fs ih =>
    simp only [Doc.readFields, bind, Option.bind_eq_some_iff, pure, Option.some.injEq] at h
    obtain ⟨t, ht, gs', hgs, rfl⟩ := h
    rw [lookup_cons_if, lookup_cons_if]
    split
    · exact congrArg some ht.symm
    · exact ih hgs

theorem forall₂_read {ds ts} (h : Doc.readItems scalar ds = some ts) :
    Forall₂ (fun d t => d.read scalar = some t) ds ts := by
  induction ds generalizing ts with
  | nil =>
    cases h
    exact .nil
  | cons d ds ih =>
    simp only [Doc.readItems, bind, Option.bind_eq_some_iff, pure, Option.some.injEq] at h
    obtain ⟨t, ht, us, hus, rfl⟩ := h
    exact .cons ht (ih hus)

theorem read_obj (h : (Doc.obj fs).read scalar = some t) (k : String) :
    (t.get? k).map some = (fs.lookup k).map (·.read scalar) := by
  rw [Doc.read, Option.map_eq_some_iff] at h
  obtain ⟨gs, hgs, rfl⟩ := h
  exact lookup_readFields hgs k

theorem get?_read {k} (h : (Doc.obj fs).read scalar = some t) (hk : fs.lookup k = some d) :
    ∃ u, t.get? k = some u ∧ d.read scalar = some u := by
  have hu := read_obj h k
  rw [hk, Option.map_some, Option.map_eq_some_iff] at hu
  obtain ⟨u, hu, hd⟩ := hu
  exact ⟨u, hu, hd.symm⟩

theorem get?_read_arr {ds k} (h : (Doc.obj fs).read scalar = some t) (hk : fs.lookup k = some (.arr ds)) :
    ∃ ts, t.get? k = some (.arr ts) ∧ Forall₂ (fun d t => d.read scalar = some t) ds ts := by
  obtain ⟨u, hu, hr⟩ := get?_read h hk
  rw [Doc.read, Option.map_eq_some_iff] at hr
  obtain ⟨ts, hts, rfl⟩ := hr
  exact ⟨ts, hu, forall₂_read hts⟩

/-- A label of the object is what the loader reads at that label of the document. -/
theorem Doc.Labelled.labelOf_read (hd : d.Labelled ls) (h : d.read scalar = some t) (k : String) :
    labelOf t k = ((ls.lookup k).bind (·.read scalar)).bind (·.asString) := by
  obtain ⟨fs, ms, rfl, hm, hl⟩ := hd
  obtain ⟨m, htm, hm⟩ := get?_read h hm
  obtain ⟨l, hml, hl⟩ := get?_read hm hl
  rw [labelOf, htm, Option.bind_some, hml, Option.bind_some]
  have hk := read_obj hl k
  cases hlk : ls.lookup k with
  | none =>
    rw [hlk, Option.map_none, Option.map_eq_none_iff] at hk
    rw [hk]
    rfl
  | some e =>
    rw [hlk, Option.map_some, Option.map_eq_some_iff] at hk
    obtain ⟨u, hu, hue⟩ := hk
    rw [hu, Option.bind_some e, ← hue]

theorem Doc.Labelled.hasMetadata_read (hd : d.Labelled ls) (h : d.read scalar = some t) : hasMetadata t = true := by
  obtain ⟨fs, ms, rfl, hm, hl⟩ := hd
  obtain ⟨m, htm, hm⟩ := get?_read h hm
  obtain ⟨l, hml, -⟩ := get?_read hm hl
  rw [hasMetadata, htm]
  -- a dict with labels is not empty
  cases m with
  | obj gs =>
    cases gs with
    | nil => cases hml
    | cons g gs => rfl
  | _ => cases hml

/-! ## The templates -/

structure WritesIds (v : Values) (ls : List (String × Doc)) : Prop where
  own : ∀ kv ∈ Template.idLabels v, ls.lookup kv.1 = some kv.2
  parent : ls.lookup "parent-action-id" = none

theorem writesIds_idLabels (v : Values) : WritesIds v (Template.idLabels v) := by
  constructor <;> simp [Template.idLabels, lookup_cons_if]

theorem WritesIds.cons {v ls} (h : WritesIds v ls) {k} (d : Doc)
    (hk : k ∉ ["action-id", "client-id", "created-by", "parent-action-id"]) : WritesIds v ((k, d) :: ls) := by
  simp only [mem_cons, not_mem_nil, or_false, not_or] at hk
  obtain ⟨ha, hc, hs, hp⟩ := hk
  constructor
  · intro kv hkv
    rw [lookup_cons_if, if_neg, h.own kv hkv]
    simp only [Template.idLabels, mem_cons, not_mem_nil, or_false] at hkv
    rcases hkv with rfl | rfl | rfl
    · exact Ne.symm ha
    · exact Ne.symm hc
    · exact Ne.symm hs
  · rw [lookup_cons_if, if_neg (Ne.symm hp), h.parent]

theorem WritesIds.append {v} {ls ms : List (String × Doc)} (h : WritesIds v ls)
    (hm : ms.lookup "parent-action-id" = none) : WritesIds v (ls ++ ms) := by
  constructor
  · intro kv hkv
    rw [lookup_append, h.own kv hkv]
    rfl
  · rw [lookup_append, h.parent, hm]
    rfl

/-- Every document of every template writes them. -/
theorem template_labels (t : Template) (v : Values) (hd : d ∈ t.docs v) : ∃ ls, d.Labelled ls ∧ WritesIds v ls := by
  have written (fs ms ls : List (String × Doc)) (hm : fs.lookup "metadata" = some (.obj ms))
      (hl : ms.lookup "labels" = some (.obj ls)) (hw : WritesIds v ls) :
      ∃ ls, (Doc.obj fs).Labelled ls ∧ WritesIds v ls := ⟨ls, ⟨fs, ms, rfl, hm, hl⟩, hw⟩
  have ids := writesIds_idLabels v
  have app : WritesIds v (Template.appLabels v) := ids.cons _ (by decide)
  cases t with
  | cron_job =>
    obtain rfl := mem_singleton.1 hd
    exact written _ _ _ rfl rfl app
  | job_single_node =>
    obtain rfl := mem_singleton.1 hd
    exact written _ _ _ rfl rfl app
  | mpi_job_horovod =>
    have benchmark := ids.cons (k := "benchmark") (.plain v.job_id) (by decide)
    rcases mem_cons.1 hd with rfl | hd
    · exact written _ _ _ rfl rfl benchmark
    · rcases mem_cons.1 hd with rfl | hd
      · exact written _ _ _ rfl rfl benchmark
      · obtain rfl := mem_singleton.1 hd
        exact written _ _ _ rfl rfl app
  | inference_server_job =>
    rcases mem_cons.1 hd with rfl | hd
    · exact written _ _ _ rfl rfl ids
    · obtain rfl := mem_singleton.1 hd
      exact written _ _ _ rfl rfl (app.append rfl)

/-! ## Objects of a filled template -/

def Yaml.string (y : Yaml) (s : String) : Option String := (y.scalar s).bind (·.asString)

structure ReadsIds (y : Yaml) (v : Values) (d : Tree) : Prop where
  metadata : hasMetadata d = true
  action : labelOf d "action-id" = y.string v.action_id
  client : labelOf d "client-id" = y.string v.client_id
  service : labelOf d "created-by" = y.string v.service_name
  parent : labelOf d "parent-action-id" = none

theorem readsIds_read {t : Template} (hd : d ∈ t.docs v) (he : d.read y.scalar = some e) : ReadsIds y v e := by
  obtain ⟨ls, hls, hw⟩ := template_labels t v hd
  have own (k s : String) (hk : (k, Doc.plain s) ∈ Template.idLabels v) : labelOf e k = y.string s := by
    rw [hls.labelOf_read he, hw.own _ hk, Option.bind_some, Doc.read, Yaml.string]
  refine ⟨hls.hasMetadata_read he, own _ _ (by simp [Template.idLabels]), own _ _ (by simp [Template.idLabels]),
    own _ _ (by simp [Template.idLabels]), ?_⟩
  rw [hls.labelOf_read he, hw.parent]
  rfl

theorem ReadsIds.of_relabelled {d} (h : ReadsIds y v e) (hd : Relabelled [] e d) : ReadsIds y v d where
  metadata := hd.metadata.trans h.metadata
  action := (hd.labels h.metadata _).trans h.action
  client := (hd.labels h.metadata _).trans h.client
  service := (hd.labels h.metadata _).trans h.service
  parent := (hd.labels h.metadata _).trans h.parent

theorem fillTemplate_labels {o : Outside} {t : Template} {docs}
    (hr : Doc.readItems o.yaml.scalar (t.docs v) = some docs) (hok : fillTemplate o t (.ok v) = .ok h) {d}
    (hd : d ∈ h.objects) : ReadsIds o.yaml v d := by
  obtain ⟨_, hv, hok⟩ := bind_ok.1 hok
  cases hv
  obtain ⟨docs', hl, hok⟩ := bind_ok.1 hok
  obtain rfl := Except.ok.inj ((o.yaml.load_scalars t _ docs hr).symm.trans hl)
  obtain ⟨e, he, hed⟩ := ofDocs_objects hok hd
  obtain ⟨w, hw, hwe⟩ := exists_of_forall₂ (forall₂_read hr) he
  exact (readsIds_read hw hwe).of_relabelled hed

end BenchmarkAi.Transpiler
