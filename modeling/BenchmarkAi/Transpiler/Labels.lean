import BenchmarkAi.Transpiler.Frames
/-!
# What the edits do to the labels

A builder makes many edits, and a few of them are labels. `Relabels L` says that of
the objects, item by item, nothing of the top labels has changed but the
assignments `L`. Edits of pod specs, of ports and of the config map are
`Relabels []`, adding a label is `Relabels [(key, value)]`, and edits in sequence
append their lists.
-/

open Lib List

namespace BenchmarkAi.Transpiler

def labelOf (o : Tree) (k : String) : Option String :=
  (((o.get? "metadata").bind (·.get? "labels")).bind (·.get? k)).bind (·.asString)

def hasMetadata (o : Tree) : Bool := (o.get? "metadata").any (·.truthy)

def after (L : List (String × Tree)) (k : String) (old : Option String) : Option String :=
  L.foldl (fun v kv => if kv.1 = k then kv.2.asString else v) old

structure Relabelled (L : List (String × Tree)) (o o' : Tree) : Prop where
  metadata : hasMetadata o' = hasMetadata o
  labels : hasMetadata o = true → ∀ k, labelOf o' k = after L k (labelOf o k)

variable {o o' : Tree} {k : String} {gs : List (String × Tree)} {h h' : RootObjectHelper}

theorem Relabelled.of_metadata (h : o'.get? "metadata" = o.get? "metadata") : Relabelled [] o o' where
  metadata := by rw [hasMetadata, hasMetadata, h]
  labels := fun _ k => by rw [labelOf, h]; rfl

theorem Relabelled.trans {L M o''} (h₁ : Relabelled L o o') (h₂ : Relabelled M o' o'') :
    Relabelled (L ++ M) o o'' where
  metadata := h₂.metadata.trans h₁.metadata
  labels := fun hm k => by
    rw [h₂.labels (h₁.metadata.trans hm) k, h₁.labels hm k, after, after, after, foldl_append]

theorem labelOf_eq_none (h : hasMetadata o = false) (k : String) : labelOf o k = none := by
  unfold labelOf
  cases hm : o.get? "metadata" with
  | none => rfl
  | some m =>
    rw [hasMetadata, hm] at h
    cases m with
    | obj fs =>
      cases fs with
      | nil => rfl
      | cons f fs => cases h
    | _ => rfl

/-! ## One label -/

theorem asString_mapDicts (f : List (String × Tree) → List (String × Tree)) (t : Tree) :
    (t.mapDicts f).asString = t.asString := by
  cases t <;> simp [Tree.mapDicts, Tree.asString]

/-- At the dict itself only the metadata may change, from one dict to another. -/
theorem setLabel_eq (key : String) (value : Tree) (fs : List (String × Tree)) :
    setLabel key value fs = fs ∨ ∃ ms ns, fs.lookup "metadata" = some (.obj ms) ∧
      setLabel key value fs = assign "metadata" (.obj ns) fs := by
  unfold setLabel
  split
  · rename_i hm
    split
    · exact .inr ⟨_, _, hm, rfl⟩
    · split
      · exact .inl rfl
      · exact .inr ⟨_, _, hm, rfl⟩
    · exact .inr ⟨_, _, hm, rfl⟩
  · exact .inl rfl

theorem asString_setLabel (key : String) (value : Tree) (fs : List (String × Tree)) (k : String) :
    ((setLabel key value fs).lookup k).bind (·.asString) = (fs.lookup k).bind (·.asString) := by
  rcases setLabel_eq key value fs with heq | ⟨ms, ns, hm, heq⟩
  · rw [heq]
  · rw [heq]
    by_cases hk : k = "metadata"
    · subst hk
      rw [lookup_assign_self, hm]
      rfl
    · rw [lookup_assign_ne hk]

theorem lookup_setLabel_ne (key : String) (value : Tree) (fs : List (String × Tree)) (hk : k ≠ "metadata") :
    (setLabel key value fs).lookup k = fs.lookup k := by
  rcases setLabel_eq key value fs with heq | ⟨ms, ns, -, heq⟩
  · rw [heq]
  · rw [heq, lookup_assign_ne hk]

theorem setLabel_ne_nil (key : String) (value : Tree) {fs} (h : fs ≠ []) : setLabel key value fs ≠ [] := by
  rcases setLabel_eq key value fs with heq | ⟨ms, ns, -, heq⟩
  · rwa [heq]
  · rw [heq]
    exact assign_ne_nil _ _ _

theorem asString_get?_mapDicts (key : String) (value t : Tree) (k : String) :
    ((t.mapDicts (setLabel key value)).get? k).bind (·.asString) = (t.get? k).bind (·.asString) := by
  cases t with
  | obj fs =>
    refine (asString_setLabel key value _ k).trans ?_
    rw [Tree.lookup_mapValues, Option.bind_map]
    exact congrArg _ (funext fun t => asString_mapDicts _ t)
  | _ => rfl

theorem get?_mapDicts_ne (key : String) (value t : Tree) (hk : k ≠ "metadata") :
    (t.mapDicts (setLabel key value)).get? k = (t.get? k).map (·.mapDicts (setLabel key value)) := by
  cases t with
  | obj fs =>
    exact (lookup_setLabel_ne key value _ hk).trans (Tree.lookup_mapValues _ k fs)
  | _ => rfl

theorem truthy_mapDicts (key : String) (value t : Tree) : (t.mapDicts (setLabel key value)).truthy = t.truthy := by
  cases t with
  | obj fs =>
    cases fs with
    | nil => rfl
    | cons f fs =>
      have hne : setLabel key value (Tree.mapValues (setLabel key value) (f :: fs)) ≠ [] :=
        setLabel_ne_nil key value (by rw [Tree.mapValues]; exact cons_ne_nil _ _)
      rw [Tree.mapDicts, Tree.truthy, isEmpty_eq_false_iff.2 hne]
      rfl
  | _ => rfl

/-- Below an object the traversal changes no label and no metadata. -/
theorem hasMetadata_mapValues (key : String) (value : Tree) (fs : List (String × Tree)) :
    hasMetadata (.obj (Tree.mapValues (setLabel key value) fs)) = hasMetadata (.obj fs) := by
  rw [hasMetadata, Tree.get?, Tree.lookup_mapValues, Option.any_map]
  exact congrArg (fun p => Option.any p (fs.lookup "metadata")) (funext fun t => truthy_mapDicts key value t)

theorem labelOf_mapValues (key : String) (value : Tree) (fs : List (String × Tree)) (k : String) :
    labelOf (.obj (Tree.mapValues (setLabel key value) fs)) k = labelOf (.obj fs) k := by
  rw [labelOf, Tree.get?, Tree.lookup_mapValues, labelOf, Tree.get?]
  cases fs.lookup "metadata" with
  | none => rfl
  | some m =>
    rw [Option.map_some, Option.bind_some, Option.bind_some, get?_mapDicts_ne key value m (by decide)]
    cases m.get? "labels" with
    | none => rfl
    | some l => exact asString_get?_mapDicts key value l k

theorem labels_assigned (gs ms ls : List (String × Tree)) (k : String) :
    hasMetadata (.obj (assign "metadata" (.obj (assign "labels" (.obj ls) ms)) gs)) = true ∧
      labelOf (.obj (assign "metadata" (.obj (assign "labels" (.obj ls) ms)) gs)) k =
        (ls.lookup k).bind (·.asString) := by
  constructor
  · rw [hasMetadata, Tree.get?, lookup_assign_self, Option.any_some, Tree.truthy,
      isEmpty_eq_false_iff.2 (assign_ne_nil _ _ _)]
    rfl
  · rw [labelOf, Tree.get?, lookup_assign_self, Option.bind_some, Tree.get?, lookup_assign_self]
    rfl

/-- The label at a dict with metadata, where it can be set. -/
theorem labelOf_setLabel {key} {value : Tree} (hm : hasMetadata (.obj gs) = true)
    (hl : labelable (setLabel key value gs) = true) (k : String) :
    hasMetadata (.obj (setLabel key value gs)) = true ∧
      labelOf (.obj (setLabel key value gs)) k = if key = k then value.asString else labelOf (.obj gs) k := by
  have fresh (ms : List (String × Tree)) (hold : labelOf (.obj gs) k = none) :
      hasMetadata (.obj (assign "metadata" (.obj (assign "labels" (.obj [(key, value)]) ms)) gs)) = true ∧
        labelOf (.obj (assign "metadata" (.obj (assign "labels" (.obj [(key, value)]) ms)) gs)) k =
          if key = k then value.asString else labelOf (.obj gs) k := by
    refine ⟨(labels_assigned gs ms _ k).1, (labels_assigned gs ms _ k).2.trans ?_⟩
    rw [lookup_cons_if, hold]
    by_cases hk : key = k
    · rw [if_pos hk.symm, if_pos hk]; rfl
    · rw [if_neg (Ne.symm hk), if_neg hk]; rfl
  have hold (m : Tree) (h : gs.lookup "metadata" = some m) :
      labelOf (.obj gs) k = ((m.get? "labels").bind (·.get? k)).bind (·.asString) := by
    rw [labelOf, Tree.get?, h]
    rfl
  unfold setLabel at hl ⊢
  split at hl
  · rename_i m ms h
    split at hl
    · rename_i ls hls
      refine ⟨(labels_assigned gs _ _ k).1, (labels_assigned gs _ _ k).2.trans ?_⟩
      by_cases hk : key = k
      · rw [if_pos hk, ← hk, lookup_assign_self]; rfl
      · rw [if_neg hk, lookup_assign_ne (Ne.symm hk), hold _ h, Tree.get?, hls]; rfl
    · rename_i l hno hls
      -- labels that are no dict: an error when they are true, and replaced when they are not
      split at hl
      · rename_i ht
        simp only [labelable, h, hls] at hl
        cases l with
        | obj fs => exact absurd rfl (hno fs)
        | _ => rw [ht] at hl; cases hl
      · rename_i hf
        rw [if_neg hf]
        refine fresh _ ((hold _ h).trans ?_)
        rw [Tree.get?, hls]
        cases l with
        | obj fs => exact absurd rfl (hno fs)
        | _ => rfl
    · rename_i hls
      exact fresh _ ((hold _ h).trans (by rw [Tree.get?, hls]; rfl))
  · rename_i hno
    rw [hasMetadata, Tree.get?] at hm
    rw [labelable] at hl
    cases hmd : gs.lookup "metadata" with
    | none => rw [hmd] at hm; cases hm
    | some m =>
      rw [hmd] at hm hl
      rw [Option.any_some] at hm
      cases m with
      | obj ms =>
        cases ms with
        | nil => cases hm
        | cons f ms => exact absurd hmd (hno f ms)
      | _ => dsimp only at hl; rw [hm] at hl; cases hl

theorem setLabel_of_not_hasMetadata {key value} (hm : hasMetadata (.obj gs) = false) :
    setLabel key value gs = gs := by
  unfold setLabel
  split
  · rename_i h
    rw [hasMetadata, Tree.get?, h] at hm
    cases hm
  · rfl

theorem addLabelTo_ok {key value} : addLabelTo key value o = .ok o' ↔
    o.mapDicts (setLabel key value) = o' ∧ (o.mapDicts (setLabel key value)).allDicts labelable = true := by
  unfold addLabelTo
  dsimp only
  split
  · rename_i hall
    rw [pure_ok]
    exact ⟨fun h => ⟨h, hall⟩, And.left⟩
  · rename_i hall
    exact ⟨nofun, fun h => absurd h.2 hall⟩

/-- `_add_label` assigns one label. -/
theorem relabelled_addLabelTo {key value} (h : addLabelTo key value o = .ok o') :
    Relabelled [(key, value)] o o' := by
  obtain ⟨rfl, hall⟩ := addLabelTo_ok.1 h
  cases o with
  | obj fs =>
    rw [Tree.mapDicts, Tree.allDicts, Bool.and_eq_true] at hall
    have hme := hasMetadata_mapValues key value fs
    rw [Tree.mapDicts]
    cases hm : hasMetadata (.obj fs) with
    | false =>
      rw [setLabel_of_not_hasMetadata (hme.trans hm)]
      exact ⟨hme, fun h => absurd (hm.symm.trans h) (by decide)⟩
    | true =>
      have hset := fun k => labelOf_setLabel (hme.trans hm) hall.1 k
      refine ⟨((hset "").1).trans hm.symm, fun _ k => ?_⟩
      rw [(hset k).2, labelOf_mapValues]
      rfl
  | _ => exact ⟨rfl, fun h => by cases h⟩

/-! ## All objects -/

def Relabels (L : List (String × Tree)) (h h' : RootObjectHelper) : Prop :=
  Forall₂ (Relabelled L) h.objects h'.objects

theorem relabelled_self (ts : List Tree) : Forall₂ (Relabelled []) ts ts :=
  forall₂_same.2 fun _ _ => .of_metadata rfl

theorem Relabels.refl (h : RootObjectHelper) : Relabels [] h h := relabelled_self _

theorem Relabels.trans {L M h''} (h₁ : Relabels L h h') (h₂ : Relabels M h' h'') : Relabels (L ++ M) h h'' :=
  forall₂_comp (fun _ _ _ ho ho' => ho.trans ho') h₁ h₂

instance : IsPreorder _ (Relabels []) where
  refl := .refl
  trans _ _ _ := .trans

theorem Relabels.mk {L} (hr : Relabelled L h.root h'.root)
    (hcm : Forall₂ (Relabelled L) h.config_maps h'.config_maps) (hrb : Forall₂ (Relabelled L) h.role_bindings h'.role_bindings)
    (hsv : Forall₂ (Relabelled L) h.services h'.services) : Relabels L h h' :=
  rel_append (rel_append (rel_append hrb hcm) hsv) (.cons hr .nil)

theorem root_addLabel {key value} (hok : addLabel key value h = .ok h') :
    h'.root = h.root.mapDicts (setLabel key value) := by
  obtain ⟨root, hr, hok⟩ := bind_ok.1 hok
  iterate 3 obtain ⟨_, -, hok⟩ := bind_ok.1 hok
  rw [← pure_ok.1 hok]
  exact (addLabelTo_ok.1 hr).1.symm

theorem relabels_addLabel {key value} (hok : addLabel key value h = .ok h') : Relabels [(key, value)] h h' := by
  have all {ts ts' : List Tree} (hm : ts.mapM (addLabelTo key value) = .ok ts') :
      Forall₂ (Relabelled [(key, value)]) ts ts' :=
    (forall₂_of_mapM hm).imp fun _ _ => relabelled_addLabelTo
  obtain ⟨root, hr, hok⟩ := bind_ok.1 hok
  obtain ⟨cms, hcms, hok⟩ := bind_ok.1 hok
  obtain ⟨rbs, hrbs, hok⟩ := bind_ok.1 hok
  obtain ⟨svs, hsvs, hok⟩ := bind_ok.1 hok
  cases hok
  exact .mk (relabelled_addLabelTo hr) (all hcms) (all hrbs) (all hsvs)

/-! ## Edits -/

/-- An edit that assigns the labels `L` and no others. -/
def Edits (L : List (String × Tree)) (f : RootObjectHelper → Py RootObjectHelper) : Prop :=
  ∀ h h', f h = .ok h' → Relabels L h h'

theorem edits_foldlM {α : Type} {f : α → RootObjectHelper → Py RootObjectHelper} {L}
    (hf : ∀ a, Edits (L a) (f a)) (as : List α) :
    Edits (as.flatMap L) (fun h => as.foldlM (fun h a => f a h) h) := by
  induction as with
  | nil => exact within_pure (R := Relabels [])
  | cons a as ih =>
    intro h h'' hok
    obtain ⟨h', h₁, h₂⟩ := bind_ok.1 hok
    exact (hf a h h' h₁).trans (ih h' h'' h₂)

theorem edits_addLabel (key : String) (value : Tree) : Edits [(key, value)] (addLabel key value) :=
  fun _ _ => relabels_addLabel

theorem podSpecPath_spec {root replica path} (h : podSpecPath root replica = .ok path) :
    ∃ k ks, path = "spec" :: k :: ks ∧ (k = "mpiReplicaSpecs" ↔ replica ≠ none) := by
  unfold podSpecPath at h
  split at h
  · obtain ⟨t, -, h⟩ := bind_ok.1 h
    split at h
    · cases h
      exact ⟨_, _, rfl, by simp⟩
    · cases h
  · obtain ⟨t, -, h⟩ := bind_ok.1 h
    split at h
    · cases h
      exact ⟨_, _, rfl, by decide⟩
    · obtain ⟨t, -, h⟩ := bind_ok.1 h
      split at h
      · obtain ⟨t, -, h⟩ := bind_ok.1 h
        split at h <;>
        · cases h
          exact ⟨_, _, rfl, by decide⟩
      · cases h

/-- A pod spec lies below `spec`, away from the labels. -/
theorem edits_onPodSpec (replica : Option String) (f : Tree → Py Tree) : Edits [] (onPodSpec replica f) := by
  intro h h' hok
  obtain ⟨path, hp, hok⟩ := bind_ok.1 hok
  obtain ⟨t, -, hok⟩ := bind_ok.1 hok
  obtain ⟨spec, -, hok⟩ := bind_ok.1 hok
  cases hok
  obtain ⟨k, ks, rfl, -⟩ := podSpecPath_spec hp
  exact .mk (.of_metadata (Tree.get?_set_ne (by decide) _ _ _)) (relabelled_self _) (relabelled_self _)
    (relabelled_self _)

theorem editFirst_some {p f ts ts'}
    (h : editFirst p f ts = .ok (some ts')) : Forall₂ (fun t t' => t' = t ∨ f t = .ok t') ts ts' := by
  induction ts generalizing ts' with
  | nil => cases pure_ok.1 h
  | cons t ts ih =>
    obtain ⟨b, -, h⟩ := bind_ok.1 h
    split at h
    · obtain ⟨t', ht', h⟩ := bind_ok.1 h
      obtain rfl := Option.some.inj (pure_ok.1 h)
      exact .cons (.inr ht') (forall₂_same.2 fun _ _ => .inl rfl)
    · obtain ⟨r, hr, h⟩ := bind_ok.1 h
      obtain ⟨us, rfl, rfl⟩ := Option.map_eq_some_iff.1 (pure_ok.1 h)
      exact .cons (.inl rfl) (ih hr)

theorem edits_addTcpPorts (name : String) (ports : List Int) : Edits [] (addTcpPorts name ports) := by
  intro h h' hok
  obtain ⟨services, hs, hok⟩ := bind_ok.1 hok
  cases hok
  refine .mk (.of_metadata rfl) (relabelled_self _) (relabelled_self _) ?_
  cases services with
  | none => exact relabelled_self _
  | some services =>
    refine (editFirst_some hs).imp fun service service' hor => .of_metadata ?_
    rcases hor with rfl | he
    · rfl
    · dsimp only at he
      split at he
      · split at he
        · rw [pure_ok.1 he]
        · obtain ⟨old, -, he⟩ := bind_ok.1 he
          rw [← pure_ok.1 he]
          exact Tree.get?_set_ne (by decide) _ _ _
      · cases he

theorem edits_editConfigMap (name : String) (f : Tree → Py Tree) (hf : Touches ["data"] f) :
    Edits [] (editConfigMap name f) := by
  intro h h' hok
  obtain ⟨config_maps, hc, hok⟩ := bind_ok.1 hok
  split at hok
  · cases hok
    refine .mk (.of_metadata rfl) ((editFirst_some hc).imp fun t t' hor => .of_metadata ?_) (relabelled_self _)
      (relabelled_self _)
    rcases hor with rfl | he
    · rfl
    · exact hf t t' he _ (by decide)
  · obtain ⟨names, -, hok⟩ := bind_ok.1 hok
    cases hok

/-! ## Steps -/

def Assigns (L : List (String × Tree)) (s : Step) : Prop := ∀ b b', s b = .ok b' → Relabels L b.root b'.root

section
variable {L M : List (String × Tree)} {s t : Step}

theorem assigns_edit {f} (hf : Edits L f) : Assigns L (edit f) := by
  intro b b' hok
  obtain ⟨h, hh, hok⟩ := bind_ok.1 hok
  cases hok
  exact hf b.root h hh

theorem assigns_pure : Assigns [] pure := by
  intro b b' hok
  cases hok
  exact .refl b.root

theorem Assigns.comp (hs : Assigns L s) (ht : Assigns M t) : Assigns (L ++ M) (s >=> t) := by
  intro b b'' hok
  obtain ⟨b', h₁, h₂⟩ := kleisli_ok.1 hok
  exact (hs b b' h₁).trans (ht b' b'' h₂)

/-- A step without labels before one that may have some. -/
theorem Assigns.before (hs : Assigns [] s) (ht : Assigns M t) : Assigns M (s >=> t) := hs.comp ht

theorem Assigns.after (hs : Assigns L s) (ht : Assigns [] t) : Assigns L (s >=> t) :=
  append_nil L ▸ hs.comp ht

theorem Assigns.doIf (c : Bool) (hs : Assigns L s) : Assigns (if c then L else []) (doIf c s) := by
  cases c with
  | true => exact hs
  | false => exact assigns_pure

theorem Assigns.doIf_nil (c : Bool) (hs : Assigns [] s) : Assigns [] (Transpiler.doIf c s) := by
  cases c with
  | true => exact hs
  | false => exact assigns_pure

theorem assigns_nil (hs : Within (Onward (fun _ => True) (Relabels [])) s) : Assigns [] s :=
  fun b b' hok => (hs b b' hok).2

end

theorem allows_labels {container replica ks} : Allows (Relabels []) container replica ks := fun _ _ => edits_onPodSpec _ _

theorem edits_addBenchmarkCmd (o : Outside) (job_id : String) (d : BenchmarkDescriptor) (replica : Option String) :
    Edits [] (addBenchmarkCmd o job_id d replica) :=
  within_addBenchmarkCmd edits_editConfigMap (fun _ => allows_labels) (fun _ => allows_labels) o job_id

theorem edits_addMetricsPusherEnvVar (o : Outside) (key value : String) (replica : Option String) :
    Edits [] (addMetricsPusherEnvVar o key value replica) :=
  within_addMetricsPusherEnvVar allows_labels o key value

def customParamLabels (params : Option CustomParamsDescriptor) : List (String × Tree) :=
  (if truthy (params.bind (·.dashboard)) then [("dashboard-name", labelValue (params.bind (·.dashboard)))] else []) ++
  (if truthy (params.bind (·.region)) then [("region", labelValue (params.bind (·.dashboard)))] else [])

def parentLabels (parent : Option String) : List (String × Tree) :=
  if truthy parent then [("parent-action-id", labelValue parent)] else []

theorem assigns_addCustomParams (o : Outside) (params : Option CustomParamsDescriptor) (replica : Option String) :
    Assigns (customParamLabels params) (addCustomParams o params replica) :=
  (((assigns_edit (edits_addLabel _ _)).after (assigns_edit (edits_addMetricsPusherEnvVar o _ _ replica))).doIf _).comp
    (((assigns_edit (edits_addLabel _ _)).after (assigns_edit (edits_addMetricsPusherEnvVar o _ _ replica))).doIf _)

theorem assigns_metricsStep (o : Outside) (d : BenchmarkDescriptor) (output : Bool) (replica : Option String) :
    Assigns (if output then customParamLabels d.custom_params else []) (metricsStep o d output replica) := by
  cases output with
  | true =>
    refine Assigns.before (assigns_edit ?_) (assigns_addCustomParams o d.custom_params replica)
    exact Within.foldlM (fun kv : String × String => edits_addMetricsPusherEnvVar o kv.1 kv.2 replica) _
  | false => exact assigns_edit (L := []) (within_removeMetricsSidecars (edits_onPodSpec replica))

theorem assigns_addParentLabel (parent : Option String) : Assigns (parentLabels parent) (addParentLabel parent) :=
  (assigns_edit (edits_addLabel _ _)).doIf _

theorem assigns_parentStep (o : Outside) (parent replica : Option String) :
    Assigns (parentLabels parent) (parentStep o parent replica) :=
  (assigns_addParentLabel parent).after ((assigns_edit (edits_addMetricsPusherEnvVar o _ _ replica)).doIf_nil _)

/-! ## Builders -/

def benchmarkLabels (r : Request) : List (String × Tree) :=
  (if r.descriptor.output.isSome then customParamLabels r.descriptor.custom_params else []) ++
    parentLabels r.event.parent_action_id

theorem assigns_singleRunUpdate (o : Outside) (r : Request) (scripts : List (String × String)) :
    Assigns (benchmarkLabels r) (singleRunUpdate o r scripts) := by
  refine (assigns_edit (edits_onPodSpec _ _)).before ?_
  refine (assigns_edit (within_addDataVolumeMounts (edits_onPodSpec _) _ _)).before ?_
  refine (assigns_nil (within_addScripts (fun _ => id) (edits_onPodSpec _))).before ?_
  refine ((assigns_edit (within_addExtendedShm (fun _ _ => edits_onPodSpec _ _) allows_labels)).doIf_nil _).before ?_
  refine (assigns_nil (within_addEnvVarsStep allows_labels _)).before ?_
  refine (assigns_edit (edits_addBenchmarkCmd o _ _ _)).before ?_
  refine (assigns_metricsStep o r.descriptor _ none).comp ?_
  refine (assigns_parentStep o r.event.parent_action_id none).after ?_
  refine ((assigns_edit (edits_onPodSpec _ _)).doIf_nil _).before ?_
  split
  · exact (assigns_edit (edits_onPodSpec _ _)).before (assigns_edit (within_addServerEnvVars allows_labels _ _))
  · exact (assigns_edit (edits_onPodSpec _ _)).doIf_nil _

theorem assigns_horovodReplicaUpdate (o : Outside) (r : Request) (scripts : List (String × String))
    (replica : String) : Assigns (benchmarkLabels r) (horovodReplicaUpdate o r scripts replica) := by
  refine (assigns_edit (edits_onPodSpec _ _)).before ?_
  refine (assigns_nil (within_addScripts (fun _ => id) (edits_onPodSpec _))).before ?_
  refine ((assigns_edit (within_addExtendedShm (fun _ _ => edits_onPodSpec _ _) allows_labels)).doIf_nil _).before ?_
  refine (assigns_nil (within_addEnvVarsStep allows_labels _)).before ?_
  refine (assigns_metricsStep o r.descriptor _ _).comp ?_
  exact (assigns_parentStep o r.event.parent_action_id _).after ((assigns_edit (edits_onPodSpec _ _)).doIf_nil _)

theorem assigns_horovodUpdate (o : Outside) (r : Request) (scripts : List (String × String)) :
    Assigns (benchmarkLabels r ++ benchmarkLabels r) (horovodUpdate o r scripts) := by
  refine (assigns_edit (within_addDataVolumeMounts (edits_onPodSpec _) _ _)).before ?_
  refine (assigns_edit (edits_addBenchmarkCmd o _ _ _)).before ?_
  exact (assigns_horovodReplicaUpdate o r scripts _).comp (assigns_horovodReplicaUpdate o r scripts _)

theorem assigns_inferenceServerUpdate (o : Outside) (r : Request) (server : ServerDescriptor) :
    Assigns (parentLabels r.event.parent_action_id ++
      (if server.output.isSome then customParamLabels r.descriptor.custom_params else []))
      (inferenceServerUpdate o r server) := by
  refine (assigns_edit (edits_onPodSpec _ _)).before ?_
  refine ((assigns_edit (within_addExtendedShm (fun _ _ => edits_onPodSpec _ _) allows_labels)).doIf_nil _).before ?_
  refine (assigns_edit (edits_onPodSpec _ _)).before ?_
  refine (assigns_edit (within_addDataVolumeMounts (edits_onPodSpec _) _ _)).before ?_
  refine (assigns_edit (within_addEnvVars allows_labels _)).before ?_
  refine (assigns_edit (edits_addTcpPorts _ _)).before ?_
  refine (assigns_edit (edits_onPodSpec _ _)).before ?_
  refine (assigns_edit (within_addProbe allows_labels _)).before ?_
  refine (assigns_addParentLabel _).comp ?_
  exact (assigns_metricsStep o r.descriptor _ none).after ((assigns_edit (edits_onPodSpec _ _)).doIf_nil _)

end BenchmarkAi.Transpiler
