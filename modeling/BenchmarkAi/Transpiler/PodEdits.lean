import BenchmarkAi.Transpiler.PodViews
/-!
# The edits of the builders, on pods

`Leads replica P s Q`: when the step `s` succeeds and the pod of `replica` shows as a pod
with `P`, it shows as a pod with `Q` afterwards. Most steps do not touch what a pod is
here; the others add and remove containers, volumes and mounts.
-/

open Lib List

namespace BenchmarkAi.Transpiler

/-! ## Rules -/

def Shapes (replica : Option String) (P : Pod → Prop) (f : RootObjectHelper → Py RootObjectHelper) (Q : Pod → Prop) :
    Prop :=
  ∀ h h' (p : Pod), f h = .ok h' → At replica p.toPodShape h.root → P p → ∃ q : Pod, At replica q.toPodShape h'.root ∧ Q q

def Leads (replica : Option String) (P : Pod → Prop) (s : Step) (Q : Pod → Prop) : Prop :=
  ∀ b b' (p : Pod), s b = .ok b' → At replica p.toPodShape b.root.root → P p →
    ∃ q : Pod, At replica q.toPodShape b'.root.root ∧ Q q

section Rules
variable {replica : Option String} {P Q R : Pod → Prop} {f g : RootObjectHelper → Py RootObjectHelper} {s t : Step}

theorem Shapes.bind (hf : Shapes replica P f Q) (hg : Shapes replica Q g R) : Shapes replica P (fun h => f h >>= g) R := by
  intro h h'' p hok hat hp
  obtain ⟨h', h₁, h₂⟩ := bind_ok.1 hok
  obtain ⟨q, hq, hQ⟩ := hf h h' p h₁ hat hp
  exact hg h' h'' q h₂ hq hQ

theorem leads_edit (hf : Shapes replica P f Q) : Leads replica P (edit f) Q := by
  intro b b' p hok hat hp
  obtain ⟨h, hh, hok⟩ := bind_ok.1 hok
  cases hok
  exact hf b.root h p hh hat hp

theorem Leads.comp (hs : Leads replica P s Q) (ht : Leads replica Q t R) : Leads replica P (s >=> t) R := by
  intro b b'' p hok hat hp
  obtain ⟨b', h₁, h₂⟩ := kleisli_ok.1 hok
  obtain ⟨q, hq, hQ⟩ := hs b b' p h₁ hat hp
  exact ht b' b'' q h₂ hq hQ

theorem Leads.doIf (c : Bool) (hs : Leads replica P s Q) (hc : c = false → ∀ p, P p → Q p) :
    Leads replica P (Transpiler.doIf c s) Q := by
  cases c with
  | true => exact hs
  | false =>
    intro b b' p hok hat hp
    cases hok
    exact ⟨p, hat, hc rfl p hp⟩

end Rules

/-! ## Edits that a pod does not show -/

def SameShape (replica : Option String) (h h' : RootObjectHelper) : Prop :=
  ∀ p : Pod, At replica p.toPodShape h.root → At replica p.toPodShape h'.root

instance {replica : Option String} : IsPreorder _ (SameShape replica) where
  refl _ _ := id
  trans _ _ _ h₁ h₂ p := h₂ p ∘ h₁ p

def Akin (r r' : Option String) : Prop := r.isSome = r'.isSome

theorem akin_self (r : Option String) : Akin r r := rfl

theorem akin_some (a b : String) : Akin (some a) (some b) := rfl

variable {α : Type} {x : Option (String × String)}

section Quiet
variable {r r' : Option String} {f : RootObjectHelper → Py RootObjectHelper} {P : Pod → Prop}

theorem shapes_quiet (hf : Within (SameShape r) f) : Shapes r P f P := fun h h' p hok hat hp => ⟨p, hf h h' hok p hat, hp⟩

theorem leads_still {s} (hs : Within (Onward (fun _ => True) (SameShape r)) s) : Leads r P s P :=
  fun b b' p hok hat hp => ⟨p, (hs b b' hok).2 p hat, hp⟩

theorem leads_quiet (hf : Within (SameShape r) f) : Leads r P (edit f) P := leads_still (within_edit hf)

/-- An edit of a pod spec that it does not show; of another pod it can be any edit. -/
theorem quiet_onPodSpec (hr : Akin r r') {f}
    (hf : ∀ spec spec' (p : Pod), Shows spec p.toPodShape → f spec = .ok spec' → Shows spec' p.toPodShape) :
    Within (SameShape r) (onPodSpec r' f) := by
  intro h h' hok p hat
  by_cases heq : r = r'
  · subst heq
    exact at_onPodSpec hat (fun spec spec' hs => hf spec spec' p hs) hok
  · cases r with
    | none =>
      cases r' with
      | none => exact absurd rfl heq
      | some b => cases hr
    | some a =>
      cases r' with
      | none => cases hr
      | some b => exact at_onPodSpec_ne (fun h => heq (congrArg some h)) hat hok

theorem allowsPod_shape (hr : Akin r r') {ks} (hk : ∀ k ∈ ["initContainers", "containers", "volumes"], k ∉ ks) :
    AllowsPod (SameShape r) r' ks := fun _ hf =>
  quiet_onPodSpec hr fun spec spec' _ hs hok => hs.congr fun k hmem => hf spec spec' hok k (hk k hmem)

theorem allows_shape (hr : Akin r r') {container ks}
    (hk : ∀ k ∈ ks, k ≠ "name" ∧ k ≠ "volumeMounts" ∧ watched container ≠ some k) :
    Allows (SameShape r) container r' ks := by
  refine fun f hf => quiet_onPodSpec hr fun spec spec' p hs hok => ?_
  have he := onContainer_edit (k := id) hs (fun t c t' ht hc hok => ?_) hok
  · have hid : atName container id = id := by
      funext c
      unfold atName
      split <;> rfl
    rw [hid, PodShape.mapContainers, map_id, map_id] at he
    exact he
  · refine ht.congr (hf t t' hok _ fun hmem => (hk _ hmem).1 rfl) (hf t t' hok _ fun hmem => (hk _ hmem).2.1 rfl) ?_
    exact fun k hw => hf t t' hok k fun hmem => (hk k hmem).2.2 (hc ▸ hw)

theorem quiet_addTcpPorts (name : String) (ports : List Int) : Within (SameShape r) (addTcpPorts name ports) := by
  intro h h' hok p hat
  obtain ⟨services, -, hok⟩ := bind_ok.1 hok
  cases hok
  exact hat

theorem quiet_editConfigMap (name : String) (f : Tree → Py Tree) : Within (SameShape r) (editConfigMap name f) := by
  intro h h' hok p hat
  obtain ⟨config_maps, -, hok⟩ := bind_ok.1 hok
  split at hok
  · cases hok
    exact hat
  · obtain ⟨names, -, hok⟩ := bind_ok.1 hok
    cases hok

end Quiet

/-! ## Labels -/

theorem listShows_mapDicts {R} {spec value : Tree} {key k} {xs : List α} (h : ListShows R spec k xs)
    (hk : k ≠ "metadata") : ListShows R (spec.mapDicts (setLabel key value)) k xs := by
  obtain ⟨ts, hget, hall⟩ := h
  refine ⟨ts, ?_, hall⟩
  rw [get?_mapDicts_ne key value spec hk, hget]
  rfl

theorem getPath?_mapDicts {key} {value t u : Tree} {ks} (h : t.getPath? ks = some u) (hk : "metadata" ∉ ks) :
    (t.mapDicts (setLabel key value)).getPath? ks = some (u.mapDicts (setLabel key value)) := by
  induction ks generalizing t with
  | nil =>
    cases h
    rfl
  | cons k ks ih =>
    rw [mem_cons, not_or] at hk
    obtain ⟨w, hw, hu⟩ := Option.bind_eq_some_iff.1 h
    rw [Tree.getPath?, get?_mapDicts_ne key value t (Ne.symm hk.1), hw]
    exact ih hu hk.2

theorem metadata_not_mem {r : Option String} (hr : r ≠ some "metadata") : "metadata" ∉ replicaPath r := by
  cases r with
  | none => decide
  | some a => simpa [replicaPath, eq_comm] using hr

/-- Labels go to the metadata, which lies beside a pod spec. -/
theorem quiet_addLabel {r : Option String} (hr : r ≠ some "metadata") (key : String) (value : Tree) :
    Within (SameShape r) (addLabel key value) := by
  intro h h' hok p hat
  rw [root_addLabel hok]
  obtain ⟨spec, hp, hs⟩ := hat
  exact ⟨_, getPath?_mapDicts hp (metadata_not_mem hr), listShows_mapDicts hs.inits (by decide),
    listShows_mapDicts hs.mains (by decide), listShows_mapDicts hs.volumes (by decide)⟩

/-! ## What a pod pulls -/

def dataPulls (o : Outside) (config : BaiConfig) (data_sources : List DownloadableContent) : Py (String × String) := do
  let (s3_bucket, _) ← s3Object o "data source" (data_sources.head?.bind (·.dst))
  let s3_objects ← data_sources.mapM fun s => do
    let (_, object) ← s3Object o "data source" s.dst
    return object ++ "," ++ config.puller_mount_chmod ++ "," ++ ((getDataMounts data_sources).lookup s.path).getD ""
  return (s3_bucket, ":".intercalate s3_objects)

def pulledData (o : Outside) (config : BaiConfig) (data_sources : List DownloadableContent) :
    Option (Option (String × String)) :=
  if data_sources = [] then none else some (dataPulls o config data_sources).toOption

def pulledScripts (scripts : List (String × String)) : Option (Option (String × String)) :=
  match scripts with
  | [] => none
  | (bucket, _) :: _ => some (some (bucket, ":".intercalate (scripts.mapIdx fun i s =>
      s.2 ++ "," ++ scriptPullerChmod ++ "," ++ scriptsMountPath ++ s!"/s{i}" ++ "," ++ scriptUnpackModificator)))

/-- How far the building of a pod is: the metrics, the two pullers, the volumes that may
still be removed or mounted, and whether the shared memory may be there. -/
structure Stage (metrics : Option (Option String)) (data scripts : Option (Option (String × String)))
    (pending : List String) (shm : Bool) (p : Pod) : Prop where
  metrics : (p.find metricsExtractorContainer).map (·.metrics) = metrics
  data : (p.find dataPullerContainer).map (·.pulls) = data
  scripts : (p.find scriptsPullerContainer).map (·.pulls) = scripts
  pending : ∀ v ∈ pending, v ∈ p.volumes ∧ p.Single v
  shm : shm = false → sharedMemoryVolume ∉ p.volumes

def isStaged (name : String) : Bool := isPuller name || name = metricsExtractorContainer

section Stage
variable {m : Option (Option String)} {d s : Option (Option (String × String))} {vs : List String} {b : Bool} {p : Pod}

theorem Stage.later (h : Stage m d s vs b p) : Stage m d s vs true p :=
  ⟨h.metrics, h.data, h.scripts, h.pending, nofun⟩

theorem map_find_mapContainers {g : PodContainer → α} {f} (hf : ∀ c, (f c).name = c.name)
    {name} (hg : ∀ c, c.name = name → g (f c) = g c) : ((p.mapContainers f).find name).map g = (p.find name).map g := by
  rw [PodShape.find_mapContainers hf]
  cases hc : p.find name with
  | none => rfl
  | some c => exact congrArg some (hg c (PodShape.name_of_find hc))

theorem Stage.mapContainers {q : Pod} {f} (h : Stage m d s vs b p)
    (hq : q.containers = (p.mapContainers f).containers) (hf : ∀ c, (f c).name = c.name)
    (hp : ∀ c, (f c).pulls = c.pulls) (hm : ∀ c, (f c).metrics = c.metrics)
    {vs' b'} (hvs : ∀ v ∈ vs', v ∈ q.volumes ∧ q.Single v)
    (hb : b' = false → sharedMemoryVolume ∉ q.volumes) : Stage m d s vs' b' q := by
  have hfi (name : String) : q.find name = (p.mapContainers f).find name := by
    rw [PodShape.find, hq, PodShape.find]
  refine ⟨?_, ?_, ?_, hvs, hb⟩
  · rw [hfi, map_find_mapContainers hf fun c _ => hm c]
    exact h.metrics
  · rw [hfi, map_find_mapContainers hf fun c _ => hp c]
    exact h.data
  · rw [hfi, map_find_mapContainers hf fun c _ => hp c]
    exact h.scripts

theorem Stage.pending_without (h : Stage m d s vs b p) (name : String) :
    ∀ v ∈ vs, v ∈ (p.removeContainer name).volumes ∧ (p.removeContainer name).Single v :=
  fun v hv => ⟨(h.pending v hv).1, (h.pending v hv).2.without name⟩

theorem map_find_without {g : PodContainer → α} {name other} (hne : other ≠ name) :
    ((p.removeContainer name).find other).map g = (p.find other).map g := congrArg _ (PodShape.find_without_ne hne)

theorem map_find_without_self {g : PodContainer → α} (name : String) :
    ((p.removeContainer name).find name).map g = none := congrArg _ (PodShape.find_without_self name)

theorem Stage.removeContainer (h : Stage m d s vs b p) {name} (hn : isStaged name = false) :
    Stage m d s vs b (p.removeContainer name) := by
  have hne (other : String) (ho : isStaged other = true) : other ≠ name := by
    rintro rfl
    exact nomatch ho.symm.trans hn
  exact ⟨(map_find_without (hne _ (by decide))).trans h.metrics, (map_find_without (hne _ (by decide))).trans h.data,
    (map_find_without (hne _ (by decide))).trans h.scripts, h.pending_without name, h.shm⟩

theorem Stage.removeMetrics (h : Stage m d s vs b p) : Stage none d s vs b (p.removeContainer metricsExtractorContainer) :=
  ⟨map_find_without_self _, (map_find_without (by decide)).trans h.data, (map_find_without (by decide)).trans h.scripts,
    h.pending_without _, h.shm⟩

theorem Stage.removeData (h : Stage m d s vs b p) : Stage m none s vs b (p.removeContainer dataPullerContainer) :=
  ⟨(map_find_without (by decide)).trans h.metrics, map_find_without_self _, (map_find_without (by decide)).trans h.scripts,
    h.pending_without _, h.shm⟩

theorem Stage.removeScripts (h : Stage m d s vs b p) : Stage m d none vs b (p.removeContainer scriptsPullerContainer) :=
  ⟨(map_find_without (by decide)).trans h.metrics, (map_find_without (by decide)).trans h.data, map_find_without_self _,
    h.pending_without _, h.shm⟩

theorem Stage.removeVolume {volume} (h : Stage m d s (volume :: vs) b p) (hv : volume ∉ vs) :
    Stage m d s vs b (p.removeVolume volume) := by
  refine h.mapContainers rfl (name_unmount volume) (fun _ => rfl) (fun _ => rfl) (fun v hmem => ?_)
    fun hb hmem => h.shm hb (mem_filter.1 hmem).1
  obtain ⟨hin, hs⟩ := h.pending v (mem_cons_of_mem _ hmem)
  have hne : v ≠ volume := fun heq => hv (heq ▸ hmem)
  refine ⟨mem_filter.2 ⟨hin, decide_eq_true hne⟩, ?_⟩
  exact hs.mapContainers fun c => (filter_sublist).count_le v

theorem Stage.mountAt (h : Stage m d s vs b p) {name new} (hnew : ∀ v ∈ new, v ∈ p.volumes)
    (hv : ∀ v ∈ vs, v ∉ new) : Stage m d s vs b (p.mountAt name new hnew) := by
  have hp (c : PodContainer) : (atName name (mount new) c).pulls = c.pulls := by
    unfold atName
    split <;> rfl
  have hme (c : PodContainer) : (atName name (mount new) c).metrics = c.metrics := by
    unfold atName
    split <;> rfl
  refine h.mapContainers rfl (name_atName (name_mount new) name) hp hme (fun v hmem => ?_) h.shm
  obtain ⟨hin, hs⟩ := h.pending v hmem
  refine ⟨hin, hs.mapContainers fun c => ?_⟩
  unfold atName
  split
  · rw [mount, count_append, count_eq_zero.2 (hv v hmem)]
    exact Nat.le_refl _
  · exact Nat.le_refl _

theorem Stage.addVolume (h : Stage m d s vs false p) :
    Stage m d s vs true (p.addVolume sharedMemoryVolume (h.shm rfl)) :=
  ⟨h.metrics, h.data, h.scripts, fun v hv => ⟨mem_append_left _ (h.pending v hv).1, (h.pending v hv).2⟩, nofun⟩

/-! A change of the containers with a name, for the pullers and for the metrics. -/

section Change
variable {f : PodContainer → PodContainer} {hn : ∀ c, (f c).name = c.name} {hm : ∀ c, (f c).mounts = c.mounts}

theorem find_changeAt {name c} (h : p.find name = some c) : (p.changeAt name f hn hm).find name = some (f c) := by
  have hf : (p.changeAt name f hn hm).find name = (p.find name).map (atName name f) :=
    PodShape.find_mapContainers (name_atName hn name) name
  rw [hf, h, Option.map_some, atName, if_pos (PodShape.name_of_find h)]

theorem map_find_changeAt_ne {g : PodContainer → α} {name other} (hne : other ≠ name) :
    ((p.changeAt name f hn hm).find other).map g = (p.find other).map g := by
  refine map_find_mapContainers (name_atName hn name) fun c hc => ?_
  rw [atName, if_neg (hc ▸ hne)]

theorem Stage.pending_changeAt (h : Stage m d s vs b p) (name : String) :
    ∀ v ∈ vs, v ∈ (p.changeAt name f hn hm).volumes ∧ (p.changeAt name f hn hm).Single v := by
  intro v hv
  refine ⟨(h.pending v hv).1, (h.pending v hv).2.mapContainers fun c => ?_⟩
  unfold atName
  split
  · exact Nat.le_of_eq (congrArg _ (hm c))
  · exact Nat.le_refl _

end Change

theorem pulls_pullAt {name bucket objects} (h : (p.find name).map (·.pulls) = some x) :
    ((p.pullAt name bucket objects).find name).map (·.pulls) = some (some (bucket, objects)) := by
  obtain ⟨c, hc, -⟩ := Option.map_eq_some_iff.1 h
  rw [Pod.pullAt, find_changeAt hc]
  rfl

theorem Stage.pullData (h : Stage m (some x) s vs b p) (bucket objects : String) :
    Stage m (some (some (bucket, objects))) s vs b (p.pullAt dataPullerContainer bucket objects) :=
  ⟨(map_find_changeAt_ne (by decide)).trans h.metrics, pulls_pullAt h.data,
    (map_find_changeAt_ne (by decide)).trans h.scripts, h.pending_changeAt _, h.shm⟩

theorem Stage.pullScripts (h : Stage m d (some x) vs b p) (bucket objects : String) :
    Stage m d (some (some (bucket, objects))) vs b (p.pullAt scriptsPullerContainer bucket objects) :=
  ⟨(map_find_changeAt_ne (by decide)).trans h.metrics, (map_find_changeAt_ne (by decide)).trans h.data,
    pulls_pullAt h.scripts, h.pending_changeAt _, h.shm⟩

/-- The text of the metrics is known when the template has been filled. -/
theorem Stage.withMetrics {x : Option String} (h : Stage (some x) d s vs b p) (metrics : String) :
    Stage (some (some metrics)) d s vs b (p.metricsAt metricsExtractorContainer metrics) := by
  obtain ⟨c, hc, -⟩ := Option.map_eq_some_iff.1 h.metrics
  refine ⟨?_, (map_find_changeAt_ne (by decide)).trans h.data, (map_find_changeAt_ne (by decide)).trans h.scripts,
    h.pending_changeAt _, h.shm⟩
  rw [Pod.metricsAt, find_changeAt hc]
  rfl

end Stage

end BenchmarkAi.Transpiler
