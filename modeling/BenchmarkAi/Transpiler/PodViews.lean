import BenchmarkAi.Transpiler.Labels
import BenchmarkAi.Transpiler.Mounts
import BenchmarkAi.Transpiler.Pods
/-!
# Pod specs and the pods they show

`Shows spec p`: the tree `spec` has the containers, mounts and volumes of `p`, and its
pullers have the arguments of `p`. Each edit of the builders is followed on the pod.
-/

open Lib List

namespace BenchmarkAi.Transpiler

/-! ## What a tree shows -/

/-- A mount is removed by a search for an equal one, so it has to equal itself. -/
structure MountShows (t : Tree) (volume : String) : Prop where
  name : NameIs t volume
  self : t.pyEq t = true

def isPuller (name : String) : Bool := name = dataPullerContainer || name = scriptsPullerContainer

def pullerArgs (a : String × String) : Tree := .arr [.str a.1, .str a.2]

def envValue (name : String) (t : Tree) : Option String :=
  ((listOf "env" t).find? fun var => nameOf var = some name).bind fun var => (var.get? "value").bind (·.asString)

def metricsVariable : String := "ANUBIS_METRICS"

structure ContainerShows (t : Tree) (c : PodContainer) : Prop where
  name : NameIs t c.name
  mounts : t.get? "volumeMounts" = none ∧ c.mounts = [] ∨
    ∃ ms, t.get? "volumeMounts" = some (.arr ms) ∧ Forall₂ MountShows ms c.mounts
  args : isPuller c.name = true → t.get? "args" = c.pulls.map pullerArgs
  metrics : c.name = metricsExtractorContainer → envValue metricsVariable t = c.metrics

def watched (name : String) : Option String :=
  if isPuller name then some "args" else if name = metricsExtractorContainer then some "env" else none

def ListShows {α : Type} (R : Tree → α → Prop) (spec : Tree) (k : String) (xs : List α) : Prop :=
  ∃ ts, spec.get? k = some (.arr ts) ∧ Forall₂ R ts xs

structure Shows (spec : Tree) (p : PodShape) : Prop where
  inits : ListShows ContainerShows spec "initContainers" p.inits
  mains : ListShows ContainerShows spec "containers" p.mains
  volumes : ListShows NameIs spec "volumes" p.volumes

variable {ts : List Tree} {p : PodShape} {spec' : Tree} {f : Tree → Py Tree} {volume : String} {replica : Option String}
  {h h' : RootObjectHelper}

section Reading
variable {α : Type} {R : Tree → α → Prop} {spec v : Tree} {k k' : String} {xs : List α}

theorem ListShows.items (h : ListShows R spec k xs) (hts : (attr k spec >>= Transpiler.items) = .ok ts) : Forall₂ R ts xs := by
  obtain ⟨us, hget, hall⟩ := h
  rw [attr_of_get? hget] at hts
  cases hts
  exact hall

theorem ListShows.put_ne (h : ListShows R spec k xs) (hk : k ≠ k') : ListShows R (spec.put k' v) k xs := by
  obtain ⟨ts, hget, hall⟩ := h
  exact ⟨ts, (Tree.get?_put_ne hk spec v).trans hget, hall⟩

theorem ListShows.put_self (h : ListShows R spec k xs) {ys} (hall : Forall₂ R ts ys) :
    ListShows R (spec.put k (.arr ts)) k ys := by
  obtain ⟨us, hget, -⟩ := h
  exact ⟨ts, Tree.get?_put_self hget _, hall⟩

end Reading

theorem Shows.congr {spec : Tree} (h : Shows spec p)
    (hs : ∀ k ∈ ["initContainers", "containers", "volumes"], spec'.get? k = spec.get? k) : Shows spec' p := by
  simp only [forall_mem_cons] at hs
  obtain ⟨hi, hm, hv, -⟩ := hs
  refine ⟨?_, ?_, ?_⟩
  · rw [ListShows, hi]
    exact h.inits
  · rw [ListShows, hm]
    exact h.mains
  · rw [ListShows, hv]
    exact h.volumes

variable {ms : List Tree} {cs : List PodContainer} {r r' : String}

section Fields
variable {t t' : Tree} {c : PodContainer}

theorem envValue_congr {name} (h : t'.get? "env" = t.get? "env") : envValue name t' = envValue name t := by
  rw [envValue, listOf, h]
  rfl

theorem ContainerShows.congr (h : ContainerShows t c) (hn : t'.get? "name" = t.get? "name")
    (hm : t'.get? "volumeMounts" = t.get? "volumeMounts") (hw : ∀ k, watched c.name = some k → t'.get? k = t.get? k) :
    ContainerShows t' c := by
  refine ⟨hn.trans h.name, hm ▸ h.mounts, fun hp => ?_, fun he => ?_⟩
  · rw [hw "args" (if_pos hp)]
    exact h.args hp
  · have hwa : watched c.name = some "env" := by
      rw [he]
      decide
    rw [envValue_congr (hw "env" hwa)]
    exact h.metrics he

theorem ContainerShows.put_mounts (h : ContainerShows t c) {volumes} (hms : Forall₂ MountShows ms volumes) :
    ContainerShows (t.put "volumeMounts" (.arr ms)) { c with mounts := volumes } := by
  refine ⟨(Tree.get?_put_ne (by decide) t _).trans h.name, .inr ⟨ms, Tree.get?_put_self h.name _, hms⟩, fun hp => ?_,
    fun he => ?_⟩
  · rw [Tree.get?_put_ne (by decide)]
    exact h.args hp
  · rw [envValue_congr (Tree.get?_put_ne (by decide) t _)]
    exact h.metrics he

theorem ContainerShows.put_args (h : ContainerShows t c) (bucket objects : String) :
    ContainerShows (t.put "args" (pullerArgs (bucket, objects))) (setPulls bucket objects c) := by
  refine ⟨(Tree.get?_put_ne (by decide) t _).trans h.name, ?_, fun _ => Tree.get?_put_self h.name _, fun he => ?_⟩
  · rw [Tree.get?_put_ne (by decide)]
    exact h.mounts
  · rw [envValue_congr (Tree.get?_put_ne (by decide) t _)]
    exact h.metrics he

end Fields

/-! ## Searching by name -/

theorem named_of_nameIs {t n name} (h : NameIs t n) : named name t = .ok (name == n) := by
  rw [named, attr_of_get? h]
  rfl

/-- The search finds the item of the first entry with the name, if there is one. -/
theorem splitNamed_spec {α : Type} {R} {nameOf : α → String} (hR : ∀ t x, R t x → NameIs t (nameOf x))
    (name : String) {ts xs} (h : Forall₂ R ts xs) :
    (splitNamed name ts = .ok none ∧ ∀ x ∈ xs, nameOf x ≠ name) ∨
    ∃ before t after bs x as, splitNamed name ts = .ok (some (before, t, after)) ∧ xs = bs ++ x :: as ∧
      nameOf x = name ∧ (∀ b ∈ bs, nameOf b ≠ name) ∧ Forall₂ R before bs ∧ R t x ∧ Forall₂ R after as := by
  induction h with
  | nil => exact .inl ⟨rfl, nofun⟩
  | @cons t x ts xs ht hts ih =>
    rw [splitNamed, named_of_nameIs (hR t x ht)]
    by_cases hx : nameOf x = name
    · refine .inr ⟨[], t, ts, [], x, xs, ?_, rfl, hx, nofun, .nil, ht, hts⟩
      rw [hx, beq_self_eq_true]
      rfl
    · have hne : (name == nameOf x) = false := beq_eq_false_iff_ne.2 (Ne.symm hx)
      rw [hne]
      rcases ih with ⟨hs, hall⟩ | ⟨before, u, after, bs, y, as, hs, rfl, hy, hbs, hb, hu, ha⟩
      · refine .inl ⟨?_, forall_mem_cons.2 ⟨hx, hall⟩⟩
        rw [hs]
        rfl
      · refine .inr ⟨t :: before, u, after, x :: bs, y, as, ?_, rfl, hy, forall_mem_cons.2 ⟨hx, hbs⟩,
          .cons ht hb, hu, ha⟩
        rw [hs]
        rfl

/-- A change at a name that does not occur. -/
theorem replaced_of_absent {name} (g : PodContainer → List PodContainer) (h : ∀ c ∈ cs, c.name ≠ name) :
    cs.flatMap (fun c => if c.name = name then g c else [c]) = cs := by
  induction cs with
  | nil => rfl
  | cons c cs ih =>
    rw [flatMap_cons, if_neg (h c mem_cons_self), ih fun d hd => h d (mem_cons_of_mem _ hd)]
    rfl

/-- Where a name occurs once, a change at its first place is a change at the name. -/
theorem replaced_at_first {name bs as} {x : PodContainer}
    (g : PodContainer → List PodContainer) (hx : x.name = name) (hn : ((bs ++ x :: as).map (·.name)).Nodup) :
    (bs ++ x :: as).flatMap (fun c => if c.name = name then g c else [c]) = bs ++ g x ++ as := by
  rw [map_append, nodup_append] at hn
  obtain ⟨-, has, hdis⟩ := hn
  rw [flatMap_append, flatMap_cons, if_pos hx, replaced_of_absent g, replaced_of_absent g, append_assoc]
  · intro c hc heq
    exact (nodup_cons.1 has).1 (mem_map.2 ⟨c, hc, heq.trans hx.symm⟩)
  · intro c hc heq
    exact hdis _ (mem_map.2 ⟨c, hc, rfl⟩) _ mem_cons_self (heq.trans hx.symm)

/-! ## Containers -/

def PodShape.replaceAt (p : PodShape) (name : String) (g : PodContainer → List PodContainer) : PodShape :=
  { p with
    inits := p.inits.flatMap fun c => if c.name = name then g c else [c]
    mains := p.mains.flatMap fun c => if c.name = name then g c else [c] }

theorem onContainer_shows {name f g spec} {p : Pod} (h : Shows spec p.toPodShape)
    (hf : ∀ t c ts, ContainerShows t c → c.name = name → f t = .ok ts → Forall₂ ContainerShows ts (g c))
    (hok : onContainer name f spec = .ok spec') : Shows spec' (p.replaceAt name g) := by
  have hn := p.names_nodup
  rw [PodShape.names, PodShape.containers, map_append, nodup_append] at hn
  obtain ⟨hi, hm, hdis⟩ := hn
  obtain ⟨u, hu, hok⟩ := bind_ok.1 hok
  obtain ⟨cs, hcs, hok⟩ := bind_ok.1 hok
  have hcs := h.mains.items (bind_ok.2 ⟨u, hu, hcs⟩)
  obtain ⟨r, hr, hok⟩ := bind_ok.1 hok
  obtain ⟨hs, hab⟩ | ⟨before, t, after, bs, x, as, hs, heq, hx, -, hb, ht, ha⟩ :=
    splitNamed_spec (fun t c hc => ContainerShows.name hc) name hcs
  · -- not among the containers, so among the init containers
    obtain rfl := Except.ok.inj (hs.symm.trans hr)
    obtain ⟨v, hv, hok⟩ := bind_ok.1 hok
    obtain ⟨is, his, hok⟩ := bind_ok.1 hok
    have his := h.inits.items (bind_ok.2 ⟨v, hv, his⟩)
    obtain ⟨r, hr, hok⟩ := bind_ok.1 hok
    obtain ⟨hs, -⟩ | ⟨before, t, after, bs, x, as, hs, heq, hx, -, hb, ht, ha⟩ :=
      splitNamed_spec (fun t c hc => ContainerShows.name hc) name his
    · obtain rfl := Except.ok.inj (hs.symm.trans hr)
      obtain ⟨names, -, hok⟩ := bind_ok.1 hok
      cases hok
    · obtain rfl := Except.ok.inj (hs.symm.trans hr)
      obtain ⟨ts, hts, hok⟩ := bind_ok.1 hok
      cases hok
      refine ⟨h.inits.put_self ?_, ?_, h.volumes.put_ne (by decide)⟩
      · dsimp only [PodShape.replaceAt]
        rw [heq, replaced_at_first g hx (heq ▸ hi)]
        exact rel_append (rel_append hb (hf t x ts ht hx hts)) ha
      · dsimp only [PodShape.replaceAt]
        rw [replaced_of_absent g hab]
        exact h.mains.put_ne (by decide)
  · obtain rfl := Except.ok.inj (hs.symm.trans hr)
    obtain ⟨ts, hts, hok⟩ := bind_ok.1 hok
    cases hok
    refine ⟨?_, h.mains.put_self ?_, h.volumes.put_ne (by decide)⟩
    · dsimp only [PodShape.replaceAt]
      rw [replaced_of_absent g]
      · exact h.inits.put_ne (by decide)
      · intro c hc hna
        refine hdis _ (mem_map.2 ⟨c, hc, rfl⟩) _ (mem_map.2 ⟨x, ?_, rfl⟩) (hna.trans hx.symm)
        rw [heq]
        exact mem_append_right _ mem_cons_self
    · dsimp only [PodShape.replaceAt]
      rw [heq, replaced_at_first g hx (heq ▸ hm)]
      exact rel_append (rel_append hb (hf t x ts ht hx hts)) ha

theorem onContainer_edit {name k spec} {p : Pod} (h : Shows spec p.toPodShape)
    (hf : ∀ t c t', ContainerShows t c → c.name = name → f t = .ok t' → ContainerShows t' (k c))
    (hok : onContainer name (fun c => return [← f c]) spec = .ok spec') : Shows spec' (p.mapContainers (atName name k)) := by
  have hmap (cs : List PodContainer) :
      cs.flatMap (fun c => if c.name = name then [k c] else [c]) = cs.map (atName name k) := by
    rw [map_eq_flatMap]
    congr 1
    funext c
    unfold atName
    split <;> rfl
  have hs := onContainer_shows (g := fun c => [k c]) h (fun t c ts ht hc hts => ?_) hok
  · rw [PodShape.replaceAt, hmap, hmap] at hs
    exact hs
  · obtain ⟨t', ht', hts⟩ := bind_ok.1 hts
    cases hts
    exact .cons (hf t c t' ht hc ht') .nil

theorem onContainer_remove {name spec} {p : Pod} (h : Shows spec p.toPodShape)
    (hok : onContainer name (fun _ => return []) spec = .ok spec') : Shows spec' (p.without name) := by
  have hf (cs : List PodContainer) :
      cs.flatMap (fun c => if c.name = name then [] else [c]) = cs.filter (·.name ≠ name) := by
    induction cs with
    | nil => rfl
    | cons c cs ih => by_cases hc : c.name = name <;> simp [hc, ih]
  have hs := onContainer_shows (g := fun _ => []) h (fun t c ts _ _ hts => ?_) hok
  · rw [PodShape.replaceAt, hf, hf] at hs
    exact hs
  · cases hts
    exact .nil

/-! ## Volumes -/

/-- With one mount of the volume at most, none is passed over. -/
theorem apart_of_count {names : List String} (h : Forall₂ MountShows ms names) (hs : names.count volume ≤ 1) :
    Apart volume ms := by
  induction h with
  | nil => exact .nil
  | @cons m name ms names hm hms ih =>
    by_cases hn : name = volume
    · subst hn
      rw [count_cons_self] at hs
      cases hms with
      | nil => exact .singleton m
      | @cons m' name' ms names hm' hms =>
        refine (apart_cons_cons (nameOf_of_nameIs hm.name)).2 ⟨?_, ?_⟩
        · rw [nameOf_of_nameIs hm'.name]
          rintro hsa
          rw [Option.some.inj hsa, count_cons_self] at hs
          omega
        · exact isChain_of_isChain_cons (ih (by omega))
    · rw [count_cons_of_ne hn] at hs
      refine (apart_cons_of_ne ?_).2 (ih hs)
      rw [nameOf_of_nameIs hm.name]
      exact fun hsa => hn (Option.some.inj hsa)

theorem dropVolume_shows {t t'} {c : PodContainer} (h : ContainerShows t c) (hs : c.mounts.count volume ≤ 1)
    (hok : dropVolume volume t = .ok t') : ContainerShows t' (unmount volume c) := by
  have hall : Forall₂ MountShows (listOf "volumeMounts" t) c.mounts := by
    rcases h.mounts with ⟨hn, hnil⟩ | ⟨ms, hget, hall⟩
    · rw [listOf, hn, hnil]
      exact .nil
    · rwa [listOf_of_get? hget]
  obtain ⟨left, hl, hli, he⟩ := dropVolume_ok hok
  have hse : ∀ m ∈ listOf "volumeMounts" t, nameOf m = some volume → m.pyEq m = true := by
    intro m hm _
    obtain ⟨name, -, hsh⟩ := exists_of_forall₂ hall.flip hm
    exact hsh.self
  have hr : Forall₂ MountShows left (c.mounts.filter (· ≠ volume)) := by
    rw [(dropMounts_eq_iff hse hl).2 (apart_of_count hall hs)]
    refine rel_filter (fun m name hm => ?_) hall
    simp [nameOf_of_nameIs hm.name]
  rcases he with rfl | rfl
  · refine ⟨h.name, ?_, h.args, h.metrics⟩
    rcases h.mounts with ⟨hn, hnil⟩ | ⟨ms, hget, -⟩
    · refine .inl ⟨hn, ?_⟩
      rw [unmount, hnil]
      rfl
    · exact .inr ⟨ms, hget, by rwa [← listOf_of_get? hget, hli]⟩
  · exact h.put_mounts hr

theorem filter_at_first {α β : Type} [DecidableEq β] {f : α → β} {x : α} {bs as}
    (hn : ((bs ++ x :: as).map f).Nodup) : (bs ++ x :: as).filter (f · ≠ f x) = bs ++ as := by
  rw [map_append, map_cons, nodup_append, nodup_cons] at hn
  obtain ⟨-, ⟨has, -⟩, hdis⟩ := hn
  rw [filter_append, filter_cons_of_neg (by simp), filter_eq_self.2, filter_eq_self.2]
  · exact fun y hy => decide_eq_true fun heq => has (heq ▸ mem_map_of_mem hy)
  · exact fun y hy => decide_eq_true fun heq => hdis (f y) (mem_map_of_mem hy) (f x) mem_cons_self heq

theorem forall₂_dropVolume {us} (h : Forall₂ ContainerShows ts cs) (hs : ∀ c ∈ cs, c.mounts.count volume ≤ 1)
    (hok : ts.mapM (dropVolume volume) = .ok us) : Forall₂ ContainerShows us (cs.map (unmount volume)) := by
  have hus := forall₂_of_mapM hok
  clear hok
  induction h generalizing us with
  | nil => cases hus; exact .nil
  | cons ht _ ih =>
    cases hus with
    | cons hu hus =>
      rw [forall_mem_cons] at hs
      exact .cons (dropVolume_shows ht hs.1 hu) (ih hs.2 hus)

/-! ## Where a pod is -/

def replicaPath : Option String → List String
  | some mpiReplicaType => ["spec", "mpiReplicaSpecs", mpiReplicaType, "template", "spec"]
  | none => ["spec", "template", "spec"]

def At (replica : Option String) (p : PodShape) (root : Tree) : Prop :=
  ∃ spec, root.getPath? (replicaPath replica) = some spec ∧ Shows spec p

theorem attrs_of_getPath? {ks} {t u : Tree} (h : t.getPath? ks = some u) : attrs ks t = .ok u := by
  induction ks generalizing t with
  | nil =>
    cases h
    rfl
  | cons k ks ih =>
    obtain ⟨w, hw, hu⟩ := Option.bind_eq_some_iff.1 h
    rw [attrs, foldlM_cons, attr_of_get? hw]
    exact ih hu

theorem podSpecPath_of_getPath? {root spec : Tree} {path} (h : root.getPath? (replicaPath replica) = some spec)
    (hok : podSpecPath root replica = .ok path) : path = replicaPath replica := by
  unfold podSpecPath at hok
  cases replica with
  | some r =>
    obtain ⟨t, -, hok⟩ := bind_ok.1 hok
    split at hok
    · exact (pure_ok.1 hok).symm
    · cases hok
  | none =>
    obtain ⟨s, hs, h⟩ := Option.bind_eq_some_iff.1 h
    obtain ⟨t, ht, h⟩ := Option.bind_eq_some_iff.1 h
    obtain ⟨u, hu, -⟩ := Option.bind_eq_some_iff.1 h
    have hte : root.getPath? ["spec", "template"] = some t := by
      rw [Tree.getPath?, hs, Option.bind_some, Tree.getPath?, ht]
      rfl
    rw [attrs_of_getPath? hte] at hok
    obtain ⟨v, hv, hok⟩ := bind_ok.1 hok
    cases hv
    -- the template has a `spec`, so it counts as true
    rw [if_pos (Tree.truthy_of_get? hu)] at hok
    exact (pure_ok.1 hok).symm

theorem onPodSpec_root {spec} (hp : h.root.getPath? (replicaPath replica) = some spec)
    (hok : onPodSpec replica f h = .ok h') : ∃ spec', f spec = .ok spec' ∧ h'.root = h.root.set (replicaPath replica) spec' := by
  obtain ⟨path, hpa, hok⟩ := bind_ok.1 hok
  obtain rfl := podSpecPath_of_getPath? hp hpa
  rw [attrs_of_getPath? hp] at hok
  obtain ⟨t, ht, hok⟩ := bind_ok.1 hok
  cases ht
  obtain ⟨spec', hs', hok⟩ := bind_ok.1 hok
  cases hok
  exact ⟨spec', hs', rfl⟩

theorem at_onPodSpec {q} (hat : At replica p h.root)
    (hf : ∀ spec spec', Shows spec p → f spec = .ok spec' → Shows spec' q) (hok : onPodSpec replica f h = .ok h') :
    At replica q h'.root := by
  obtain ⟨spec, hp, hs⟩ := hat
  obtain ⟨spec', hs', hr⟩ := onPodSpec_root hp hok
  exact ⟨spec', hr ▸ Tree.getPath?_set_self hp spec', hf spec spec' hs hs'⟩

/-- The pod specs of the other replica types are left as they are. -/
theorem getPath?_onPodSpec_ne (hr : r ≠ r') {spec} (hp : h.root.getPath? (replicaPath (some r)) = some spec)
    (hok : onPodSpec (some r') f h = .ok h') : h'.root.getPath? (replicaPath (some r)) = some spec := by
  obtain ⟨path, hpa, hok⟩ := bind_ok.1 hok
  have hpa' : path = replicaPath (some r') := by
    obtain ⟨t, -, hpa⟩ := bind_ok.1 hpa
    split at hpa
    · exact (pure_ok.1 hpa).symm
    · cases hpa
  subst hpa'
  obtain ⟨t, -, hok⟩ := bind_ok.1 hok
  obtain ⟨spec', -, hok⟩ := bind_ok.1 hok
  cases hok
  exact (Tree.getPath?_set_ne hr ["spec", "mpiReplicaSpecs"] _ _ _ _).trans hp

theorem at_onPodSpec_ne (hr : r ≠ r') (hat : At (some r) p h.root) (hok : onPodSpec (some r') f h = .ok h') :
    At (some r) p h'.root := by
  obtain ⟨spec, hp, hs⟩ := hat
  exact ⟨spec, getPath?_onPodSpec_ne hr hp hok, hs⟩

/-- What is found at the path of a pod spec is the pod spec, unless it is empty. -/
theorem getPodSpec_of_getPath? {spec : Tree} (hp : h.root.getPath? (replicaPath replica) = some spec)
    (htr : spec.truthy = true) : getPodSpec h replica = .ok spec := by
  have hok : podSpecPath h.root replica = .ok (replicaPath replica) := by
    unfold podSpecPath
    cases replica with
    | some r =>
      have ha := attrs_of_getPath? hp
      rw [replicaPath] at ha
      dsimp only
      rw [ha]
      exact if_pos htr
    | none =>
      obtain ⟨s, hs, hp⟩ := Option.bind_eq_some_iff.1 hp
      obtain ⟨t, ht, hp⟩ := Option.bind_eq_some_iff.1 hp
      obtain ⟨u, hu, -⟩ := Option.bind_eq_some_iff.1 hp
      have hte : h.root.getPath? ["spec", "template"] = some t := by
        rw [Tree.getPath?, hs, Option.bind_some, Tree.getPath?, ht]
        rfl
      rw [attrs_of_getPath? hte]
      exact if_pos (Tree.truthy_of_get? hu)
  rw [getPodSpec, hok]
  exact attrs_of_getPath? hp

theorem getPodSpec_of_at (hat : At replica p h.root) : ∃ spec, getPodSpec h replica = .ok spec ∧ Shows spec p := by
  obtain ⟨spec, hp, hs⟩ := hat
  obtain ⟨ts, hget, -⟩ := hs.mains
  exact ⟨spec, getPodSpec_of_getPath? hp (Tree.truthy_of_get? hget), hs⟩

end BenchmarkAi.Transpiler
