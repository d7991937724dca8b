import BenchmarkAi.Transpiler.DataMounts
import Mathlib.Data.List.Induction
/-!
# The order of the documents

The constructor of `KubernetesRootObjectHelper` sorts the documents of a stream by their kind. After the loop it asks for
the kind again, and has that of the last document: an MPI job that is not the last one is read as if it were a job of
another kind.
-/

open Lib
open List hiding beq_eq_decide

namespace BenchmarkAi.Transpiler

/-! ## Kinds -/

def isKind (kind : String) (d : Tree) : Bool := (d.get? "kind").any (isStr kind)

def rootKinds : List String := ["CronJob", "Job", "MPIJob"]

def isRoot (d : Tree) : Bool := rootKinds.any (isKind · d)

def Supported (d : Tree) : Prop := ∃ kind ∈ rootKinds ++ ["ConfigMap", "RoleBinding", "Service"], d.get? "kind" = some (.str kind)

def readRoot (mpi : Bool) (root : Tree) : Py Tree := do
  let h : RootObjectHelper := ⟨root, [], [], []⟩
  if mpi then
    validateMpiSpec h
    return (← createEmptyFields (some "Worker") (← createEmptyFields (some "Launcher") h)).root
  else
    validate h
    return (← createEmptyFields none h).root

structure OneRoot (docs : List Tree) (root : Tree) : Prop where
  supported : ∀ d ∈ docs, Supported d
  only : docs.filter isRoot = [root]
  valid : ∃ t, readRoot (isKind "MPIJob" root) root = .ok t

def Rearranged (docs docs' : List Tree) : Prop :=
  docs'.Perm docs ∧ ∀ kind, docs'.filter (isKind kind) = docs.filter (isKind kind)

structure YamlText (τ : Type) where
  dump_all : List Tree → τ
  load_all : τ → List Tree
  load_dump : ∀ docs, load_all (dump_all docs) = docs

def toYaml {τ : Type} (y : YamlText τ) (h : RootObjectHelper) : τ := y.dump_all h.objects

/-- All orders are accepted with the same objects, and these are read back. -/
def OrderIrrelevant {τ : Type} (y : YamlText τ) (docs : List Tree) : Prop :=
  ∃ h, (∀ docs', Rearranged docs docs' → ofDocs docs' = .ok h) ∧ ofDocs (y.load_all (toYaml y h)) = .ok h

/-! ## The loop -/

section Loop
variable {d root : Tree} {docs : List Tree} {kind : String}

theorem isKind_iff : isKind kind d = true ↔ d.get? "kind" = some (.str kind) := by
  rw [isKind]
  cases d.get? "kind" with
  | none => simp
  | some t =>
    cases t with
    | str s => simpa [isStr] using eq_comm
    | _ => simp [isStr]

theorem isKind_of_get? (h : d.get? "kind" = some (.str kind)) (kind' : String) : isKind kind' d = (kind' == kind) := by
  rw [isKind, h]
  rfl

theorem readDoc_supported (h : Supported d) (l : Loading) : readDoc l d = .ok {
    root := if isRoot d then some d else l.root
    config_maps := l.config_maps ++ [d].filter (isKind "ConfigMap")
    role_bindings := l.role_bindings ++ [d].filter (isKind "RoleBinding")
    services := l.services ++ [d].filter (isKind "Service")
    kind := d.get? "kind" } := by
  obtain ⟨kind, hk, hd⟩ := h
  simp only [rootKinds, cons_append, nil_append, mem_cons, not_mem_nil, or_false] at hk
  rcases hk with rfl | rfl | rfl | rfl | rfl | rfl <;>
    simp [readDoc, hd, isStr, isRoot, rootKinds, isKind, pure, Except.pure]

theorem foldlM_readDoc (h : ∀ d ∈ docs, Supported d) : docs.foldlM readDoc {} = .ok {
    root := (docs.filter isRoot).getLast?
    config_maps := docs.filter (isKind "ConfigMap")
    role_bindings := docs.filter (isKind "RoleBinding")
    services := docs.filter (isKind "Service")
    kind := docs.getLast?.bind (·.get? "kind") } := by
  induction docs using reverseRecOn with
  | nil => rfl
  | append_singleton docs d ih =>
    rw [forall_mem_append, forall_mem_singleton] at h
    rw [foldlM_append, ih h.1]
    show (readDoc _ d >>= pure) = _
    rw [readDoc_supported h.2]
    cases hr : isRoot d <;> simp [hr, pure, Except.pure, bind, Except.bind]

theorem createEmptyFields_beside (replica : Option String) (h : RootObjectHelper) : createEmptyFields replica h =
      (createEmptyFields replica ⟨h.root, [], [], []⟩).map fun h' => { h with root := h'.root } := by
  unfold createEmptyFields onPodSpec
  simp only [map_of_bind]
  rfl

theorem ofDocs_eq (h : ∀ d ∈ docs, Supported d) (hr : docs.filter isRoot = [root]) :
    ofDocs docs = (readRoot (docs.getLast?.any (isKind "MPIJob")) root).map fun t =>
      ⟨t, docs.filter (isKind "ConfigMap"), docs.filter (isKind "RoleBinding"), docs.filter (isKind "Service")⟩ := by
  have hne : docs ≠ [] := by
    rintro rfl
    cases hr
  obtain ⟨kind, -, hk⟩ := h _ (getLast_mem hne)
  have hl := getLast?_eq_getLast_of_ne_nil hne
  rw [ofDocs, foldlM_readDoc h, hr, getLast?_singleton, hl, Option.bind_some, Option.any_some, isKind, hk]
  show (if isStr "MPIJob" (.str kind) then _ else _) = (readRoot (isStr "MPIJob" (.str kind)) root).map _
  cases isStr "MPIJob" (.str kind) with
  | true =>
    rw [readRoot]
    simp only [if_true, map_of_bind]
    refine congrArg _ (funext fun _ => ?_)
    rw [createEmptyFields_beside, bind_of_map]
    refine congrArg _ (funext fun h₁ => ?_)
    rw [createEmptyFields_beside, createEmptyFields_beside _ h₁]
    cases createEmptyFields (some "Worker") ⟨h₁.root, [], [], []⟩ <;> rfl
  | false =>
    rw [readRoot]
    simp only [Bool.false_eq_true, if_false, map_of_bind]
    refine congrArg _ (funext fun _ => ?_)
    rw [createEmptyFields_beside]
    cases createEmptyFields none ⟨root, [], [], []⟩ <;> rfl

end Loop

/-! ## Empty fields are made once -/

section Fields
variable {t u v : Tree} {k : String} {ks ls : List String}

theorem truthy_of_attrs (h : attrs ks t = .ok u) (hu : u.truthy = true) : t.truthy = true := by
  induction ks generalizing t with
  | nil => rwa [← pure_ok.1 h] at hu
  | cons k ks ih =>
    obtain ⟨w, hw, h⟩ := bind_ok.1 h
    have ht := ih h
    cases t with
    | obj fs =>
      cases fs with
      | nil =>
        cases hw
        cases ht
      | cons f fs => rfl
    | _ => cases hw

theorem attrs_above (h : attrs (ks ++ ls) t = .ok u) (hu : u.truthy = true) :
    ∃ w, attrs ks t = .ok w ∧ w.truthy = true := by
  rw [attrs_append] at h
  obtain ⟨w, hw, h⟩ := bind_ok.1 h
  exact ⟨w, hw, truthy_of_attrs h hu⟩

theorem get?_of_attr (h : attr k t = .ok u) (hu : u.truthy = true) : t.get? k = some u := by
  cases t with
  | obj fs =>
    have hget := Except.ok.inj h
    rw [Tree.get?]
    cases hk : fs.lookup k with
    | none =>
      rw [hk] at hget
      subst hget
      cases hu
    | some w =>
      rw [hk] at hget
      exact congrArg some hget
  | _ => cases h

theorem put_of_get? (h : t.get? k = some v) : t.put k v = t := by
  cases t with
  | obj fs => exact congrArg Tree.obj (assign_of_lookup h)
  | _ => cases h

/-- What is there is written back. -/
theorem set_of_attrs (h : attrs ks t = .ok v) (hv : v.truthy = true) : t.set ks v = t := by
  induction ks generalizing t with
  | nil => exact (pure_ok.1 h).symm
  | cons k ks ih =>
    obtain ⟨w, hw, h⟩ := bind_ok.1 h
    rw [Tree.set, getD_of_attr hw, ih h]
    exact put_of_get? (get?_of_attr hw (truthy_of_attrs h hv))

def Filled (k : String) (t : Tree) : Prop := (∃ u, attr k t = .ok u ∧ u.truthy = true) ∨ t.get? k = some (.arr [])

theorem filled_orEmptyList {t'} (h : orEmptyList k t = .ok t') : Filled k t' := by
  obtain ⟨u, hu, h⟩ := bind_ok.1 h
  rcases if_true_ok h with ⟨ht, h⟩ | ⟨-, h⟩
  · cases h
    exact .inl ⟨u, hu, ht⟩
  · cases h
    cases t with
    | obj fs => exact .inr (lookup_assign_self k _ fs)
    | _ => cases hu

theorem orEmptyList_of_filled (h : Filled k t) : orEmptyList k t = .ok t := by
  rcases h with ⟨u, hu, ht⟩ | h
  · exact bind_ok.2 ⟨u, hu, if_pos ht⟩
  · refine bind_ok.2 ⟨_, attr_of_get? h, ?_⟩
    rw [put_of_get? h]
    rfl

theorem Filled.put (h : Filled k t) {k'} (hne : k ≠ k') (v : Tree) : Filled k (t.put k' v) := by
  rw [Filled, attr_put_ne hne, Tree.get?_put_ne hne]
  exact h

/-- Only the field itself is changed. -/
theorem orEmptyList_eq {t'} (h : orEmptyList k t = .ok t') : t' = t ∨ t' = t.put k (.arr []) := by
  obtain ⟨u, -, h⟩ := bind_ok.1 h
  rcases if_true_ok h with ⟨-, h⟩ | ⟨-, h⟩
  · exact .inl (pure_ok.1 h).symm
  · exact .inr (pure_ok.1 h).symm

/-- No list is missing in a pod spec. -/
def Listed (spec : Tree) : Prop := Filled "initContainers" spec ∧ Filled "volumes" spec ∧
  ∃ cs, spec.get? "containers" = some (.arr cs) ∧ ∀ c ∈ cs, Filled "volumeMounts" c

theorem emptyFields_ok {spec spec'} (h : emptyFields spec = .ok spec') : Listed spec' ∧
    ∃ u cs cs' s, attr "containers" spec = .ok u ∧ items u = .ok cs ∧ attr "containers" s = .ok u ∧
      Forall₂ (fun c c' => orEmptyList "volumeMounts" c = .ok c') cs cs' ∧
      attr "template" s = attr "template" spec ∧ spec' = s.put "containers" (.arr cs') := by
  obtain ⟨s₁, h₁, h⟩ := bind_ok.1 h
  obtain ⟨s, h₂, h⟩ := bind_ok.1 h
  obtain ⟨u, hu, h⟩ := bind_ok.1 h
  obtain ⟨cs, hcs, h⟩ := bind_ok.1 h
  obtain ⟨cs', hcs', h⟩ := bind_ok.1 h
  cases h
  have ha {k : String} (hi : k ≠ "initContainers") (hv : k ≠ "volumes") : attr k s = attr k spec := by
    rcases orEmptyList_eq h₁ with rfl | rfl <;> rcases orEmptyList_eq h₂ with rfl | rfl <;>
      simp only [attr_put_ne hi, attr_put_ne hv]
  have hf : Filled "initContainers" s := by
    have := filled_orEmptyList h₁
    rcases orEmptyList_eq h₂ with rfl | rfl
    · exact this
    · exact this.put (by decide) _
  have hall := forall₂_of_mapM hcs'
  have hs : ∀ c ∈ cs', Filled "volumeMounts" c := by
    intro c hc
    obtain ⟨_, -, hc⟩ := exists_of_forall₂ hall hc
    exact filled_orEmptyList hc
  refine ⟨⟨hf.put (by decide) _, (filled_orEmptyList h₂).put (by decide) _, cs', ?_, hs⟩, ?_⟩
  · cases s with
    | obj fs => exact lookup_assign_self _ _ fs
    | _ => cases hu
  · exact ⟨u, cs, cs', s, (ha (by decide) (by decide)).symm.trans hu, hcs, hu, hall, ha (by decide) (by decide), rfl⟩

theorem emptyFields_listed {spec} (h : Listed spec) : emptyFields spec = .ok spec := by
  obtain ⟨hi, hv, cs, hcs, hall⟩ := h
  refine bind_ok.2 ⟨_, orEmptyList_of_filled hi, bind_ok.2 ⟨_, orEmptyList_of_filled hv, ?_⟩⟩
  have hm : cs.mapM (orEmptyList "volumeMounts") = .ok cs :=
    mapM_of_forall₂ (forall₂_same.2 fun c hc => orEmptyList_of_filled (hall c hc))
  refine bind_ok.2 ⟨_, attr_of_get? hcs, bind_ok.2 ⟨cs, rfl, bind_ok.2 ⟨cs, hm, ?_⟩⟩⟩
  rw [put_of_get? hcs]
  rfl

/-- The containers are there still. -/
theorem containers_emptyFields {spec spec'} (h : emptyFields spec = .ok spec') (hu : attr "containers" spec = .ok u)
    (ht : u.truthy = true) : ∃ u', attr "containers" spec' = .ok u' ∧ u'.truthy = true := by
  obtain ⟨-, u', cs, cs', s, hu', hcs, hs, hall, -, rfl⟩ := emptyFields_ok h
  obtain rfl := Except.ok.inj (hu.symm.trans hu')
  have hne : cs ≠ [] := by
    rintro rfl
    unfold items at hcs
    split at hcs <;> simp_all [Tree.truthy]
  refine ⟨_, attr_put_self hs _, ?_⟩
  cases hcs' : cs' with
  | nil => exact absurd hcs' (ne_nil_of_forall₂ hall hne)
  | cons c cs => rfl

theorem emptyFields_spec {spec spec' : Tree} (h : emptyFields spec = .ok spec') :
    spec'.truthy = true ∧ attr "template" spec' = attr "template" spec := by
  obtain ⟨-, u, cs, cs', s, -, -, hu, -, ht, rfl⟩ := emptyFields_ok h
  exact ⟨truthy_put hu _ _, (attr_put_ne (by decide)).trans ht⟩

end Fields

/-! ## Reading a root object again -/

def HasPod (replica : Option String) (root spec : Tree) : Prop :=
  getPodSpec ⟨root, [], [], []⟩ replica = .ok spec ∧ ∃ u, attr "containers" spec = .ok u ∧ u.truthy = true

section Again
variable {h h' : RootObjectHelper} {root spec t : Tree} {replica : Option String}

theorem HasPod.truthy (h : HasPod replica root spec) : spec.truthy = true := by
  obtain ⟨-, u, hu, ht⟩ := h
  exact @truthy_of_attrs _ _ ["containers"] (by rw [attrs_cons, hu]; rfl) ht

theorem require_ok {b msg} : require b msg = .ok () ↔ b = true := by
  cases b <;> simp [require, throw, throwThe, MonadExceptOf.throw, pure, Except.pure]

/-- The edit of a pod with containers, and what a second one finds. -/
theorem createEmptyFields_hasPod (hpod : HasPod replica h.root spec) (hok : createEmptyFields replica h = .ok h') :
    ∃ spec', HasPod replica h'.root spec' ∧ Listed spec' := by
  obtain ⟨spec₁, spec', hs, he, hsp'⟩ := onPodSpec_getPodSpec (fun _ _ => emptyFields_spec) hok
  obtain rfl := Except.ok.inj (hpod.1.symm.trans hs)
  obtain ⟨u, hu, ht⟩ := hpod.2
  exact ⟨spec', ⟨hsp', containers_emptyFields he hu ht⟩, (emptyFields_ok he).1⟩

theorem createEmptyFields_self (hpod : HasPod replica root spec) (hl : Listed spec) :
    createEmptyFields replica ⟨root, [], [], []⟩ = .ok ⟨root, [], [], []⟩ := by
  obtain ⟨path, hp, hat⟩ := bind_ok.1 hpod.1
  refine bind_ok.2 ⟨path, hp, bind_ok.2 ⟨spec, hat, bind_ok.2 ⟨spec, emptyFields_listed hl, ?_⟩⟩⟩
  rw [set_of_attrs hat hpod.truthy]
  rfl

theorem createEmptyFields_kind (hok : createEmptyFields replica h = .ok h') : h'.root.get? "kind" = h.root.get? "kind" := by
  obtain ⟨path, hp, hok⟩ := bind_ok.1 hok
  obtain ⟨spec, -, hok⟩ := bind_ok.1 hok
  obtain ⟨spec', -, hok⟩ := bind_ok.1 hok
  cases hok
  obtain ⟨k, ls, rfl, -⟩ := podSpecPath_spec hp
  exact Tree.get?_put_ne (by decide) _ _

theorem HasPod.attr_spec (hpod : HasPod replica root spec) : ∃ u, attr "spec" root = .ok u ∧ u.truthy = true := by
  obtain ⟨path, hp, hat⟩ := bind_ok.1 hpod.1
  obtain ⟨k, ls, rfl, -⟩ := podSpecPath_spec hp
  obtain ⟨u, hu, ht⟩ := @attrs_above _ _ ["spec"] (k :: ls) hat hpod.truthy
  obtain ⟨w, hw, hwu⟩ := bind_ok.1 ((attrs_cons _ _ _).symm.trans hu)
  exact ⟨u, pure_ok.1 hwu ▸ hw, ht⟩

/-- The checks of a pod that both validations make. -/
theorem podChecks_iff (msg msg' : String) : (do
      require (← getPodSpec ⟨root, [], [], []⟩ replica).truthy msg
      require (← attr "containers" (← getPodSpec ⟨root, [], [], []⟩ replica)).truthy msg' : Py Unit) = .ok () ↔
    ∃ spec, HasPod replica root spec := by
  constructor
  · intro hok
    obtain ⟨p, -, hok⟩ := bind_ok.1 hok
    obtain ⟨_, -, hok⟩ := bind_ok.1 hok
    obtain ⟨spec, hs, hok⟩ := bind_ok.1 hok
    obtain ⟨u, hu, hok⟩ := bind_ok.1 hok
    exact ⟨spec, hs, u, hu, require_ok.1 hok⟩
  · rintro ⟨spec, hpod⟩
    have ht := hpod.truthy
    obtain ⟨hs, u, hu, htr⟩ := hpod
    exact bind_ok.2 ⟨spec, hs, bind_ok.2 ⟨(), require_ok.2 ht, bind_ok.2 ⟨spec, hs, bind_ok.2 ⟨u, hu,
      require_ok.2 htr⟩⟩⟩⟩

theorem validate_iff : validate ⟨root, [], [], []⟩ = .ok () ↔ ∃ spec, HasPod none root spec := by
  constructor
  · intro hok
    obtain ⟨s, -, hok⟩ := bind_ok.1 hok
    obtain ⟨_, -, hok⟩ := bind_ok.1 hok
    exact (podChecks_iff _ _).1 hok
  · rintro ⟨spec, hpod⟩
    obtain ⟨s, hs, hst⟩ := hpod.attr_spec
    exact bind_ok.2 ⟨s, hs, bind_ok.2 ⟨(), require_ok.2 hst, (podChecks_iff _ _).2 ⟨spec, hpod⟩⟩⟩

theorem getPodSpec_replica {r} : getPodSpec ⟨root, [], [], []⟩ (some r) = .ok spec ↔
    attrs (replicaPath (some r)) root = .ok spec ∧ spec.truthy = true := by
  constructor
  · intro hok
    obtain ⟨path, hp, hat⟩ := bind_ok.1 hok
    obtain ⟨u, hu, hp⟩ := bind_ok.1 hp
    rcases if_true_ok hp with ⟨ht, hp⟩ | ⟨-, hp⟩
    · cases hp
      obtain rfl := Except.ok.inj (hu.symm.trans hat)
      exact ⟨hu, ht⟩
    · cases hp
  · rintro ⟨hat, ht⟩
    exact bind_ok.2 ⟨_, bind_ok.2 ⟨spec, hat, if_pos ht⟩, hat⟩

theorem validateReplica_iff {r} : validateReplica ⟨root, [], [], []⟩ r = .ok () ↔ ∃ spec, HasPod (some r) root spec := by
  constructor
  · intro hok
    obtain ⟨s, -, hok⟩ := bind_ok.1 hok
    obtain ⟨_, -, hok⟩ := bind_ok.1 hok
    exact (podChecks_iff _ _).1 hok
  · rintro ⟨spec, hpod⟩
    obtain ⟨s, hs, hst⟩ := @attrs_above _ _ ["spec", "mpiReplicaSpecs", r] ["template", "spec"]
      (getPodSpec_replica.1 hpod.1).1 hpod.truthy
    exact bind_ok.2 ⟨s, hs, bind_ok.2 ⟨(), require_ok.2 hst, (podChecks_iff _ _).2 ⟨spec, hpod⟩⟩⟩

theorem validateMpiSpec_iff : validateMpiSpec ⟨root, [], [], []⟩ = .ok () ↔
    (∃ spec, HasPod (some "Launcher") root spec) ∧ ∃ spec, HasPod (some "Worker") root spec := by
  rw [← validateReplica_iff, ← validateReplica_iff]
  constructor
  · intro hok
    obtain ⟨s, -, hok⟩ := bind_ok.1 hok
    obtain ⟨_, -, hok⟩ := bind_ok.1 hok
    obtain ⟨p, -, hok⟩ := bind_ok.1 hok
    obtain ⟨_, -, hok⟩ := bind_ok.1 hok
    obtain ⟨_, hl, hw⟩ := bind_ok.1 hok
    exact ⟨hl, hw⟩
  · rintro ⟨hl, hw⟩
    obtain ⟨spec, hpod⟩ := validateReplica_iff.1 hl
    obtain ⟨s, hs, hst⟩ := hpod.attr_spec
    obtain ⟨p, hp, hpt⟩ := @attrs_above _ _ ["spec", "mpiReplicaSpecs"] ["Launcher", "template", "spec"]
      (getPodSpec_replica.1 hpod.1).1 hpod.truthy
    exact bind_ok.2 ⟨s, hs, bind_ok.2 ⟨(), require_ok.2 hst, bind_ok.2 ⟨p, hp, bind_ok.2 ⟨(), require_ok.2 hpt,
      bind_ok.2 ⟨(), hl, hw⟩⟩⟩⟩⟩

/-- The other pods stay. -/
theorem HasPod.createEmptyFields {a b} (hne : a ≠ b) (hpod : HasPod a h.root spec)
    (hok : createEmptyFields b h = .ok h') : HasPod a h'.root spec := by
  obtain ⟨path, hp, hok⟩ := bind_ok.1 hok
  obtain ⟨old, hold, hok⟩ := bind_ok.1 hok
  obtain ⟨new, -, hok⟩ := bind_ok.1 hok
  cases hok
  have hp' := hp
  obtain ⟨k, ls, rfl, hk⟩ := podSpecPath_spec hp
  have hb {k'} (h : k' ≠ k) (ls') := @attrs_set_ne _ _ k k' ["spec"] ls ls' h hold new
  cases a with
  | none =>
    obtain rfl : k = "mpiReplicaSpecs" := hk.2 (Ne.symm hne)
    obtain ⟨path, hp, hat⟩ := bind_ok.1 hpod.1
    obtain ⟨k', ls', rfl, hk'⟩ := podSpecPath_spec hp
    refine ⟨bind_ok.2 ⟨_, Eq.trans ?_ hp, (hb (fun heq => hk'.1 heq rfl) ls').trans hat⟩, hpod.2⟩
    have ht := @hb "template" (by decide) []
    have hj := @hb "jobTemplate" (by decide)
    simp only [singleton_append] at ht hj
    simp only [podSpecPath, ht, hj]
  | some r =>
    refine ⟨getPodSpec_replica.2 ⟨Eq.trans ?_ (getPodSpec_replica.1 hpod.1).1, hpod.truthy⟩, hpod.2⟩
    cases b with
    | none => exact hb (fun heq => hk.1 heq.symm rfl) _
    | some r' =>
      obtain ⟨u, hu, hp⟩ := bind_ok.1 hp'
      rcases if_true_ok hp with ⟨-, hp⟩ | ⟨-, hp⟩
      · cases hp
        have hr : r ≠ r' := fun heq => hne (congrArg some heq)
        exact @attrs_set_ne _ _ r' r ["spec", "mpiReplicaSpecs"] ["template", "spec"] ["template", "spec"] hr hold new
      · cases hp

/-- The pods of a root that is read as an MPI job or as a job of another kind. -/
def podsOf (mpi : Bool) : List (Option String) := if mpi then [some "Launcher", some "Worker"] else [none]

theorem readRoot_pods {mpi} (h : readRoot mpi root = .ok t) : t.get? "kind" = root.get? "kind" ∧
    (∀ a ∈ podsOf mpi, (∃ spec, HasPod a root spec) ∧ ∃ spec, HasPod a t spec ∧ Listed spec) ∧
    ∀ a ∉ podsOf mpi, ∀ spec, HasPod a root spec → HasPod a t spec := by
  cases mpi with
  | false =>
    obtain ⟨_, hv, h⟩ := bind_ok.1 h
    obtain ⟨h', hf, h⟩ := bind_ok.1 h
    cases h
    obtain ⟨spec, hpod⟩ := validate_iff.1 hv
    refine ⟨createEmptyFields_kind hf, ?_, fun a ha _ hp => ?_⟩
    · exact forall_mem_singleton.2 ⟨⟨spec, hpod⟩, createEmptyFields_hasPod hpod hf⟩
    · exact hp.createEmptyFields (ne_of_not_mem_cons ha) hf
  | true =>
    obtain ⟨_, hv, h⟩ := bind_ok.1 h
    obtain ⟨h₁, hla, h⟩ := bind_ok.1 h
    obtain ⟨h₂, hwo, h⟩ := bind_ok.1 h
    cases h
    obtain ⟨⟨l, hl⟩, w, hw⟩ := validateMpiSpec_iff.1 hv
    refine ⟨(createEmptyFields_kind hwo).trans (createEmptyFields_kind hla), ?_, fun a ha _ hp => ?_⟩
    · obtain ⟨l', hl', hli⟩ := createEmptyFields_hasPod hl hla
      refine forall_mem_cons.2 ⟨⟨⟨l, hl⟩, l', hl'.createEmptyFields (by decide) hwo, hli⟩, ?_⟩
      exact forall_mem_singleton.2 ⟨⟨w, hw⟩, createEmptyFields_hasPod (hw.createEmptyFields (by decide) hla) hwo⟩
    · have hw := ne_of_not_mem_cons (not_mem_of_not_mem_cons ha)
      exact (hp.createEmptyFields (ne_of_not_mem_cons ha) hla).createEmptyFields hw hwo

theorem readRoot_listed {mpi} (h : ∀ a ∈ podsOf mpi, ∃ spec, HasPod a root spec ∧ Listed spec) :
    readRoot mpi root = .ok root := by
  cases mpi with
  | false =>
    obtain ⟨spec, hpod, hl⟩ := h none mem_cons_self
    exact bind_ok.2 ⟨(), validate_iff.2 ⟨spec, hpod⟩, bind_ok.2 ⟨_, createEmptyFields_self hpod hl, rfl⟩⟩
  | true =>
    obtain ⟨l, hl, hli⟩ := h (some "Launcher") mem_cons_self
    obtain ⟨w, hw, hwi⟩ := h (some "Worker") (mem_cons_of_mem _ mem_cons_self)
    refine bind_ok.2 ⟨(), validateMpiSpec_iff.2 ⟨⟨l, hl⟩, w, hw⟩, ?_⟩
    exact bind_ok.2 ⟨_, createEmptyFields_self hl hli, bind_ok.2 ⟨_, createEmptyFields_self hw hwi, rfl⟩⟩

theorem readRoot_again {mpi} (h : readRoot mpi root = .ok t) :
    readRoot mpi t = .ok t ∧ t.get? "kind" = root.get? "kind" := by
  obtain ⟨hk, hp, -⟩ := readRoot_pods h
  exact ⟨readRoot_listed fun a ha => (hp a ha).2, hk⟩

/-- Each way of reading leaves alone what the other one edits: both give one object only if there
is nothing to edit. -/
theorem readRoot_agree_iff (h : readRoot true root = .ok t) : readRoot false root = readRoot true root ↔
    ∀ mpi, ∀ a ∈ podsOf mpi, ∃ spec, HasPod a root spec ∧ Listed spec := by
  constructor
  · intro heq mpi a ha
    have hr (b : Bool) : readRoot b root = .ok t := by
      cases b with
      | false => exact heq.trans h
      | true => exact h
    have hap : ∀ mpi, ∀ a ∈ podsOf mpi, a ∉ podsOf !mpi := by decide
    obtain ⟨⟨spec, hs⟩, spec', hs', hl⟩ := (readRoot_pods (hr mpi)).2.1 a ha
    have hst := (readRoot_pods (hr !mpi)).2.2 a (hap mpi a ha) spec hs
    obtain rfl := Except.ok.inj (hst.1.symm.trans hs'.1)
    exact ⟨spec, hs, hl⟩
  · intro hp
    rw [readRoot_listed (hp false), readRoot_listed (hp true)]

end Again

/-! ## All orders -/

section Orders
variable {docs docs' : List Tree} {d root : Tree}

theorem isRoot_of_isKind (h : Supported d) {kind} (hd : isKind kind d = true) : isRoot d = rootKinds.contains kind := by
  obtain ⟨kind', -, hget⟩ := h
  rw [isKind_of_get? hget, beq_iff_eq] at hd
  subst hd
  simp [isRoot, isKind_of_get? hget, rootKinds, beq_eq_decide, eq_comm]

theorem OneRoot.mem (h : OneRoot docs root) : root ∈ docs ∧ isRoot root = true :=
  mem_filter.1 (h.only ▸ mem_singleton_self root)

theorem OneRoot.eq_root (h : OneRoot docs root) (hd : d ∈ docs) (hr : isRoot d = true) : d = root := by
  have hmem : d ∈ docs.filter isRoot := mem_filter.2 ⟨hd, hr⟩
  rwa [h.only, mem_singleton] at hmem

theorem OneRoot.rearranged (h : OneRoot docs root) (hre : Rearranged docs docs') : OneRoot docs' root := by
  refine ⟨fun d hd => h.supported d (hre.1.mem_iff.1 hd), perm_singleton.1 ?_, h.valid⟩
  rw [← h.only]
  exact hre.1.filter isRoot

/-- The root as the only one of its kind stands apart from the others. -/
theorem OneRoot.filter (h : OneRoot docs root) (kind : String) :
    ((docs.filter (!isRoot ·)).filter (isKind kind) = [] ∧ [root].filter (isKind kind) = docs.filter (isKind kind)) ∨
    ([root].filter (isKind kind) = [] ∧ (docs.filter (!isRoot ·)).filter (isKind kind) = docs.filter (isKind kind)) := by
  have hf (f : Bool → Bool) : docs.filter (fun d => isKind kind d && f (isRoot d)) =
      docs.filter (fun d => isKind kind d && f (rootKinds.contains kind)) := by
    refine filter_congr fun d hd => ?_
    cases hk : isKind kind d with
    | false => rfl
    | true => rw [isRoot_of_isKind (h.supported d hd) hk]
  have hi : docs.filter (fun d => isKind kind d && isRoot d) = _ := hf id
  rw [← h.only, filter_filter, filter_filter, hf not, hi]
  cases rootKinds.contains kind <;> simp

theorem OneRoot.rearranged_ends (h : OneRoot docs root) :
    Rearranged docs (docs.filter (!isRoot ·) ++ [root]) ∧ Rearranged docs (root :: docs.filter (!isRoot ·)) := by
  have hp : (root :: docs.filter (!isRoot ·)).Perm docs := by
    have := filter_append_perm isRoot docs
    rwa [h.only] at this
  refine ⟨⟨perm_append_comm.trans hp, fun kind => ?_⟩, hp, fun kind => ?_⟩
  · rw [filter_append]
    rcases h.filter kind with ⟨hnil, heq⟩ | ⟨hnil, heq⟩
    · rw [hnil, heq, nil_append]
    · rw [hnil, heq, append_nil]
  · rw [← singleton_append, filter_append]
    rcases h.filter kind with ⟨hnil, heq⟩ | ⟨hnil, heq⟩
    · rw [hnil, heq, append_nil]
    · rw [hnil, heq, nil_append]

/-- A document that is read as an MPI job is the root. -/
theorem OneRoot.last (h : OneRoot docs root) (hl : docs.getLast?.any (isKind "MPIJob") = true) :
    docs.getLast? = some root ∧ isKind "MPIJob" root = true := by
  obtain ⟨d, hd, hk⟩ := (Option.any_eq_true _ _).1 hl
  have hmem := mem_of_getLast? hd
  obtain rfl := h.eq_root hmem (isRoot_of_isKind (h.supported d hmem) hk)
  exact ⟨hd, hk⟩

theorem filter_isKind (docs : List Tree) (kind kind' : String) : (docs.filter (isKind kind)).filter (isKind kind') =
    if kind = kind' then docs.filter (isKind kind) else [] := by
  rw [filter_filter]
  split
  · rename_i heq
    subst heq
    simp only [Bool.and_self]
  · rename_i hne
    refine filter_eq_nil_iff.2 fun d _ hd => hne ?_
    rw [Bool.and_eq_true, isKind_iff, isKind_iff] at hd
    exact (Tree.str.inj (Option.some.inj (hd.1.symm.trans hd.2))).symm

/-- What is written is read back. -/
theorem OneRoot.read_back (h : OneRoot docs root) {t} (ht : readRoot (isKind "MPIJob" root) root = .ok t)
    {r : RootObjectHelper} (hr : r = ⟨t, docs.filter (isKind "ConfigMap"), docs.filter (isKind "RoleBinding"),
      docs.filter (isKind "Service")⟩) : ofDocs r.objects = .ok r := by
  obtain ⟨ha, hget⟩ := readRoot_again ht
  have hki (kind : String) : isKind kind t = isKind kind root := by rw [isKind, hget]; rfl
  have hro : isRoot t = true := by
    have hmem := h.mem.2
    simp only [isRoot, hki]
    exact hmem
  have hnot {kind : String} (hk : rootKinds.contains kind = false) : isKind kind t = false := by
    cases heq : isKind kind t with
    | false => rfl
    | true =>
      rw [hki] at heq
      exact absurd ((isRoot_of_isKind (h.supported _ h.mem.1) heq).symm.trans h.mem.2) (by rw [hk]; decide)
  have hs : ∀ d ∈ r.objects, Supported d := by
    intro d hd
    subst hr
    simp only [RootObjectHelper.objects, mem_append, mem_filter, mem_singleton] at hd
    rcases hd with ((hd | hd) | hd) | rfl
    · exact h.supported d hd.1
    · exact h.supported d hd.1
    · exact h.supported d hd.1
    · obtain ⟨kind, hmem, hro⟩ := h.supported _ h.mem.1
      exact ⟨kind, hmem, hget.trans hro⟩
  have ho {kind : String} (hk : rootKinds.contains kind = false) : (docs.filter (isKind kind)).filter isRoot = [] := by
    refine filter_eq_nil_iff.2 fun d hd => ?_
    rw [mem_filter] at hd
    rw [isRoot_of_isKind (h.supported d hd.1) hd.2, hk]
    decide
  subst hr
  have hon : (RootObjectHelper.objects ⟨t, docs.filter (isKind "ConfigMap"), docs.filter (isKind "RoleBinding"),
      docs.filter (isKind "Service")⟩).filter isRoot = [t] := by
    simp only [RootObjectHelper.objects, filter_append]
    rw [ho (by decide), ho (by decide), ho (by decide), filter_singleton, hro]
    rfl
  rw [ofDocs_eq hs hon]
  simp only [RootObjectHelper.objects, getLast?_concat, Option.any_some, hki "MPIJob", ha, filter_append,
    filter_isKind, filter_singleton, @hnot "ConfigMap" (by decide), @hnot "RoleBinding" (by decide), @hnot "Service" (by decide)]
  simp [Except.map]

/-- The order of the documents does not matter if and only if the root is no MPI job, or there are no other documents, or
it has the pod of a job of the other kinds as well, and none of its pods lacks a list. -/
theorem order_irrelevant_iff {τ : Type} (y : YamlText τ) (h : OneRoot docs root) : OrderIrrelevant y docs ↔
    isKind "MPIJob" root = false ∨ docs = [root] ∨
      ∀ mpi, ∀ a ∈ podsOf mpi, ∃ spec, HasPod a root spec ∧ Listed spec := by
  constructor
  · rintro ⟨r, hall, -⟩
    cases hmpi : isKind "MPIJob" root with
    | false => exact .inl rfl
    | true =>
      refine .inr ?_
      obtain ⟨hend, hs⟩ := h.rearranged_ends
      have hl := hall _ hend
      have hf := hall _ hs
      rw [ofDocs_eq (h.rearranged hend).supported (h.rearranged hend).only, getLast?_concat, Option.any_some, hmpi]
        at hl
      rw [ofDocs_eq (h.rearranged hs).supported (h.rearranged hs).only] at hf
      cases ho : docs.filter (!isRoot ·) with
      | nil =>
        left
        rw [ho] at hs
        exact perm_singleton.1 hs.1.symm
      | cons d ds =>
        right
        -- the last document is no root then
        have hot : (root :: docs.filter (!isRoot ·)).getLast?.any (isKind "MPIJob") = false := by
          cases hany : (root :: docs.filter (!isRoot ·)).getLast?.any (isKind "MPIJob") with
          | false => rfl
          | true =>
            have hr := ((h.rearranged hs).last hany).1
            rw [ho, getLast?_cons_cons, ← ho] at hr
            simpa [h.mem.2] using mem_of_getLast? hr
        rw [hot] at hf
        obtain ⟨t, ht, rfl⟩ := map_ok.1 hl
        obtain ⟨t', ht', heq⟩ := map_ok.1 hf
        refine (readRoot_agree_iff ht).1 ?_
        rw [ht, ht', (RootObjectHelper.mk.inj heq).1]
  · intro hc
    obtain ⟨t, ht⟩ := h.valid
    refine ⟨_, fun docs' hre => ?_, (congrArg ofDocs (y.load_dump _)).trans (h.read_back ht rfl)⟩
    have hone := h.rearranged hre
    have hsa : readRoot (docs'.getLast?.any (isKind "MPIJob")) root = readRoot (isKind "MPIJob" root) root := by
      cases hl : docs'.getLast?.any (isKind "MPIJob") with
      | true => rw [(hone.last hl).2]
      | false =>
        rcases hc with hmpi | rfl | hls
        · rw [hmpi]
        · rw [perm_singleton.1 hre.1] at hl
          rw [← hl]
          rfl
        · cases hmpi : isKind "MPIJob" root with
          | false => rfl
          | true => exact (readRoot_agree_iff (hmpi ▸ ht)).2 hls
    rw [ofDocs_eq hone.supported hone.only, hsa, ht, hre.2, hre.2, hre.2]
    rfl

end Orders

def podTemplate : Tree := .obj [("spec", .obj [("containers", .arr [.obj [("name", .str "main")]])])]

def configMapDoc : Tree := .obj [("kind", .str "ConfigMap")]

def jobDoc : Tree := .obj [("kind", .str "Job"), ("spec", .obj [("template", podTemplate)])]

def mpiJobDoc : Tree := .obj [("kind", .str "MPIJob"), ("spec", .obj [("mpiReplicaSpecs", .obj [
  ("Launcher", .obj [("template", podTemplate)]), ("Worker", .obj [("template", podTemplate)])])])]

theorem supported_with_configMap {root} (hr : Supported root) : ∀ d ∈ [root, configMapDoc], Supported d :=
  forall_mem_cons.2 ⟨hr, forall_mem_singleton.2 ⟨"ConfigMap", by decide, rfl⟩⟩

/-- The order of a job and its config map does not matter. -/
theorem order_irrelevant_job : OrderIrrelevant ⟨id, id, fun _ => rfl⟩ [jobDoc, configMapDoc] := by
  have hone : OneRoot [jobDoc, configMapDoc] jobDoc :=
    ⟨supported_with_configMap ⟨"Job", by decide, rfl⟩, rfl, _, rfl⟩
  exact (order_irrelevant_iff _ hone).2 (.inl rfl)

/-- An MPI job before its config map is refused, and after it is not. -/
theorem mpi_job_first_refused : OneRoot [mpiJobDoc, configMapDoc] mpiJobDoc ∧
    Rearranged [mpiJobDoc, configMapDoc] [configMapDoc, mpiJobDoc] ∧ (∃ h, ofDocs [configMapDoc, mpiJobDoc] = .ok h) ∧
    ofDocs [mpiJobDoc, configMapDoc] = .error .builtin := by
  have hone : OneRoot [mpiJobDoc, configMapDoc] mpiJobDoc :=
    ⟨supported_with_configMap ⟨"MPIJob", by decide, rfl⟩, rfl, _, rfl⟩
  exact ⟨hone, hone.rearranged_ends.1, ⟨_, rfl⟩, rfl⟩

end BenchmarkAi.Transpiler
