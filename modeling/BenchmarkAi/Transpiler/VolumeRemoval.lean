import BenchmarkAi.Lib.TreePaths
import BenchmarkAi.Transpiler.DataMounts
/-!
# Removing a volume

`remove_volume` takes a volume out of the pod spec and its mounts out of all containers. It does so
unless a container has two mounts of the volume one right after the other: then the second one stays,
without a volume.
-/

open Lib List

namespace BenchmarkAi.Transpiler

/-! ## A call of `remove_volume` -/

/-- What a call leaves, and how it ends. An error in the loops over the mounts leaves some of them removed, and the
object is not followed there. -/
structure Call where
  after : Option RootObjectHelper
  result : Py Unit

def findVolume (volume : String) (replica : Option String) (h : RootObjectHelper) : Py Tree := do
  let volumes ← items (← attr "volumes" (← getPodSpec h replica))
  match ← splitNamed volume volumes with
  | none => throw (.notFound "Volume" volume (← volumes.mapM (attr "name")))
  | some (_, v, _) => return v

def callRemoveVolume (volume : String) (replica : Option String) (h : RootObjectHelper) : Call :=
  match findVolume volume replica h with
  | .error e => ⟨some h, .error e⟩
  | .ok _ =>
    match removeVolume volume replica h with
    | .error e => ⟨none, .error e⟩
    | .ok h' => ⟨some h', .ok ()⟩

/-! ## What it is for -/

def Unmounted (volume : String) (c c' : Tree) : Prop :=
  listOf "volumeMounts" c' = (listOf "volumeMounts" c).filter (nameOf · ≠ some volume) ∧
    ∀ k, k ≠ "volumeMounts" → c'.get? k = c.get? k

structure VolumeRemoved (volume : String) (spec spec' : Tree) : Prop where
  volumes : listOf "volumes" spec' = (listOf "volumes" spec).filter (nameOf · ≠ some volume)
  mains : Forall₂ (Unmounted volume) (listOf "containers" spec) (listOf "containers" spec')
  inits : Forall₂ (Unmounted volume) (listOf "initContainers" spec) (listOf "initContainers" spec')
  others : ∀ k, k ∉ ["volumes", "containers", "initContainers"] → spec'.get? k = spec.get? k

def Declared (volume : String) (spec : Tree) : Prop := some volume ∈ (listOf "volumes" spec).map nameOf

instance (volume : String) (spec : Tree) : Decidable (Declared volume spec) :=
  inferInstanceAs (Decidable (some volume ∈ (listOf "volumes" spec).map nameOf))

/-- A declared volume is removed, and another one is a `ValueError` that leaves the object as it is. -/
def RemovesVolume (volume : String) (replica : Option String) (h : RootObjectHelper) (spec : Tree) : Prop :=
  (Declared volume spec → ∃ h' spec', callRemoveVolume volume replica h = ⟨some h', .ok ()⟩ ∧
    getPodSpec h' replica = .ok spec' ∧ VolumeRemoved volume spec spec') ∧
  (¬ Declared volume spec → ∃ names, callRemoveVolume volume replica h =
    ⟨some h, .error (.notFound "Volume" volume names)⟩)

def DictsAt (k : String) (t : Tree) : Prop :=
  ∃ u ts, attr k t = .ok u ∧ items u = .ok ts ∧ ∀ t ∈ ts, t.Distinct ∧ ∃ fs, t = .obj fs

structure IsPodSpec (spec : Tree) : Prop where
  volumes : DictsAt "volumes" spec
  mains : DictsAt "containers" spec
  inits : DictsAt "initContainers" spec
  mounts : ∀ c ∈ podContainers spec, DictsAt "volumeMounts" c
  volumes_nodup : ((listOf "volumes" spec).map nameOf).Nodup

/-! ## The loops end -/

section Total
variable {volume : String} {ts : List Tree}

theorem exists_named (name : String) {t} (h : ∃ fs, t = .obj fs) : ∃ b, named name t = .ok b := by
  obtain ⟨fs, rfl⟩ := h
  exact ⟨_, rfl⟩

theorem exists_splitNamed (name : String) (h : ∀ t ∈ ts, ∃ fs, t = .obj fs) : ∃ r, splitNamed name ts = .ok r := by
  induction ts with
  | nil => exact ⟨none, rfl⟩
  | cons t ts ih =>
    rw [forall_mem_cons] at h
    obtain ⟨b, hb⟩ := exists_named name h.1
    obtain ⟨r, hr⟩ := ih h.2
    rw [splitNamed, hb, hr]
    cases b <;> exact ⟨_, rfl⟩

theorem exists_dropMounts (n i : Nat) (h : ∀ t ∈ ts, ∃ fs, t = .obj fs) : ∃ ms, dropMounts volume n i ts = .ok ms := by
  induction n generalizing i ts with
  | zero => exact ⟨ts, rfl⟩
  | succ n ih =>
    rw [dropMounts]
    split
    · exact ⟨ts, rfl⟩
    · rename_i m hm
      obtain ⟨b, hb⟩ := exists_named volume (h m (mem_of_getElem? hm))
      rw [hb]
      cases b with
      | true => exact ih (i + 1) fun t ht => h t ((removeFirst_sublist m ts).subset ht)
      | false => exact ih (i + 1) h

theorem exists_dropVolume {c} (h : DictsAt "volumeMounts" c) : ∃ c', dropVolume volume c = .ok c' := by
  obtain ⟨u, ms, hu, hms, hd⟩ := h
  obtain ⟨left, hl⟩ := @exists_dropMounts volume ms ms.length 0 fun m hm => (hd m hm).2
  by_cases hnil : ms = []
  · exact ⟨c, bind_ok.2 ⟨u, hu, bind_ok.2 ⟨ms, hms, if_pos hnil⟩⟩⟩
  · refine ⟨c.put "volumeMounts" (.arr left), bind_ok.2 ⟨u, hu, bind_ok.2 ⟨ms, hms, ?_⟩⟩⟩
    rw [if_neg hnil, hl]
    rfl

theorem exists_mapM {α β ε : Type} {f : α → Except ε β} {as : List α} (h : ∀ a ∈ as, ∃ b, f a = .ok b) :
    ∃ bs, as.mapM f = .ok bs := by
  obtain ⟨bs, hbs⟩ := exists_forall₂_iff.2 h
  exact ⟨bs, mapM_of_forall₂ hbs⟩

end Total

section Removing
variable {volume : String} {replica : Option String} {h : RootObjectHelper} {spec : Tree}

/-- The search ends, and finds a volume if it is declared. -/
theorem exists_search (volume : String) (hpod : IsPodSpec spec) :
    ∃ u volumes r, attr "volumes" spec = .ok u ∧ items u = .ok volumes ∧ splitNamed volume volumes = .ok r ∧
      (r.isSome = true ↔ Declared volume spec) := by
  obtain ⟨u, volumes, hu, hvo, hd⟩ := hpod.volumes
  obtain ⟨r, hr⟩ := exists_splitNamed volume fun t ht => (hd t ht).2
  refine ⟨u, volumes, r, hu, hvo, hr, ?_⟩
  rw [Declared, listOf_of_items hu hvo, mem_map]
  rcases splitNamed_ok hr with ⟨rfl, hn⟩ | ⟨before, v, after, rfl, rfl, hv, -⟩
  · refine ⟨nofun, fun ⟨v, hv, hna⟩ => ?_⟩
    simpa [hna] using filter_eq_nil_iff.1 hn v hv
  · exact ⟨fun _ => ⟨v, mem_append_right _ mem_cons_self, hv⟩, fun _ => rfl⟩

theorem findVolume_declared (hs : getPodSpec h replica = .ok spec) (hpod : IsPodSpec spec)
    (hd : Declared volume spec) : ∃ v, findVolume volume replica h = .ok v := by
  obtain ⟨u, volumes, r, hu, hv, hr, hf⟩ := exists_search volume hpod
  obtain ⟨found, rfl⟩ := Option.isSome_iff_exists.1 (hf.2 hd)
  exact ⟨found.2.1, bind_ok.2 ⟨spec, hs, bind_ok.2 ⟨u, hu, bind_ok.2 ⟨volumes, hv, bind_ok.2 ⟨_, hr, rfl⟩⟩⟩⟩⟩

theorem findVolume_undeclared (hs : getPodSpec h replica = .ok spec) (hpod : IsPodSpec spec)
    (hd : ¬ Declared volume spec) : ∃ names, findVolume volume replica h = .error (.notFound "Volume" volume names) := by
  obtain ⟨u, volumes, r, hu, hv, hr, hf⟩ := exists_search volume hpod
  obtain rfl : r = none := Option.not_isSome_iff_eq_none.1 (mt hf.1 hd)
  obtain ⟨u', volumes', hu', hv', hdi⟩ := hpod.volumes
  obtain rfl : volumes' = volumes := by rw [← listOf_of_items hu hv, listOf_of_items hu' hv']
  obtain ⟨names, hn⟩ := exists_mapM (f := attr "name") fun t ht => by
    obtain ⟨fs, rfl⟩ := (hdi t ht).2
    exact ⟨_, rfl⟩
  refine ⟨names, bind_error.2 (.inr ⟨spec, hs, bind_error.2 (.inr ⟨u, hu, bind_error.2 (.inr ⟨volumes', hv, ?_⟩)⟩)⟩)⟩
  exact bind_error.2 (.inr ⟨none, hr, bind_error.2 (.inr ⟨names, hn, rfl⟩)⟩)

theorem exists_removeVolume (hsp : getPodSpec h replica = .ok spec) (hpod : IsPodSpec spec)
    (hd : Declared volume spec) : ∃ h' spec', removeVolume volume replica h = .ok h' ∧
      withoutVolume volume spec = .ok spec' ∧ getPodSpec h' replica = .ok spec' := by
  obtain ⟨u, volumes, r, hu, hv, hr, hf⟩ := exists_search volume hpod
  obtain ⟨found, rfl⟩ := Option.isSome_iff_exists.1 (hf.2 hd)
  obtain ⟨w, mains, hw, hm, -⟩ := hpod.mains
  obtain ⟨w', inits, hw', hi, -⟩ := hpod.inits
  have hmo := hpod.mounts
  rw [podContainers, listOf_of_items hw hm, listOf_of_items hw' hi, forall_mem_append] at hmo
  obtain ⟨mains', hm'⟩ := exists_mapM fun c hc => @exists_dropVolume volume c (hmo.2 c hc)
  obtain ⟨inits', hi'⟩ := exists_mapM fun c hc => @exists_dropVolume volume c (hmo.1 c hc)
  obtain ⟨spec', hed⟩ : ∃ spec', withoutVolume volume spec = .ok spec' := by
    rw [withoutVolume, hu]
    simp only [bind_ok, Except.ok.injEq, exists_eq_left', hv, hr, hw, hm, hm', hw', hi, hi']
    exact ⟨_, rfl⟩
  obtain ⟨path, hp, hat⟩ := bind_ok.1 hsp
  have hok : removeVolume volume replica h = .ok { h with root := h.root.set path spec' } :=
    bind_ok.2 ⟨path, hp, bind_ok.2 ⟨spec, hat, bind_ok.2 ⟨spec', hed, rfl⟩⟩⟩
  obtain ⟨spec₁, spec₁', hs, he, hs'⟩ := onPodSpec_getPodSpec (fun _ _ => withoutVolume_spec) hok
  obtain rfl := Except.ok.inj (hsp.symm.trans hs)
  obtain rfl := Except.ok.inj (hed.symm.trans he)
  exact ⟨_, spec', hok, hed, hs'⟩

/-- The mounts of a container are removed if and only if they are apart. -/
theorem unmounted_iff {c c'} (hc : DictsAt "volumeMounts" c) (hok : dropVolume volume c = .ok c') :
    Unmounted volume c c' ↔ Apart volume (listOf "volumeMounts" c) := by
  obtain ⟨ms, hms, hl, -⟩ := dropVolume_ok hok
  obtain ⟨u, ts, hu, hts, hd⟩ := hc
  rw [listOf_of_items hu hts] at hms ⊢
  rw [Unmounted, hl, listOf_of_items hu hts, dropMounts_eq_iff _ hms]
  · exact and_iff_left fun k hk => get?_dropVolume hok hk
  · exact fun m hm _ => Tree.pyEq_of_same (hd m hm).1 (hd m hm).1 fun _ => rfl

theorem forall₂_unmounted_iff {cs cs'} (hcs : ∀ c ∈ cs, DictsAt "volumeMounts" c)
    (hok : Forall₂ (fun c c' => dropVolume volume c = .ok c') cs cs') :
    Forall₂ (Unmounted volume) cs cs' ↔ ∀ c ∈ cs, Apart volume (listOf "volumeMounts" c) := by
  induction hok with
  | nil => simp
  | cons hc _ ih =>
    rw [forall_mem_cons] at hcs
    rw [forall₂_cons, unmounted_iff hcs.1 hc, ih hcs.2, forall_mem_cons]

theorem volumeRemoved_iff {spec'} (hpod : IsPodSpec spec) (hok : withoutVolume volume spec = .ok spec') :
    VolumeRemoved volume spec spec' ↔ ∀ c ∈ podContainers spec, Apart volume (listOf "volumeMounts" c) := by
  have hm := hpod.mounts
  obtain ⟨hma, hi⟩ := withoutVolume_lists hok
  rw [podContainers, forall_mem_append] at hm ⊢
  rw [← forall₂_unmounted_iff hm.1 hi, ← forall₂_unmounted_iff hm.2 hma]
  refine ⟨fun h => ⟨h.inits, h.mains⟩, fun h => ⟨?_, h.2, h.1, ?_⟩⟩
  · obtain ⟨u, before, v, after, mains, inits, hu, hvo, hv, -, -, rfl⟩ := withoutVolume_ok hok
    have hn := hpod.volumes_nodup
    rw [hvo] at hn ⊢
    rw [listOf_put_ne (by decide), listOf_put_ne (by decide), listOf_put_self hu, ← hv, filter_at_first hn]
  · intro k hk
    simp only [mem_cons, not_mem_nil, or_false, not_or] at hk
    obtain ⟨u, before, v, after, mains, inits, -, -, -, -, -, rfl⟩ := withoutVolume_ok hok
    rw [Tree.get?_put_ne hk.2.2, Tree.get?_put_ne hk.2.1, Tree.get?_put_ne hk.1]

/-- A call does what it is for if and only if no container has two mounts of the declared volume one right after
the other. -/
theorem remove_volume_iff (hspec : getPodSpec h replica = .ok spec) (hpod : IsPodSpec spec) :
    RemovesVolume volume replica h spec ↔
      (Declared volume spec → ∀ c ∈ podContainers spec, Apart volume (listOf "volumeMounts" c)) := by
  rw [RemovesVolume, and_iff_left]
  · refine imp_congr_right fun hd => ?_
    obtain ⟨v, hv⟩ := findVolume_declared hspec hpod hd
    obtain ⟨h', spec', hok, he, hspec'⟩ := exists_removeVolume hspec hpod hd
    rw [callRemoveVolume, hv, hok, ← volumeRemoved_iff hpod he]
    refine ⟨fun ⟨h₁, spec₁, hc, hs, hr⟩ => ?_, fun hr => ⟨h', spec', rfl, hspec', hr⟩⟩
    obtain rfl := Option.some.inj (congrArg Call.after hc)
    obtain rfl := Except.ok.inj (hspec'.symm.trans hs)
    exact hr
  · intro hd
    obtain ⟨names, hn⟩ := findVolume_undeclared hspec hpod hd
    rw [callRemoveVolume, hn]
    exact ⟨names, rfl⟩

end Removing

def mountedPod (mounts : List (String × String)) : Tree :=
  .obj [("volumes", .arr [.obj [("name", .str "data")], .obj [("name", .str "logs")]]),
    ("containers", .arr [.obj [("name", .str "main"), ("volumeMounts", .arr (mounts.map fun m =>
      .obj [("name", .str m.1), ("mountPath", .str m.2)]))]])]

def mountedJob (mounts : List (String × String)) : RootObjectHelper :=
  ⟨.obj [("kind", .str "Job"), ("spec", .obj [("template", .obj [("spec", mountedPod mounts)])])], [], [], []⟩

theorem isPodSpec_mountedPod (mounts : List (String × String)) : IsPodSpec (mountedPod mounts) := by
  have hm : Tree.DistinctItems (mounts.map fun m => .obj [("name", .str m.1), ("mountPath", .str m.2)]) := by
    induction mounts with
    | nil => trivial
    | cons m mounts ih => exact ⟨by simp [Tree.Distinct, Tree.DistinctFields], ih⟩
  refine ⟨⟨_, _, rfl, rfl, ?_⟩, ⟨_, _, rfl, rfl, ?_⟩, ⟨_, _, rfl, rfl, by simp⟩, ?_, ?_⟩
  · simp [Tree.Distinct, Tree.DistinctFields]
  · simpa [Tree.Distinct, Tree.DistinctFields] using hm
  · intro c hc
    obtain rfl := mem_singleton.1 hc
    refine ⟨_, _, rfl, rfl, fun t ht => ?_⟩
    obtain ⟨m, -, rfl⟩ := mem_map.1 ht
    simp [Tree.Distinct, Tree.DistinctFields]
  · show [some "data", some "logs"].Nodup
    decide

/-- Two mounts of the volume with another one between them are removed. -/
theorem remove_volume_of_two_mounts :
    RemovesVolume "data" none (mountedJob [("data", "/in"), ("logs", "/log"), ("data", "/out")])
      (mountedPod [("data", "/in"), ("logs", "/log"), ("data", "/out")]) := by
  refine (remove_volume_iff rfl (isPodSpec_mountedPod _)).2 fun _ c hc => ?_
  obtain rfl := mem_singleton.1 hc
  exact (apart_cons_cons rfl).2 ⟨by decide, .singleton _⟩

/-- Of two neighbours the second one stays, and the pod mounts a volume that it does not have. -/
theorem neighbouring_mount_stays : IsPodSpec (mountedPod [("data", "/in"), ("data", "/out")]) ∧
    Declared "data" (mountedPod [("data", "/in"), ("data", "/out")]) ∧
    ∃ h' spec', callRemoveVolume "data" none (mountedJob [("data", "/in"), ("data", "/out")]) = ⟨some h', .ok ()⟩ ∧
      getPodSpec h' none = .ok spec' ∧ ¬ Declared "data" spec' ∧
      ∃ c ∈ podContainers spec', some "data" ∈ (listOf "volumeMounts" c).map nameOf := by
  exact ⟨isPodSpec_mountedPod _, by decide, _, _, rfl, rfl, by decide, _, mem_singleton_self _, by decide⟩

end BenchmarkAi.Transpiler
