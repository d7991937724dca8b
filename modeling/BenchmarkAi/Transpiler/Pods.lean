import Mathlib.Data.List.Nodup
/-!
# Pods

What a pod spec is for, as far as its volumes go: containers that mount volumes of the
pod. A `Pod` can not be built with a mount that has no volume, or with two volumes or two
containers of one name. The operations are those that the builders make, and each of them
keeps the pod well formed.
-/

open List

namespace BenchmarkAi.Transpiler

/-- A container, with the volumes it mounts; a puller has bucket and objects, and an
extractor of metrics the text that describes them. -/
structure PodContainer where
  name : String
  mounts : List String := []
  pulls : Option (String × String) := none
  metrics : Option String := none
deriving DecidableEq, Repr

def PodContainer.of (name : String) (mounts : List String) : PodContainer := { name, mounts }

structure PodShape where
  inits : List PodContainer
  mains : List PodContainer
  volumes : List String
deriving DecidableEq, Repr

namespace PodShape

def containers (p : PodShape) : List PodContainer := p.inits ++ p.mains

def names (p : PodShape) : List String := p.containers.map (·.name)

def find (p : PodShape) (name : String) : Option PodContainer := p.containers.find? (·.name = name)

def Single (p : PodShape) (volume : String) : Prop := ∀ c ∈ p.containers, c.mounts.count volume ≤ 1

instance (p : PodShape) (volume : String) : Decidable (p.Single volume) :=
  inferInstanceAs (Decidable (∀ c ∈ p.containers, c.mounts.count volume ≤ 1))

def mapContainers (p : PodShape) (f : PodContainer → PodContainer) : PodShape :=
  { p with inits := p.inits.map f, mains := p.mains.map f }

def without (p : PodShape) (name : String) : PodShape :=
  { p with inits := p.inits.filter (·.name ≠ name), mains := p.mains.filter (·.name ≠ name) }

def withoutVolume (p : PodShape) (volume : String) : PodShape :=
  { p with volumes := p.volumes.filter (· ≠ volume) }

def withVolume (p : PodShape) (volume : String) : PodShape := { p with volumes := p.volumes ++ [volume] }

end PodShape

structure Pod extends PodShape where
  mounted : ∀ c ∈ toPodShape.containers, ∀ m ∈ c.mounts, m ∈ volumes
  volumes_nodup : volumes.Nodup
  names_nodup : toPodShape.names.Nodup

/-! ## Changes of containers -/

def atName (name : String) (f : PodContainer → PodContainer) (c : PodContainer) : PodContainer :=
  if c.name = name then f c else c

def unmount (volume : String) (c : PodContainer) : PodContainer := { c with mounts := c.mounts.filter (· ≠ volume) }

def mount (volumes : List String) (c : PodContainer) : PodContainer := { c with mounts := c.mounts ++ volumes }

def setPulls (bucket objects : String) (c : PodContainer) : PodContainer := { c with pulls := some (bucket, objects) }

def setMetrics (metrics : String) (c : PodContainer) : PodContainer := { c with metrics := some metrics }

@[simp] theorem name_unmount (volume : String) (c : PodContainer) : (unmount volume c).name = c.name := rfl
@[simp] theorem name_mount (volumes : List String) (c : PodContainer) : (mount volumes c).name = c.name := rfl
@[simp] theorem name_setPulls (bucket objects : String) (c : PodContainer) :
    (setPulls bucket objects c).name = c.name := rfl
@[simp] theorem name_setMetrics (metrics : String) (c : PodContainer) : (setMetrics metrics c).name = c.name := rfl
@[simp] theorem mounts_setPulls (bucket objects : String) (c : PodContainer) :
    (setPulls bucket objects c).mounts = c.mounts := rfl
@[simp] theorem mounts_setMetrics (metrics : String) (c : PodContainer) : (setMetrics metrics c).mounts = c.mounts := rfl

theorem name_atName {f} (hf : ∀ c, (f c).name = c.name) (name : String)
    (c : PodContainer) : (atName name f c).name = c.name := by
  unfold atName
  split
  · exact hf c
  · rfl

namespace PodShape

variable {p : PodShape} {f : PodContainer → PodContainer}

theorem containers_mapContainers : (p.mapContainers f).containers = p.containers.map f := map_append.symm

theorem containers_without (name : String) : (p.without name).containers = p.containers.filter (·.name ≠ name) :=
  (filter_append ..).symm

theorem names_mapContainers (hf : ∀ c, (f c).name = c.name) : (p.mapContainers f).names = p.names := by
  rw [names, containers_mapContainers, map_map]
  exact map_congr_left fun c _ => hf c

theorem find_mapContainers (hf : ∀ c, (f c).name = c.name) (name : String) :
    (p.mapContainers f).find name = (p.find name).map f := by
  rw [find, containers_mapContainers, find?_map]
  congr 2
  funext c
  rw [Function.comp_apply, hf c]

theorem name_of_find {name} {c : PodContainer} (h : p.find name = some c) : c.name = name := by
  have hc := find?_some h
  exact of_decide_eq_true hc

theorem find_of_mem {c : PodContainer} (hn : p.names.Nodup) (hc : c ∈ p.containers) : p.find c.name = some c := by
  cases hf : p.find c.name with
  | none => exact absurd (decide_eq_true rfl) (find?_eq_none.1 hf c hc)
  | some d => rw [inj_on_of_nodup_map hn (mem_of_find?_eq_some hf) hc (name_of_find hf)]

theorem find_without_self (name : String) : (p.without name).find name = none := by
  rw [find, containers_without, find?_eq_none]
  intro c hc hn
  exact of_decide_eq_true (mem_filter.1 hc).2 (of_decide_eq_true hn)

theorem find_without_ne {name other} (h : other ≠ name) : (p.without name).find other = p.find other := by
  rw [find, containers_without, find?_filter]
  congr 1
  funext c
  by_cases hc : c.name = other
  · simp [hc, h]
  · simp [hc]

theorem mem_names_iff {name} : name ∈ p.names ↔ (p.find name).isSome = true := by
  rw [find, names]
  simp

theorem Single.mapContainers {volume} (h : p.Single volume)
    (hf : ∀ c, (f c).mounts.count volume ≤ c.mounts.count volume) : (p.mapContainers f).Single volume := by
  intro c hc
  rw [containers_mapContainers, mem_map] at hc
  obtain ⟨c, hc, rfl⟩ := hc
  exact Nat.le_trans (hf c) (h c hc)

theorem Single.without {volume} (h : p.Single volume) (name : String) : (p.without name).Single volume := by
  intro c hc
  rw [containers_without, mem_filter] at hc
  exact h c hc.1

end PodShape

/-! ## Operations -/

namespace Pod

def mountAt (p : Pod) (name : String) (volumes : List String) (h : ∀ v ∈ volumes, v ∈ p.volumes) : Pod where
  toPodShape := p.mapContainers (atName name (Transpiler.mount volumes))
  mounted := by
    intro c hc m hm
    rw [PodShape.containers_mapContainers, mem_map] at hc
    obtain ⟨c, hc, rfl⟩ := hc
    unfold atName at hm
    split at hm
    · rcases mem_append.1 hm with hm | hm
      · exact p.mounted c hc m hm
      · exact h m hm
    · exact p.mounted c hc m hm
  volumes_nodup := p.volumes_nodup
  names_nodup := by
    rw [PodShape.names_mapContainers (name_atName (name_mount volumes) name)]
    exact p.names_nodup

def changeAt (p : Pod) (name : String) (f : PodContainer → PodContainer) (hn : ∀ c, (f c).name = c.name)
    (hm : ∀ c, (f c).mounts = c.mounts) : Pod where
  toPodShape := p.mapContainers (atName name f)
  mounted := by
    intro c hc m hmem
    rw [PodShape.containers_mapContainers, mem_map] at hc
    obtain ⟨c, hc, rfl⟩ := hc
    refine p.mounted c hc m ?_
    unfold atName at hmem
    split at hmem
    · exact hm c ▸ hmem
    · exact hmem
  volumes_nodup := p.volumes_nodup
  names_nodup := by
    rw [PodShape.names_mapContainers (name_atName hn name)]
    exact p.names_nodup

def pullAt (p : Pod) (name bucket objects : String) : Pod :=
  p.changeAt name (setPulls bucket objects) (name_setPulls bucket objects) (mounts_setPulls bucket objects)

def metricsAt (p : Pod) (name metrics : String) : Pod :=
  p.changeAt name (setMetrics metrics) (name_setMetrics metrics) (mounts_setMetrics metrics)

def removeContainer (p : Pod) (name : String) : Pod where
  toPodShape := p.without name
  mounted := by
    intro c hc
    rw [PodShape.containers_without, mem_filter] at hc
    exact p.mounted c hc.1
  volumes_nodup := p.volumes_nodup
  names_nodup := by
    rw [PodShape.names, PodShape.containers_without]
    exact (Sublist.map _ filter_sublist).nodup p.names_nodup

def removeVolume (p : Pod) (volume : String) : Pod where
  toPodShape := (p.mapContainers (unmount volume)).withoutVolume volume
  mounted := by
    intro c hc m hm
    have hc' : c ∈ (p.mapContainers (unmount volume)).containers := hc
    rw [PodShape.containers_mapContainers, mem_map] at hc'
    obtain ⟨c, hc', rfl⟩ := hc'
    obtain ⟨hm, hne⟩ := mem_filter.1 hm
    exact mem_filter.2 ⟨p.mounted c hc' m hm, hne⟩
  volumes_nodup := p.volumes_nodup.filter _
  names_nodup := by
    have hnames := @PodShape.names_mapContainers p.toPodShape _ (name_unmount volume)
    exact hnames ▸ p.names_nodup

def addVolume (p : Pod) (volume : String) (h : volume ∉ p.volumes) : Pod where
  toPodShape := p.withVolume volume
  mounted := fun c hc m hm => mem_append_left _ (p.mounted c hc m hm)
  volumes_nodup := nodup_append.2
    ⟨p.volumes_nodup, nodup_singleton _, fun _ ha _ hb heq => h (mem_singleton.1 hb ▸ heq ▸ ha)⟩
  names_nodup := p.names_nodup

end Pod

end BenchmarkAi.Transpiler
