import BenchmarkAi.Lib.Tree
import Mathlib.Data.List.Infix
import Mathlib.Data.List.Nodup
/-!
# Trees by their paths

A tree is known by what lies at each path of keys: a dict, or a value that has no fields. Two
trees that show the same at all paths differ at most in the order of fields, and are equal for
Python. `alter` changes what lies at a path and leaves what lies at the paths beside it.
-/

open List

namespace Lib

variable {fs gs : List (String × Tree)} {k : String} {u : Tree} {ls : List String}

namespace Tree

/-! ## Distinct keys -/

mutual
def Distinct : Tree → Prop
  | obj fs => (fs.map Prod.fst).Nodup ∧ DistinctFields fs
  | arr ts => DistinctItems ts
  | _ => True

def DistinctItems : List Tree → Prop
  | [] => True
  | t :: ts => Distinct t ∧ DistinctItems ts

def DistinctFields : List (String × Tree) → Prop
  | [] => True
  | (_, t) :: fs => Distinct t ∧ DistinctFields fs
end

theorem distinctFields_iff : DistinctFields fs ↔ ∀ kv ∈ fs, kv.2.Distinct := by
  induction fs with
  | nil => simp [DistinctFields]
  | cons kv fs ih => rw [DistinctFields, ih, forall_mem_cons]

theorem Distinct.lookup (h : (obj fs).Distinct) {t : Tree} (hk : fs.lookup k = some t) : t.Distinct := by
  rw [Distinct, distinctFields_iff] at h
  exact h.2 (k, t) (mem_of_lookup hk)

theorem Distinct.getPath? {t : Tree} (h : t.Distinct) {ks} (hu : t.getPath? ks = some u) : u.Distinct := by
  induction ks generalizing t with
  | nil =>
    cases hu
    exact h
  | cons k ks ih =>
    obtain ⟨c, hc, hr⟩ := Option.bind_eq_some_iff.1 hu
    cases t with
    | obj fs => exact ih (h.lookup hc) hr
    | _ => cases hc

theorem Distinct.assign (h : (obj fs).Distinct) (k : String) {t : Tree} (ht : t.Distinct) :
    (obj (Lib.assign k t fs)).Distinct := by
  rw [Distinct, distinctFields_iff] at h ⊢
  refine ⟨nodup_keys_assign h.1 k t, fun kv hkv => ?_⟩
  rw [mem_entries_iff_lookup (nodup_keys_assign h.1 k t)] at hkv
  by_cases hk : kv.1 = k
  · rw [hk, lookup_assign_self] at hkv
    rwa [← Option.some.inj hkv]
  · rw [lookup_assign_ne hk] at hkv
    exact h.2 _ (mem_of_lookup hkv)

/-! ## What lies at a path -/

def shape : Tree → Tree
  | obj _ => obj []
  | t => t

theorem getPath?_append (t : Tree) (ks ls : List String) : t.getPath? (ks ++ ls) = (t.getPath? ks).bind (·.getPath? ls) := by
  induction ks generalizing t with
  | nil => rfl
  | cons k ks ih =>
    rw [cons_append, getPath?, getPath?, Option.bind_assoc]
    exact congrArg _ (funext fun u => ih u)

theorem getPath?_one (t : Tree) (k : String) : t.getPath? [k] = t.get? k := by
  rw [getPath?]
  cases t.get? k <;> rfl

theorem getPath?_concat (t : Tree) (ks : List String) (k : String) :
    t.getPath? (ks ++ [k]) = (t.getPath? ks).bind (·.get? k) := by
  rw [getPath?_append]
  exact congrArg _ (funext fun u => u.getPath?_one k)

theorem getPath?_below {t : Tree} {ks} (hu : t.getPath? ks = some u) (hobj : u.shape ≠ obj []) (hls : ls ≠ []) :
    t.getPath? (ks ++ ls) = none := by
  obtain ⟨k, ls, rfl⟩ := exists_cons_of_ne_nil hls
  rw [getPath?_append, hu, Option.bind_some]
  cases u with
  | obj fs => exact absurd rfl hobj
  | _ => rfl

theorem getPath?_leaf {t w : Tree} {ks} (hu : t.getPath? ks = some u) (hobj : u.shape ≠ obj [])
    (hb : ks <+: ls) (hw : t.getPath? ls = some w) : ls = ks ∧ w = u := by
  obtain ⟨ms, rfl⟩ := hb
  by_cases hms : ms = []
  · subst hms
    rw [append_nil] at hw ⊢
    exact ⟨rfl, Option.some.inj (hw.symm.trans hu)⟩
  · rw [getPath?_below hu hobj hms] at hw
    cases hw

theorem exists_obj_of_getPath? {t : Tree} {ks} (h : t.getPath? (ks ++ [k]) = some u) :
    ∃ fs, t.getPath? ks = some (obj fs) ∧ fs.lookup k = some u := by
  rw [getPath?_concat] at h
  obtain ⟨d, hd, hk⟩ := Option.bind_eq_some_iff.1 h
  cases d with
  | obj fs => exact ⟨fs, hd, hk⟩
  | _ => cases hk

theorem shape_eq_obj {t : Tree} : t.shape = obj [] ↔ ∃ fs, t = obj fs := by
  cases t with
  | obj fs => exact ⟨fun _ => ⟨fs, rfl⟩, fun _ => rfl⟩
  | _ => exact ⟨nofun, nofun⟩

theorem eq_of_shape {t : Tree} (h : t.shape = u.shape) (hu : u.shape ≠ obj []) : t = u := by
  cases t with
  | obj fs => exact absurd h.symm hu
  | _ =>
    cases u with
    | obj gs => exact absurd rfl hu
    | _ => exact h

def Same (t u : Tree) : Prop := ∀ ks, (t.getPath? ks).map shape = (u.getPath? ks).map shape

theorem Same.child (h : Same (obj fs) (obj gs)) {t} (ht : fs.lookup k = some t) (hu : gs.lookup k = some u) : Same t u := by
  intro ks
  have := h (k :: ks)
  rwa [getPath?, getPath?, get?, get?, ht, hu] at this

theorem Same.keys (h : Same (obj fs) (obj gs)) (k : String) : k ∈ fs.map Prod.fst ↔ k ∈ gs.map Prod.fst := by
  have hk := congrArg (· = none) (h [k])
  simp only [getPath?_one, get?, Option.map_eq_none_iff, lookup_eq_none, eq_iff_iff] at hk
  exact not_iff_not.1 hk

theorem Same.length (h : Same (obj fs) (obj gs)) (hfs : (fs.map Prod.fst).Nodup) (hgs : (gs.map Prod.fst).Nodup) :
    fs.length = gs.length := by
  have hp : (fs.map Prod.fst).Perm (gs.map Prod.fst) := (perm_ext_iff_of_nodup hfs hgs).2 h.keys
  simpa using hp.length_eq

mutual
/-- Trees that show the same are equal for Python. -/
theorem pyEq_of_same {t u : Tree} (ht : t.Distinct) (hu : u.Distinct) (h : Same t u) : t.pyEq u = true := by
  have hr : t.shape = u.shape := Option.some.inj (h [])
  cases t with
  | obj fs =>
    cases u with
    | obj gs =>
      rw [pyEq, h.length ht.1 hu.1, beq_self_eq_true, Bool.true_and]
      refine pyEqFields_of_same ht.2 fun k t hk => ?_
      have hl := (mem_entries_iff_lookup ht.1).1 hk
      cases hgs : gs.lookup k with
      | none => exact absurd ((h.keys k).1 (mem_map_of_mem hk)) (lookup_eq_none.1 hgs)
      | some u => exact ⟨u, rfl, hu.lookup hgs, h.child hl hgs⟩
    | _ => cases hr
  | arr ts =>
    cases u with
    | arr us =>
      cases hr
      rw [pyEq]
      exact pyEqItems_self ht
    | _ => cases hr
  | _ =>
    cases u with
    | obj gs => cases hr
    | _ => cases hr <;> simp [pyEq]

theorem pyEqItems_self {ts} (h : DistinctItems ts) : pyEqItems ts ts = true := by
  cases ts with
  | nil => rfl
  | cons t ts =>
    rw [pyEqItems, pyEq_of_same h.1 h.1 fun _ => rfl, pyEqItems_self h.2]
    rfl

theorem pyEqFields_of_same {fs gs : List (String × Tree)} (hfs : DistinctFields fs)
    (h : ∀ k t, (k, t) ∈ fs → ∃ u, gs.lookup k = some u ∧ u.Distinct ∧ Same t u) : pyEqFields fs gs = true := by
  cases fs with
  | nil => rfl
  | cons kv fs =>
    obtain ⟨k, t⟩ := kv
    obtain ⟨u, hl, hu, hs⟩ := h k t mem_cons_self
    rw [pyEqFields, hl]
    dsimp only
    rw [pyEq_of_same hfs.1 hu hs, pyEqFields_of_same hfs.2 fun k t ht => h k t (mem_cons_of_mem _ ht)]
    rfl
end

/-! ## Changes at a path -/

def alter (f : Tree → Tree) : List String → Tree → Tree
  | [], t => f t
  | k :: ks, t =>
    match t.get? k with
    | some u => t.put k (alter f ks u)
    | none => t

section Alter
variable {f : Tree → Tree} {t : Tree} {ks : List String}

theorem getPath?_alter_self : (t.alter f ks).getPath? ks = (t.getPath? ks).map f := by
  induction ks generalizing t with
  | nil => rfl
  | cons k ks ih =>
    rw [alter]
    cases h : t.get? k with
    | none => rw [getPath?, h, Option.bind_none, Option.map_none]
    | some u =>
      rw [getPath?, get?_put_self h, Option.bind_some, ih, getPath?, h, Option.bind_some]

/-- What lies at a path beside it stays. -/
theorem getPath?_alter_beside (h : ¬ks <+: ls) (h' : ¬ls <+: ks) : (t.alter f ks).getPath? ls = t.getPath? ls := by
  induction ks generalizing t ls with
  | nil => exact absurd nil_prefix h
  | cons k ks ih =>
    cases ls with
    | nil => exact absurd nil_prefix h'
    | cons l ls =>
      rw [alter]
      cases hk : t.get? k with
      | none => rfl
      | some u =>
        by_cases hl : l = k
        · subst hl
          rw [cons_prefix_cons, and_iff_right rfl] at h h'
          rw [getPath?, get?_put_self hk, Option.bind_some, ih h h', getPath?, hk, Option.bind_some]
        · rw [getPath?, getPath?, get?_put_ne hl]

theorem Distinct.alter (ht : t.Distinct) (hf : ∀ u, t.getPath? ks = some u → (f u).Distinct) :
    (t.alter f ks).Distinct := by
  induction ks generalizing t with
  | nil => exact hf t rfl
  | cons k ks ih =>
    rw [Tree.alter]
    cases hk : t.get? k with
    | none => exact ht
    | some u =>
      cases t with
      | obj fs =>
        refine ht.assign k (ih (ht.lookup hk) fun v hv => hf v ?_)
        rw [Tree.getPath?, hk]
        exact hv
      | _ => cases hk

end Alter

/-! ## All dicts -/

section Dicts
variable {p : List (String × Tree) → Bool} {f : List (String × Tree) → List (String × Tree)}

theorem allDicts_getPath? {t : Tree} (h : t.allDicts p = true) {ks} (hks : t.getPath? ks = some (obj fs)) :
    p fs = true := by
  induction ks generalizing t with
  | nil =>
    cases hks
    rw [allDicts, Bool.and_eq_true] at h
    exact h.1
  | cons k ks ih =>
    obtain ⟨c, hc, hr⟩ := Option.bind_eq_some_iff.1 hks
    cases t with
    | obj gs =>
      rw [allDicts, Bool.and_eq_true] at h
      exact ih (allValues_lookup h.2 hc) hr
    | _ => cases hc
where
  allValues_lookup {gs : List (String × Tree)} (h : allValues p gs = true) {k : String} {c : Tree}
      (hc : gs.lookup k = some c) : c.allDicts p = true := by
    induction gs with
    | nil => cases hc
    | cons g gs ih =>
      rw [allValues, Bool.and_eq_true] at h
      rw [lookup_cons_if] at hc
      split at hc
      · cases hc
        exact h.1
      · exact ih h.2 hc

mutual
theorem allDicts_of_getPath? {t : Tree} (ht : t.Distinct)
    (h : ∀ ks fs, t.getPath? ks = some (obj fs) → p fs = true) : t.allDicts p = true := by
  cases t with
  | obj fs =>
    rw [allDicts, h [] fs rfl, Bool.true_and]
    refine allValues_of_getPath? ht.2 fun k c hc ks gs hgs => h (k :: ks) gs ?_
    rw [getPath?, get?, (mem_entries_iff_lookup ht.1).1 hc]
    exact hgs
  | _ => simp [allDicts]

theorem allValues_of_getPath? {fs} (hfs : DistinctFields fs)
    (h : ∀ k c, (k, c) ∈ fs → ∀ ks gs, c.getPath? ks = some (obj gs) → p gs = true) : allValues p fs = true := by
  cases fs with
  | nil => rfl
  | cons kv fs =>
    obtain ⟨k, c⟩ := kv
    rw [allValues, allDicts_of_getPath? hfs.1 (h k c mem_cons_self),
      allValues_of_getPath? hfs.2 fun k c hc => h k c (mem_cons_of_mem _ hc)]
    rfl
end

theorem keys_mapValues (fs : List (String × Tree)) : (mapValues f fs).map Prod.fst = fs.map Prod.fst := by
  induction fs with
  | nil => rw [mapValues]
  | cons kv fs ih => rw [mapValues, map_cons, map_cons, ih]

mutual
theorem Distinct.mapDicts (hf : ∀ {fs}, (obj fs).Distinct → (obj (f fs)).Distinct) {t : Tree} (ht : t.Distinct) :
    (t.mapDicts f).Distinct := by
  cases t with
  | obj fs =>
    rw [Tree.mapDicts]
    refine hf ⟨?_, DistinctFields.mapValues hf ht.2⟩
    rw [keys_mapValues]
    exact ht.1
  | _ => simpa [Tree.mapDicts] using ht

theorem DistinctFields.mapValues (hf : ∀ {fs}, (obj fs).Distinct → (obj (f fs)).Distinct) {fs}
    (hfs : DistinctFields fs) : DistinctFields (Tree.mapValues f fs) := by
  cases fs with
  | nil => exact hfs
  | cons kv fs =>
    obtain ⟨k, t⟩ := kv
    rw [Tree.mapValues]
    exact ⟨Distinct.mapDicts hf hfs.1, DistinctFields.mapValues hf hfs.2⟩
end

end Dicts

end Tree

end Lib
