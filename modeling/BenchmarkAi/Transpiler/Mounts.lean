import BenchmarkAi.Lib.Except
import BenchmarkAi.Transpiler.Spec
import Mathlib.Data.List.Chain
/-!
# Items with a name, and the mounts of a volume

The containers, volumes and mounts of a pod spec are lists of dicts with a name. `remove_volume` takes
mounts out of the list that it runs through, so the mount after a removed one is not looked at: all
mounts of the volume are removed if and only if no two of them are neighbours.
-/

open Lib
open List hiding beq_eq_decide

namespace BenchmarkAi.Transpiler

def listOf (k : String) (t : Tree) : List Tree :=
  match t.get? k with
  | some (.arr ts) => ts
  | _ => []

def nameOf (t : Tree) : Option String := (t.get? "name").bind (·.asString)

def NameIs (t : Tree) (name : String) : Prop := t.get? "name" = some (.str name)

/-! ## Lists of items -/

variable {t t' : Tree} {i n : Nat}

section Lists
variable {k k' name : String} {spec u v : Tree} {ts : List Tree}

theorem attr_of_get? {u} (h : t.get? k = some u) : attr k t = .ok u := by
  cases t with
  | obj fs =>
    rw [attr]
    rw [Tree.get?] at h
    rw [h]
    rfl
  | _ => cases h

theorem listOf_of_get? (h : spec.get? k = some (.arr ts)) : listOf k spec = ts := by
  rw [listOf, h]

theorem listOf_congr {spec' : Tree} (h : spec'.get? k = spec.get? k) : listOf k spec' = listOf k spec := by
  rw [listOf, h]
  rfl

theorem attr_put (h : attr k spec = .ok u) (k' : String) (v : Tree) : ∃ w, attr k (spec.put k' v) = .ok w := by
  cases spec with
  | obj fs => exact ⟨_, rfl⟩
  | _ => cases h

theorem listOf_put_self (h : attr k' spec = .ok u) (ts : List Tree) : listOf k (spec.put k (.arr ts)) = ts := by
  cases spec with
  | obj fs => exact listOf_of_get? (lookup_assign_self k _ fs)
  | _ => cases h

theorem listOf_put_ne (h : k ≠ k') : listOf k (spec.put k' v) = listOf k spec := listOf_congr (Tree.get?_put_ne h spec v)

theorem listOf_of_items (hu : attr k spec = .ok u) (h : items u = .ok ts) : listOf k spec = ts := by
  cases spec with
  | obj fs =>
    rw [attr] at hu
    rw [listOf, Tree.get?]
    cases hk : fs.lookup k with
    | none =>
      rw [hk] at hu
      cases hu
      exact Except.ok.inj h
    | some t =>
      unfold items at h
      split at h <;> simp_all
  | _ => cases hu

theorem nameOf_congr (h : t'.get? "name" = t.get? "name") : nameOf t' = nameOf t := by
  rw [nameOf, h]
  rfl

theorem nameIs_of_nameOf {name} (h : nameOf t = some name) : NameIs t name := by
  obtain ⟨u, hu, hs⟩ := Option.bind_eq_some_iff.1 h
  cases u with
  | str s =>
    cases hs
    exact hu
  | _ => cases hs

theorem nameOf_of_nameIs {name} (h : NameIs t name) : nameOf t = some name := by
  rw [nameOf, h]
  rfl

theorem named_ok {b} (h : named name t = .ok b) : b = decide (nameOf t = some name) := by
  obtain ⟨u, hu, h⟩ := bind_ok.1 h
  cases h
  cases t with
  | obj fs =>
    rw [attr] at hu
    rw [nameOf, Tree.get?]
    cases hn : fs.lookup "name" with
    | none =>
      rw [hn] at hu
      cases hu
      rfl
    | some w =>
      rw [hn] at hu
      cases hu
      cases w with
      | str s => simp [isStr, Tree.asString, eq_comm, beq_eq_decide]
      | _ => rfl
  | _ => cases hu

end Lists

/-! ## Equal mounts -/

theorem pyEqFields_lookup {fs gs : List (String × Tree)} {k} (h : Tree.pyEqFields fs gs = true)
    (ht : fs.lookup k = some t) : ∃ u, gs.lookup k = some u ∧ t.pyEq u = true := by
  induction fs with
  | nil => cases ht
  | cons f fs ih =>
    obtain ⟨k', t'⟩ := f
    rw [Tree.pyEqFields, Bool.and_eq_true] at h
    rw [lookup_cons_if] at ht
    split at ht
    · rename_i hk
      cases ht
      cases hu : gs.lookup k' with
      | none => rw [hu] at h; cases h.1
      | some u =>
        rw [hu] at h
        exact ⟨u, hk ▸ hu, h.1⟩
    · exact ih h.2 ht

theorem nameOf_of_pyEq {u name} (h : nameOf t = some name) (heq : t.pyEq u = true) : nameOf u = some name := by
  have ht := nameIs_of_nameOf h
  cases t with
  | obj fs =>
    cases u with
    | obj gs =>
      rw [Tree.pyEq, Bool.and_eq_true] at heq
      obtain ⟨w, hw, heq⟩ := pyEqFields_lookup heq.2 ht
      cases w with
      | str s =>
        have hs : name = s := by simpa [Tree.pyEq] using heq
        rw [nameOf, Tree.get?, hw, hs]
        rfl
      | _ => simp [Tree.pyEq] at heq
    | _ => simp [Tree.pyEq] at heq
  | _ => cases ht

/-! ## Mounts that are removed -/

def Apart (volume : String) (ms : List Tree) : Prop :=
  ms.IsChain fun m m' => ¬ (nameOf m = some volume ∧ nameOf m' = some volume)

section Removal
variable {volume : String} {m : Tree} {ms ms' : List Tree}

theorem apart_cons_of_ne (hm : nameOf m ≠ some volume) : Apart volume (m :: ms) ↔ Apart volume ms := by
  cases ms with
  | nil => simp [Apart]
  | cons m' ms => simp [Apart, hm]

theorem apart_cons_cons (hm : nameOf m = some volume) {m'} :
    Apart volume (m :: m' :: ms) ↔ nameOf m' ≠ some volume ∧ Apart volume ms := by
  rw [Apart, isChain_cons_cons, not_and]
  refine ⟨fun ⟨hne, h⟩ => ⟨hne hm, (apart_cons_of_ne (hne hm)).1 h⟩, fun ⟨hne, h⟩ => ⟨fun _ => hne, ?_⟩⟩
  exact (apart_cons_of_ne hne).2 h

theorem removeFirst_sublist (m : Tree) (ms : List Tree) : (removeFirst m ms).Sublist ms := by
  induction ms with
  | nil => exact Sublist.slnil
  | cons u us ih =>
    rw [removeFirst]
    split
    · exact sublist_cons_self u us
    · exact ih.cons_cons u

/-- What stands after the mount that was searched for stays where it is, counted from the end. -/
theorem drop_removeFirst (hs : m.pyEq m = true) (hi : ms[i]? = some m) : (removeFirst m ms).drop i = ms.drop (i + 1) := by
  induction ms generalizing i with
  | nil => cases hi
  | cons u us ih =>
    rw [removeFirst]
    split
    · rfl
    · rename_i hne
      cases i with
      | zero =>
        cases hi
        exact absurd hs hne
      | succ i => exact ih hi

theorem countP_removeFirst (hm : nameOf m = some volume) (hs : m.pyEq m = true) (hmem : m ∈ ms) :
    (removeFirst m ms).countP (nameOf · = some volume) + 1 = ms.countP (nameOf · = some volume) := by
  induction ms with
  | nil => cases hmem
  | cons u us ih =>
    rw [removeFirst]
    split
    · rename_i heq
      rw [countP_cons_of_pos (by simpa using nameOf_of_pyEq hm heq)]
    · rename_i hne
      rcases mem_cons.1 hmem with rfl | hmem
      · exact absurd hs hne
      · rw [countP_cons, countP_cons, ← ih hmem]
        omega

section Others
variable {p : Tree → Bool} (hp : ∀ t, nameOf t = some volume → p t = false)
include hp

theorem filter_removeFirst (hm : nameOf m = some volume) (ms : List Tree) : (removeFirst m ms).filter p = ms.filter p := by
  induction ms with
  | nil => rfl
  | cons u us ih =>
    rw [removeFirst]
    split
    · rename_i heq
      rw [filter_cons_of_neg (by simp [hp u (nameOf_of_pyEq hm heq)])]
    · rw [filter_cons, filter_cons, ih]

/-- The mounts of other volumes stay, in their order. -/
theorem filter_dropMounts (h : dropMounts volume n i ms = .ok ms') : ms'.filter p = ms.filter p := by
  induction n generalizing i ms with
  | zero => rw [pure_ok.1 h]
  | succ n ih =>
    rw [dropMounts] at h
    split at h
    · rw [pure_ok.1 h]
    · obtain ⟨b, hb, h⟩ := bind_ok.1 h
      cases b with
      | true => rw [ih h, filter_removeFirst hp (of_decide_eq_true (named_ok hb).symm)]
      | false => exact ih h

end Others

/-- The loop from position `i` on removes at most the mounts of the volume from there on, and all of them if no two
are neighbours. -/
theorem countP_dropMounts (hs : ∀ m ∈ ms, nameOf m = some volume → m.pyEq m = true) (hn : ms.length ≤ n + i)
    (h : dropMounts volume n i ms = .ok ms') :
    ms.countP (nameOf · = some volume) ≤
        ms'.countP (nameOf · = some volume) + (ms.drop i).countP (nameOf · = some volume) ∧
      (ms'.countP (nameOf · = some volume) + (ms.drop i).countP (nameOf · = some volume) =
        ms.countP (nameOf · = some volume) ↔ Apart volume (ms.drop i)) := by
  induction n generalizing i ms with
  | zero =>
    rw [drop_eq_nil_of_le (by omega), ← pure_ok.1 h]
    simp [Apart]
  | succ n ih =>
    rw [dropMounts] at h
    split at h
    · rename_i hi
      rw [drop_eq_nil_of_le (List.getElem?_eq_none_iff.1 hi), ← pure_ok.1 h]
      simp [Apart]
    · rename_i m hi
      obtain ⟨b, hb, h⟩ := bind_ok.1 h
      have hd : ms.drop i = m :: ms.drop (i + 1) := by
        obtain ⟨hlt, rfl⟩ := List.getElem?_eq_some_iff.1 hi
        exact drop_eq_getElem_cons hlt
      cases b with
      | true =>
        -- the next position is two mounts further on
        have hm : nameOf m = some volume := of_decide_eq_true (named_ok hb).symm
        have hmem := mem_of_getElem? hi
        have hsub := removeFirst_sublist m ms
        have hc := countP_removeFirst hm (hs m hmem hm) hmem
        have hne := ih (fun m hm => hs m (hsub.subset hm)) (by have := hsub.length_le; omega) h
        rw [← drop_drop, drop_removeFirst (hs m hmem hm) hi] at hne
        rw [hd, countP_cons_of_pos (by simpa using hm)]
        cases hr : ms.drop (i + 1) with
        | nil =>
          rw [hr] at hne
          simp only [drop_nil, countP_nil, Apart, isChain_nil, iff_true] at hne
          simp only [Apart, isChain_singleton, iff_true, countP_nil]
          omega
        | cons y ys =>
          rw [hr, drop_succ_cons, drop_zero] at hne
          rw [apart_cons_cons hm, ← hne.2, countP_cons]
          by_cases hy : nameOf y = some volume
          · simp only [hy, decide_true, if_true, ne_eq, not_true, false_and, iff_false]
            omega
          · simp only [hy, decide_false, Bool.false_eq_true, if_false, ne_eq, not_false_iff, true_and]
            omega
      | false =>
        have hm : nameOf m ≠ some volume := of_decide_eq_false (named_ok hb).symm
        rw [hd, countP_cons_of_neg (by simpa using hm), apart_cons_of_ne hm]
        exact ih hs (by omega) h

theorem dropMounts_eq_iff (hs : ∀ m ∈ ms, nameOf m = some volume → m.pyEq m = true)
    (h : dropMounts volume ms.length 0 ms = .ok ms') :
    ms' = ms.filter (nameOf · ≠ some volume) ↔ Apart volume ms := by
  have hc := (countP_dropMounts hs (Nat.le_refl _) h).2
  rw [drop_zero] at hc
  rw [← hc, Nat.add_eq_right, ← filter_dropMounts (fun t ht => by simp [ht]) h, eq_comm, filter_eq_self, countP_eq_zero]
  simp

end Removal

/-- The mounts of a container are the only field that is changed. -/
theorem dropVolume_ok {volume} (h : dropVolume volume t = .ok t') :
    ∃ ms, dropMounts volume (listOf "volumeMounts" t).length 0 (listOf "volumeMounts" t) = .ok ms ∧
      listOf "volumeMounts" t' = ms ∧ (t' = t ∨ t' = t.put "volumeMounts" (.arr ms)) := by
  obtain ⟨u, hu, h⟩ := bind_ok.1 h
  obtain ⟨ms, hms, h⟩ := bind_ok.1 h
  rw [listOf_of_items hu hms]
  split at h
  · rename_i hnil
    subst hnil
    cases h
    exact ⟨[], rfl, listOf_of_items hu hms, .inl rfl⟩
  · obtain ⟨left, hl, h⟩ := bind_ok.1 h
    cases h
    exact ⟨left, hl, listOf_put_self hu left, .inr rfl⟩

theorem get?_dropVolume {volume k} (h : dropVolume volume t = .ok t') (hk : k ≠ "volumeMounts") :
    t'.get? k = t.get? k := by
  obtain ⟨ms, -, -, rfl | rfl⟩ := dropVolume_ok h
  · rfl
  · exact Tree.get?_put_ne hk t _

theorem nameOf_dropVolume {volume} (h : dropVolume volume t = .ok t') : nameOf t' = nameOf t :=
  nameOf_congr (get?_dropVolume h (by decide))

end BenchmarkAi.Transpiler
