import BenchmarkAi.Lib.TreePaths
import Mathlib.Algebra.BigOperators.Group.List.Basic
import Mathlib.Algebra.Ring.Nat
import Mathlib.Logic.Relation
/-!
# Walking through a tree and changing it on the way

A loop over a queue of places. The first place is taken off; if a dict lies there, it is checked
and edited, and the places of its values are put behind the others. The edit may reach below the
dict. `walk_eq` says when the loop ends with what the recursion `mapDicts` gives, that edits the
inner dicts first and checks all of them in the end.
-/

open List

namespace Lib

namespace Tree

/-! ## The loop -/

section Walk
variable {ε : Type} (e : ε) (ok : List (String × Tree) → Bool) (f : List (String × Tree) → List (String × Tree))

def next : Tree × List (List String) → Except ε (Tree × List (List String))
  | (t, []) => .ok (t, [])
  | (t, p :: ps) =>
    match t.getPath? p with
    | some (obj fs) =>
      if ok fs then .ok (t.alter (fun _ => obj (f fs)) p, ps ++ (f fs).map fun kv => p ++ [kv.1])
      else .error e
    | _ => .ok (t, ps)

def walk : Nat → Tree × List (List String) → Option (Except ε Tree)
  | 0, _ => none
  | _ + 1, (t, []) => some (.ok t)
  | n + 1, s =>
    match next e ok f s with
    | .ok s' => walk n s'
    | .error e => some (.error e)

section Next
variable {e ok f} {t : Tree} {p : List String}

theorem next_edit {fs} (h : t.getPath? p = some (obj fs)) (ps : List (List String)) :
    next e ok f (t, p :: ps) = if ok fs then
      .ok (t.alter (fun _ => obj (f fs)) p, ps ++ (f fs).map fun kv => p ++ [kv.1]) else .error e := by
  rw [next, h]

theorem next_skip (h : ∀ fs, t.getPath? p ≠ some (obj fs)) (ps : List (List String)) :
    next e ok f (t, p :: ps) = .ok (t, ps) := by
  rw [next]
  split
  · rename_i fs hfs
    exact absurd hfs (h fs)
  · rfl

theorem walk_cons (n : Nat) (ps : List (List String)) : walk e ok f (n + 1) (t, p :: ps) =
    match next e ok f (t, p :: ps) with
    | .ok s' => walk e ok f n s'
    | .error e => some (.error e) := rfl

end Next

end Walk

/-! ## The places of the queue -/

def Beside (p q : List String) : Prop := ¬p <+: q ∧ ¬q <+: p

theorem Beside.below {p q} (h : Beside q p) (k : String) : Beside q (p ++ [k]) := by
  constructor
  · intro hq
    rcases prefix_concat_iff.1 hq with rfl | hq
    · exact h.2 (prefix_append _ _)
    · exact h.1 hq
  · exact fun hp => h.2 ((prefix_append _ _).trans hp)

theorem beside_siblings {p k k'} (h : k ≠ k') : Beside (p ++ [k]) (p ++ [k']) := by
  have hne : p ++ [k] ≠ p ++ [k'] := fun heq => h (by simpa using heq)
  constructor
  · exact fun hp => hne (hp.eq_of_length (by simp))
  · exact fun hp => hne (hp.eq_of_length (by simp)).symm

theorem pairwise_beside {p ps} (h : (p :: ps).Pairwise Beside)
    {fs : List (String × Tree)} (hfs : (fs.map Prod.fst).Nodup) :
    (ps ++ fs.map fun kv => p ++ [kv.1]).Pairwise Beside := by
  rw [pairwise_cons] at h
  rw [pairwise_append]
  refine ⟨h.2, ?_, ?_⟩
  · rw [Nodup, pairwise_map] at hfs
    rw [pairwise_map]
    exact hfs.imp fun hne => beside_siblings hne
  · intro q hq r hr
    obtain ⟨kv, -, rfl⟩ := mem_map.1 hr
    exact Beside.below ⟨(h.1 q hq).2, (h.1 q hq).1⟩ kv.1

/-- The places are in the order of their depth, and at most one level deeper than the first. -/
structure Breadth (ps : List (List String)) : Prop where
  sorted : ps.Pairwise fun p q => p.length ≤ q.length
  bounded : ∀ p ∈ ps, ∀ q ∈ ps, q.length ≤ p.length + 1

theorem Breadth.tail {p ps} (h : Breadth (p :: ps)) : Breadth ps :=
  ⟨(pairwise_cons.1 h.sorted).2, fun q hq r hr => h.bounded q (mem_cons_of_mem p hq) r (mem_cons_of_mem p hr)⟩

theorem Breadth.extend {p ps} (h : Breadth (p :: ps)) (ks : List String) :
    Breadth (ps ++ ks.map fun k => p ++ [k]) := by
  have hs := pairwise_cons.1 h.sorted
  have hps (q : List String) (hq : q ∈ ps) : p.length ≤ q.length ∧ q.length ≤ p.length + 1 :=
    ⟨hs.1 q hq, h.bounded p mem_cons_self q (mem_cons_of_mem p hq)⟩
  have hall (q : List String) (hq : q ∈ ps ++ ks.map fun k => p ++ [k]) :
      p.length ≤ q.length ∧ q.length ≤ p.length + 1 := by
    rcases mem_append.1 hq with hq | hq
    · exact hps q hq
    · obtain ⟨k, -, rfl⟩ := mem_map.1 hq
      simp
  constructor
  · rw [pairwise_append]
    refine ⟨hs.2, ?_, ?_⟩
    · rw [pairwise_map]
      exact pairwise_of_forall fun k k' => by simp
    · intro q hq r hr
      obtain ⟨k, -, rfl⟩ := mem_map.1 hr
      simpa using (hps q hq).2
  · intro q hq r hr
    have := (hall q hq).1
    have := (hall r hr).2
    omega

section Runs
variable {ε : Type} {e : ε} {ok : List (String × Tree) → Bool} {f : List (String × Tree) → List (String × Tree)}

theorem Breadth.next {s s' : Tree × List (List String)} (h : Breadth s.2) (hn : Tree.next e ok f s = .ok s') :
    Breadth s'.2 := by
  obtain ⟨t, ps⟩ := s
  cases ps with
  | nil =>
    cases hn
    exact h
  | cons p ps =>
    by_cases hd : ∃ fs, t.getPath? p = some (obj fs)
    · obtain ⟨fs, hp⟩ := hd
      rw [next_edit hp] at hn
      split at hn
      · cases hn
        have he := h.extend ((f fs).map Prod.fst)
        rwa [map_map] at he
      · cases hn
    · rw [next_skip fun fs hfs => hd ⟨fs, hfs⟩] at hn
      cases hn
      exact h.tail

/-- Every queue of a run is in the order of depth. -/
theorem breadth_run {t} {s : Tree × List (List String)}
    (h : Relation.ReflTransGen (fun s s' => next e ok f s = .ok s') (t, [[]]) s) : Breadth s.2 := by
  induction h with
  | refl => exact ⟨pairwise_singleton _ _, by simp⟩
  | tail _ hn ih => exact ih.next hn

end Runs

/-! ## What is left to do -/

mutual
/-- Changes what lies at the places `S`; below such a place `S` is not looked at. -/
def mapAt (M : Tree → Tree) (S : List String → Bool) : Tree → Tree
  | obj fs => if S [] then M (obj fs) else obj (mapAtFields M S fs)
  | t => if S [] then M t else t

def mapAtFields (M : Tree → Tree) (S : List String → Bool) : List (String × Tree) → List (String × Tree)
  | [] => []
  | (k, t) :: fs => (k, mapAt M (fun q => S (k :: q)) t) :: mapAtFields M S fs
end

section MapAt
variable {M : Tree → Tree} {S S' : List String → Bool}

theorem mapAt_root (h : S [] = true) (t : Tree) : mapAt M S t = M t := by
  cases t <;> simp [mapAt, h]

theorem mapAt_obj (h : S [] = false) (fs : List (String × Tree)) : mapAt M S (obj fs) = obj (mapAtFields M S fs) := by
  rw [mapAt, if_neg (by simp [h])]

theorem mapAtFields_eq (fs : List (String × Tree)) :
    mapAtFields M S fs = fs.map fun kv => (kv.1, mapAt M (fun q => S (kv.1 :: q)) kv.2) := by
  induction fs with
  | nil => rw [mapAtFields, map_nil]
  | cons kv fs ih => rw [mapAtFields, ih, map_cons]

theorem mapValues_eq (f : List (String × Tree) → List (String × Tree)) (fs : List (String × Tree)) :
    mapValues f fs = fs.map fun kv => (kv.1, mapDicts f kv.2) := by
  induction fs with
  | nil => rw [mapValues, map_nil]
  | cons kv fs ih => rw [mapValues, ih, map_cons]

/-- One field is changed by two places sets in the same way, and so are the others. -/
theorem mapAtFields_assign {fs : List (String × Tree)} {k t t'} (hk : fs.lookup k = some t)
    (hn : (fs.map Prod.fst).Nodup)
    (ht : mapAt M (fun q => S' (k :: q)) t' = mapAt M (fun q => S (k :: q)) t)
    (hS : ∀ k' ≠ k, ∀ q, S' (k' :: q) = S (k' :: q)) :
    mapAtFields M S' (assign k t' fs) = mapAtFields M S fs := by
  induction fs with
  | nil => cases hk
  | cons kv fs ih =>
    obtain ⟨k', u⟩ := kv
    rw [map_cons, nodup_cons] at hn
    rw [lookup_cons_if] at hk
    rw [assign]
    by_cases hkk : k = k'
    · subst hkk
      obtain rfl := Option.some.inj ((if_pos rfl).symm.trans hk)
      rw [if_pos rfl, mapAtFields, ht, mapAtFields_eq, mapAtFields_eq]
      refine congrArg _ (map_congr_left fun kv hkv => ?_)
      have hne : kv.1 ≠ k := fun heq => hn.1 (mem_map.2 ⟨kv, hkv, heq⟩)
      rw [funext (hS kv.1 hne)]
    · rw [if_neg hkk] at hk
      rw [if_neg (Ne.symm hkk), mapAtFields, mapAtFields, ih hk hn.2, funext (hS k' (Ne.symm hkk))]

mutual
theorem mapAt_none {S} (h : ∀ q, S q = false) (t : Tree) : mapAt M S t = t := by
  cases t with
  | obj fs => rw [mapAt_obj (h []), mapAtFields_none h fs]
  | _ => simp [mapAt, h]

theorem mapAtFields_none {S} (h : ∀ q, S q = false) (fs : List (String × Tree)) : mapAtFields M S fs = fs := by
  cases fs with
  | nil => rw [mapAtFields]
  | cons kv fs =>
    obtain ⟨k, t⟩ := kv
    rw [mapAtFields, mapAt_none (fun q => h (k :: q)) t, mapAtFields_none h fs]
end

theorem mapAt_skip {t : Tree} {p} (ht : t.Distinct) (hp : ∀ fs, t.getPath? p ≠ some (obj fs))
    (hM : ∀ t, t.shape ≠ obj [] → M t = t) (hS : ∀ q ≠ p, S' q = S q) : mapAt M S' t = mapAt M S t := by
  induction p generalizing t S S' with
  | nil =>
    have hs : t.shape ≠ obj [] := by
      cases t with
      | obj fs => exact absurd rfl (hp fs)
      | _ => exact Tree.noConfusion
    have hid (S : List String → Bool) : mapAt M S t = t := by
      cases hr : S [] with
      | true => rw [mapAt_root hr, hM t hs]
      | false =>
        cases t with
        | obj fs => exact absurd rfl (hp fs)
        | _ => simp [mapAt, hr]
    rw [hid, hid]
  | cons k p ih =>
    have hr : S' [] = S [] := hS [] (cons_ne_nil k p).symm
    cases t with
    | obj fs =>
      rw [mapAt, mapAt, hr]
      split
      · rfl
      · rw [mapAtFields_eq, mapAtFields_eq]
        refine congrArg obj (map_congr_left fun kv hkv => congrArg _ ?_)
        have hl := (mem_entries_iff_lookup ht.1).1 hkv
        by_cases hk : kv.1 = k
        · subst hk
          refine ih (ht.lookup hl) (fun gs hgs => hp gs ?_) fun q hq => hS _ fun heq => hq (cons.inj heq).2
          rw [getPath?, get?, hl]
          exact hgs
        · have hfun : (fun q => S' (kv.1 :: q)) = fun q => S (kv.1 :: q) :=
            funext fun q => hS _ fun heq => hk (cons.inj heq).1
          rw [hfun]
    | _ => simp [mapAt, hr]

/-- At a dict, the edit and the places of its values stand for the place itself. -/
theorem mapAt_edit {f} {t : Tree} {p fs}
    (hf : f (mapValues f fs) = mapValues f (f fs)) (ht : t.Distinct) (hp : t.getPath? p = some (obj fs))
    (hSp : S p = true) (hb : ∀ q, S q = true → q ≠ p → Beside q p)
    (hS' : ∀ q, S' q = true ↔ q ≠ p ∧ S q = true ∨ ∃ kv ∈ f fs, q = p ++ [kv.1]) :
    mapAt (mapDicts f) S' (t.alter (fun _ => obj (f fs)) p) = mapAt (mapDicts f) S t := by
  induction p generalizing t S S' with
  | nil =>
    cases hp
    have hr : S' [] = false := by
      rw [← Bool.not_eq_true, hS']
      simp
    rw [alter, mapAt_root hSp, mapAt_obj hr, mapDicts, hf, mapAtFields_eq, mapValues_eq]
    refine congrArg obj (map_congr_left fun kv hkv => congrArg _ ?_)
    have hch : S' [kv.1] = true := (hS' _).2 (.inr ⟨kv, hkv, rfl⟩)
    exact @mapAt_root _ (fun q => S' (kv.1 :: q)) hch kv.2
  | cons k p ih =>
    obtain ⟨c, hc, hcp⟩ := Option.bind_eq_some_iff.1 hp
    have hS : S [] = false := by
      rw [← Bool.not_eq_true]
      exact fun h => (hb [] h (cons_ne_nil k p).symm).1 nil_prefix
    have hSs' : S' [] = false := by
      rw [← Bool.not_eq_true, hS', hS]
      simp
    cases t with
    | obj gs =>
      rw [alter, hc]
      dsimp only
      rw [put, mapAt_obj hS, mapAt_obj hSs']
      refine congrArg obj (mapAtFields_assign hc ht.1 (ih (ht.lookup hc) hcp hSp ?_ ?_) fun k' hk' q => ?_)
      · intro q hq hne
        have hq := hb (k :: q) hq fun heq => hne (cons.inj heq).2
        rwa [Beside, cons_prefix_cons, cons_prefix_cons, and_iff_right rfl, and_iff_right rfl] at hq
      · intro q
        rw [hS']
        simp
      · rw [Bool.eq_iff_iff, hS']
        simp [hk']
    | _ => cases hc

end MapAt

/-! ## The end of the loop -/

mutual
def size : Tree → Nat
  | obj fs => 1 + sizeFields fs
  | _ => 1

def sizeFields : List (String × Tree) → Nat
  | [] => 0
  | (_, t) :: fs => size t + sizeFields fs
end

theorem sizeFields_eq (fs : List (String × Tree)) : sizeFields fs = (fs.map fun kv => kv.2.size).sum := by
  induction fs with
  | nil => rw [sizeFields, map_nil, sum_nil]
  | cons kv fs ih => rw [sizeFields, ih, map_cons, sum_cons]

theorem allValues_eq (p : List (String × Tree) → Bool) (fs : List (String × Tree)) :
    allValues p fs = fs.all fun kv => kv.2.allDicts p := by
  induction fs with
  | nil => rw [allValues, all_nil]
  | cons kv fs ih => rw [allValues, ih, all_cons]

structure Local (ok : List (String × Tree) → Bool) (f : List (String × Tree) → List (String × Tree)) : Prop where
  distinct : ∀ {fs}, (obj fs).Distinct → (obj (f fs)).Distinct
  mapValues : ∀ fs, f (mapValues f fs) = Tree.mapValues f (f fs)
  check : ∀ fs, ok (f (Tree.mapValues f fs)) = ok fs

section Ends
variable {ε : Type} {ok : List (String × Tree) → Bool} {f : List (String × Tree) → List (String × Tree)}

def waiting (t : Tree) (ps : List (List String)) : List (Option Tree) := ps.map t.getPath?

def clear (ok : List (String × Tree) → Bool) (f : List (String × Tree) → List (String × Tree)) (us : List (Option Tree)) :
    Bool :=
  us.all fun u => u.all fun u => (u.mapDicts f).allDicts ok

def pending (f : List (String × Tree) → List (String × Tree)) (us : List (Option Tree)) : Nat :=
  (us.map fun u => (u.map fun u => (u.mapDicts f).size).getD 1).sum

def places (ps : List (List String)) (p : List String) : Bool := ps.contains p

section Turn
variable {t : Tree} {p : List String} {ps : List (List String)} {fs : List (String × Tree)}

theorem waiting_edit {gs : List (String × Tree)} (hps : (p :: ps).Pairwise Beside) (hp : t.getPath? p = some (obj fs))
    (hgs : (gs.map Prod.fst).Nodup) :
    waiting (t.alter (fun _ => obj gs) p) (ps ++ gs.map fun kv => p ++ [kv.1]) =
      waiting t ps ++ gs.map fun kv => some kv.2 := by
  rw [waiting, map_append, map_map]
  congr 1
  · refine map_congr_left fun q hq => ?_
    have hb := (pairwise_cons.1 hps).1 q hq
    exact getPath?_alter_beside hb.1 hb.2
  · refine map_congr_left fun kv hkv => ?_
    rw [Function.comp_apply, getPath?_concat, getPath?_alter_self, hp, Option.map_some]
    exact (mem_entries_iff_lookup hgs).1 hkv

theorem clear_edit (hl : Local ok f) (us : List (Option Tree)) : clear ok f (some (obj fs) :: us) =
    (ok fs && clear ok f (us ++ (f fs).map fun kv => some kv.2)) := by
  have hv : clear ok f ((f fs).map fun kv => some kv.2) = allValues ok (mapValues f (f fs)) := by
    rw [clear, all_map, mapValues_eq, allValues_eq, all_map]
    rfl
  rw [clear] at hv
  rw [clear, clear, all_cons, all_append, hv, Option.all_some, mapDicts, allDicts, hl.check,
    hl.mapValues, Bool.and_assoc, Bool.and_comm (allValues _ _)]

theorem pending_edit (hl : Local ok f) (us : List (Option Tree)) :
    pending f (some (obj fs) :: us) = pending f (us ++ (f fs).map fun kv => some kv.2) + 1 := by
  have hv : pending f ((f fs).map fun kv => some kv.2) = sizeFields (mapValues f (f fs)) := by
    rw [pending, map_map, mapValues_eq, sizeFields_eq, map_map]
    rfl
  rw [pending] at hv
  rw [pending, pending, map_cons, sum_cons, map_append, sum_append, hv, Option.map_some,
    Option.getD_some, mapDicts, size, hl.mapValues]
  omega

end Turn

theorem mapAt_places_edit (hl : Local ok f) {t : Tree} (ht : t.Distinct) {p ps}
    (hps : (p :: ps).Pairwise Beside) {fs} (hp : t.getPath? p = some (obj fs)) :
    mapAt (mapDicts f) (places (ps ++ (f fs).map fun kv => p ++ [kv.1])) (t.alter (fun _ => obj (f fs)) p) =
      mapAt (mapDicts f) (places (p :: ps)) t := by
  rw [pairwise_cons] at hps
  refine mapAt_edit (hl.mapValues fs) ht hp (by simp [places]) (fun q hq hne => ?_) fun q => ?_
  · have hmem : q ∈ ps := by simpa [places, hne] using hq
    exact ⟨(hps.1 q hmem).2, (hps.1 q hmem).1⟩
  · have hs : q ∈ ps → q ≠ p := fun hmem heq => (hps.1 q hmem).1 (heq ▸ prefix_refl _)
    simp only [places, contains_iff_mem, mem_append, mem_cons, mem_map]
    refine or_congr ⟨fun hmem => ⟨hs hmem, .inr hmem⟩, fun ⟨hne, hmem⟩ => hmem.resolve_left hne⟩ ?_
    exact exists_congr fun kv => and_congr_right fun _ => eq_comm

theorem mapDicts_of_shape {t : Tree} (h : t.shape ≠ obj []) : t.mapDicts f = t := by
  cases t with
  | obj fs => exact absurd rfl h
  | _ => simp [mapDicts]

theorem pending_skip {u} (hu : ∀ fs, u ≠ some (obj fs)) (us : List (Option Tree)) :
    clear ok f (u :: us) = clear ok f us ∧ pending f (u :: us) = pending f us + 1 := by
  rw [clear, clear, pending, pending, map_cons]
  cases u with
  | none => exact ⟨rfl, by simp [Nat.add_comm]⟩
  | some u =>
    cases u with
    | obj fs => exact absurd rfl (hu fs)
    | _ => exact ⟨by simp [mapDicts, allDicts], by simp [mapDicts, size, Nat.add_comm]⟩

/-- From any queue of places beside each other the loop ends, with the changes that are left to make. -/
theorem walk_places (e : ε) (hl : Local ok f) {n} {t : Tree} (ht : t.Distinct) {ps : List (List String)}
    (hps : ps.Pairwise Beside) (hn : pending f (waiting t ps) < n) : walk e ok f n (t, ps) =
      some (if clear ok f (waiting t ps) then .ok (mapAt (mapDicts f) (places ps) t) else .error e) := by
  induction n generalizing t ps with
  | zero => exact absurd hn (Nat.not_lt_zero _)
  | succ n ih =>
    cases ps with
    | nil =>
      rw [mapAt_none (S := places []) fun _ => rfl]
      rfl
    | cons p ps =>
      have hw : waiting t (p :: ps) = t.getPath? p :: waiting t ps := rfl
      rw [hw] at hn ⊢
      rw [walk_cons]
      by_cases hdi : ∃ fs, t.getPath? p = some (obj fs)
      · obtain ⟨fs, hp⟩ := hdi
        have hd := ht.getPath? hp
        have hk := (hl.distinct hd).1
        rw [hp, pending_edit hl] at hn
        rw [next_edit hp, hp, clear_edit hl]
        cases hok : ok fs with
        | false => rfl
        | true =>
          have hqu := waiting_edit hps hp hk
          have hd' : (t.alter (fun _ => obj (f fs)) p).Distinct := ht.alter fun _ _ => hl.distinct hd
          rw [if_pos rfl]
          dsimp only
          rw [ih hd' (pairwise_beside hps hk) (by rw [hqu]; omega), hqu, mapAt_places_edit hl ht hps hp, Bool.true_and]
      · have hp : ∀ fs, t.getPath? p ≠ some (obj fs) := fun fs hfs => hdi ⟨fs, hfs⟩
        obtain ⟨hc, hpe⟩ := @pending_skip ok f _ hp (waiting t ps)
        have hs : mapAt (mapDicts f) (places ps) t = mapAt (mapDicts f) (places (p :: ps)) t :=
          mapAt_skip ht hp (fun t => mapDicts_of_shape) fun q hq => by simp [places, hq]
        rw [next_skip hp]
        dsimp only
        rw [ih ht (pairwise_cons.1 hps).2 (by omega), hc, hs]

/-- The loop over a tree ends with the edit of all dicts, or with the error. -/
theorem walk_eq (e : ε) (hl : Local ok f) {t : Tree} (ht : t.Distinct) {n} (hn : (t.mapDicts f).size < n) :
    walk e ok f n (t, [[]]) = some (if (t.mapDicts f).allDicts ok then .ok (t.mapDicts f) else .error e) := by
  have hp : pending f (waiting t [[]]) = (t.mapDicts f).size := Nat.add_zero _
  have hc : clear ok f (waiting t [[]]) = (t.mapDicts f).allDicts ok := Bool.and_true _
  rw [walk_places e hl ht (pairwise_singleton _ _) (hp ▸ hn), hc, mapAt_root rfl]

end Ends

end Tree

end Lib
