import BenchmarkAi.Lib.TreeWalk
import BenchmarkAi.Transpiler.LabelTheorems
/-!
# Inserting a label

`_add_label` walks through an object and sets the label in the metadata of every dict that has
some. The loop changes the tree that it walks through: the labels that it writes are dicts that it
comes to later. `label_insertion_iff` says for which objects and labels it does what it should.
-/

open Lib List

namespace BenchmarkAi.Transpiler

/-! ## One dict -/

def labelsOk (ms : List (String × Tree)) : Bool :=
  match ms.lookup "labels" with
  | some (.obj _) | none => true
  | some l => !l.truthy

def labelsOf (ms : List (String × Tree)) : List (String × Tree) :=
  match ms.lookup "labels" with
  | some (.obj ls) => ls
  | _ => []

def withLabel (key : String) (value : Tree) (ms : List (String × Tree)) : List (String × Tree) :=
  assign "labels" (.obj (assign key value (labelsOf ms))) ms

def target (fs : List (String × Tree)) : Option (List (String × Tree)) :=
  match fs.lookup "metadata" with
  | some (.obj (m :: ms)) => if labelsOk (m :: ms) then some (m :: ms) else none
  | _ => none

theorem setLabel_target (key : String) (value : Tree) (fs : List (String × Tree)) : setLabel key value fs =
      match target fs with
      | some ms => assign "metadata" (.obj (withLabel key value ms)) fs
      | none => fs := by
  unfold setLabel target
  cases hm : fs.lookup "metadata" with
  | none => rfl
  | some m =>
    cases m with
    | obj ms =>
      cases ms with
      | nil => rfl
      | cons m ms =>
        cases hl : (m :: ms).lookup "labels" with
        | none => simp [labelsOk, withLabel, labelsOf, hl, assign]
        | some l =>
          cases l with
          | obj ls => simp [labelsOk, withLabel, labelsOf, hl]
          | _ =>
            simp only [labelsOk, withLabel, labelsOf, hl]
            split <;> simp_all [assign]
    | _ => rfl

theorem target_eq_some {fs ms : List (String × Tree)} :
    target fs = some ms ↔ fs.lookup "metadata" = some (.obj ms) ∧ ms ≠ [] ∧ labelsOk ms = true := by
  unfold target
  split
  · rename_i m ms' hm
    rw [hm]
    split
    · rename_i hok
      simp only [Option.some.injEq, Tree.obj.injEq]
      refine ⟨?_, And.left⟩
      rintro rfl
      exact ⟨rfl, cons_ne_nil _ _, hok⟩
    · rename_i hok
      refine ⟨nofun, ?_⟩
      rintro ⟨hms, -, hok'⟩
      obtain rfl := Tree.obj.inj (Option.some.inj hms)
      exact absurd hok' hok
  · rename_i hno
    refine ⟨nofun, ?_⟩
    rintro ⟨hms, hne, -⟩
    obtain ⟨m, ms, rfl⟩ := exists_cons_of_ne_nil hne
    exact absurd hms (hno m ms)

variable {gs : List (String × Tree)} {q π : List String}

section setLabel
variable {key : String} {value : Tree}

theorem setLabel_some {fs ms} (h : target fs = some ms) :
    setLabel key value fs = assign "metadata" (.obj (withLabel key value ms)) fs := by
  rw [setLabel_target, h]

theorem setLabel_none {fs} (h : target fs = none) : setLabel key value fs = fs := by
  rw [setLabel_target, h]

theorem target_congr {fs : List (String × Tree)} (h : fs.lookup "metadata" = gs.lookup "metadata") : target fs = target gs := by
  rw [target, target, h]

/-- Another field can be assigned before or after. -/
theorem setLabel_assign_ne {k} (hk : k ≠ "metadata") (t : Tree) (fs : List (String × Tree)) :
    setLabel key value (assign k t fs) = assign k t (setLabel key value fs) := by
  have ht : target (assign k t fs) = target fs := target_congr (lookup_assign_ne (Ne.symm hk) t fs)
  cases h : target fs with
  | none => rw [setLabel_none h, setLabel_none (ht.trans h)]
  | some ms =>
    have hmem : "metadata" ∈ fs.map Prod.fst := mem_map_of_mem (mem_of_lookup (target_eq_some.1 h).1)
    rw [setLabel_some h, setLabel_some (ht.trans h), assign_comm hk _ _ hmem]

/-- And so can a string, which is no metadata. -/
theorem setLabel_assign_str (k s : String) (fs : List (String × Tree)) :
    setLabel key value (assign k (.str s) fs) = assign k (.str s) (setLabel key value fs) := by
  by_cases hk : k = "metadata"
  · subst hk
    have hn : target (assign "metadata" (.str s) fs) = none := by
      rw [target, lookup_assign_self]
    rw [setLabel_none hn]
    cases h : target fs with
    | none => rw [setLabel_none h]
    | some ms => rw [setLabel_some h, assign_assign_self]
  · exact setLabel_assign_ne hk _ fs

/-! ### With the dicts below -/

theorem mapValues_assign (f : List (String × Tree) → List (String × Tree)) (k : String) (t : Tree)
    (fs : List (String × Tree)) :
    Tree.mapValues f (assign k t fs) = assign k (t.mapDicts f) (Tree.mapValues f fs) := by
  rw [Tree.mapValues_eq, Tree.mapValues_eq, assign_map_values]

theorem lookup_labels_visited (ms : List (String × Tree)) :
    (setLabel key value (Tree.mapValues (setLabel key value) ms)).lookup "labels" =
      (ms.lookup "labels").map (Tree.mapDicts (setLabel key value)) := by
  rw [lookup_setLabel_ne _ _ _ (by decide), Tree.lookup_mapValues]

theorem labelsOk_visited (ms : List (String × Tree)) :
    labelsOk (setLabel key value (Tree.mapValues (setLabel key value) ms)) = labelsOk ms := by
  unfold labelsOk
  rw [lookup_labels_visited]
  cases ms.lookup "labels" with
  | none => rfl
  | some l => cases l <;> simp [Tree.mapDicts]

theorem target_mapValues (fs : List (String × Tree)) : target (Tree.mapValues (setLabel key value) fs) =
    (target fs).map fun ms => setLabel key value (Tree.mapValues (setLabel key value) ms) := by
  have hv {ms : List (String × Tree)} (hne : ms ≠ []) :
      setLabel key value (Tree.mapValues (setLabel key value) ms) ≠ [] := by
    refine setLabel_ne_nil key value ?_
    rw [Tree.mapValues_eq]
    exact fun h => hne (map_eq_nil_iff.1 h)
  apply Option.ext
  intro ns
  simp only [target_eq_some, Option.map_eq_some_iff, Tree.lookup_mapValues]
  constructor
  · rintro ⟨⟨m, hm, hns⟩, hne, hok⟩
    cases m with
    | obj ms =>
      obtain rfl := Tree.obj.inj hns
      rw [labelsOk_visited] at hok
      refine ⟨ms, ⟨hm, ?_, hok⟩, rfl⟩
      rintro rfl
      exact hne rfl
    | _ => simp [Tree.mapDicts] at hns
  · rintro ⟨ms, ⟨hm, hne, hok⟩, rfl⟩
    exact ⟨⟨.obj ms, hm, by rw [Tree.mapDicts]⟩, hv hne, (labelsOk_visited ms).trans hok⟩

end setLabel

section Visit
variable {key value : String}

/-- The label is the same before and after the dicts below. -/
theorem withLabel_visited (ms : List (String × Tree)) :
    withLabel key (.str value) (setLabel key (.str value) (Tree.mapValues (setLabel key (.str value)) ms)) =
      setLabel key (.str value) (Tree.mapValues (setLabel key (.str value)) (withLabel key (.str value) ms)) := by
  have hl : labelsOf (setLabel key (.str value) (Tree.mapValues (setLabel key (.str value)) ms)) =
      setLabel key (.str value) (Tree.mapValues (setLabel key (.str value)) (labelsOf ms)) := by
    unfold labelsOf
    rw [lookup_labels_visited]
    cases ms.lookup "labels" with
    | none => rfl
    | some l => cases l <;> simp [Tree.mapDicts, Tree.mapValues, setLabel]
  have hstr : (Tree.str value).mapDicts (setLabel key (.str value)) = .str value := by simp [Tree.mapDicts]
  rw [withLabel, withLabel, hl, mapValues_assign, setLabel_assign_ne (by decide), Tree.mapDicts, mapValues_assign,
    hstr, setLabel_assign_str]

theorem setLabel_mapValues (fs : List (String × Tree)) :
    setLabel key (.str value) (Tree.mapValues (setLabel key (.str value)) fs) =
      Tree.mapValues (setLabel key (.str value)) (setLabel key (.str value) fs) := by
  have ht := @target_mapValues key (.str value) fs
  cases h : target fs with
  | none =>
    rw [h] at ht
    rw [setLabel_none ht, setLabel_none h]
  | some ms =>
    rw [h] at ht
    rw [setLabel_some ht, setLabel_some h, mapValues_assign, withLabel_visited, Tree.mapDicts]

theorem labelable_eq (fs : List (String × Tree)) : labelable fs = match fs.lookup "metadata" with
    | some (.obj ms) => labelsOk ms
    | some m => !m.truthy
    | none => true := rfl

theorem labelsOk_withLabel (ms : List (String × Tree)) : labelsOk (withLabel key (.str value) ms) = true := by
  rw [labelsOk, withLabel, lookup_assign_self]

theorem labelable_setLabel (fs : List (String × Tree)) : labelable (setLabel key (.str value) fs) = labelable fs := by
  cases h : target fs with
  | none => rw [setLabel_none h]
  | some ms =>
    obtain ⟨hm, -, hok⟩ := target_eq_some.1 h
    rw [setLabel_some h, labelable_eq, lookup_assign_self, labelable_eq, hm]
    exact (labelsOk_withLabel ms).trans hok.symm

theorem labelable_mapValues (fs : List (String × Tree)) :
    labelable (Tree.mapValues (setLabel key (.str value)) fs) = labelable fs := by
  rw [labelable_eq, labelable_eq, Tree.lookup_mapValues]
  cases fs.lookup "metadata" with
  | none => rfl
  | some m =>
    cases m with
    | obj ms =>
      exact labelsOk_visited ms
    | _ => simp [Tree.mapDicts]

theorem distinct_withLabel {ms} (h : (Tree.obj ms).Distinct) : (Tree.obj (withLabel key (.str value) ms)).Distinct := by
  have hl : (Tree.obj (labelsOf ms)).Distinct := by
    unfold labelsOf
    split
    · rename_i hls
      exact h.lookup hls
    · exact ⟨nodup_nil, trivial⟩
  exact h.assign "labels" (hl.assign key trivial)

/-- A visit sees of a dict and of the dicts below only what other visits leave. -/
theorem local_setLabel : Tree.Local labelable (setLabel key (.str value)) where
  distinct := by
    intro fs h
    cases ht : target fs with
    | none => rwa [setLabel_none ht]
    | some ms =>
      rw [setLabel_some ht]
      exact h.assign _ (distinct_withLabel (h.lookup (target_eq_some.1 ht).1))
  mapValues := setLabel_mapValues
  check := fun fs => (labelable_setLabel _).trans (labelable_mapValues fs)

end Visit

/-! ## The loop -/

def inserted (key value : String) (t : Tree) : Tree := t.mapDicts (setLabel key (.str value))

/-- `_add_label`, with as many turns of its loop. An assignment raises where `labelable` fails. -/
def addLabelLoop (fuel : Nat) (key value : String) (k8s_obj : Tree) : Option (Py Tree) :=
  if k8s_obj.truthy then Tree.walk Raised.builtin labelable (setLabel key (.str value)) fuel (k8s_obj, [[]])
  else some (return k8s_obj)

def addLabelLoops (fuel : Nat) : List (String × String) → Tree → Option (Py Tree)
  | [], t => some (return t)
  | kv :: L, t =>
    match addLabelLoop fuel kv.1 kv.2 t with
    | some (.ok u) => addLabelLoops fuel L u
    | r => r

/-- They end with `r`, however many turns they may take. -/
def Returns (L : List (String × String)) (t : Tree) (r : Py Tree) : Prop :=
  ∃ n, ∀ fuel ≥ n, addLabelLoops fuel L t = some r

section Loop
variable {key value : String} {t u : Tree}

theorem addLabelTo_inserted :
    addLabelTo key (.str value) t = .ok u ↔ inserted key value t = u ∧ (inserted key value t).allDicts labelable = true := addLabelTo_ok

theorem addLabelTo_falsy (h : t.truthy = false) : addLabelTo key (.str value) t = .ok t := by
  rw [addLabelTo_inserted]
  cases t with
  | obj fs =>
    obtain rfl : fs = [] := by simpa [Tree.truthy] using h
    exact ⟨rfl, rfl⟩
  | _ => exact ⟨rfl, rfl⟩

/-- The loop does what `addLabelTo` says. -/
theorem addLabelLoop_eq (ht : t.Distinct) {fuel} (hfu : (inserted key value t).size < fuel) :
    addLabelLoop fuel key value t = some (addLabelTo key (.str value) t) := by
  unfold addLabelLoop
  split
  · exact Tree.walk_eq Raised.builtin local_setLabel ht hfu
  · rename_i hf
    rw [addLabelTo_falsy (by simpa using hf)]
    rfl

/-- What a visit replaces is not in the queue: it lies two levels below, and the places of the queue
one level at most. So a place stands for the dict that was put into the queue. -/
theorem replaced_not_queued {t t' p ps}
    (h : Relation.ReflTransGen (fun s s' => Tree.next Raised.builtin labelable (setLabel key (.str value)) s = .ok s')
      (t, [[]]) (t', p :: ps)) : ∀ q ∈ ps, ¬p ++ ["metadata", "labels"] <+: q := by
  intro q hq hb
  have hbo := (Tree.breadth_run h).bounded p mem_cons_self q (mem_cons_of_mem p hq)
  have hl := hb.length_le
  simp at hl
  omega

theorem Returns.unique {L r r'} (h : Returns L t r) (h' : Returns L t r') : r = r' := by
  obtain ⟨n, hn⟩ := h
  obtain ⟨n', hn'⟩ := h'
  exact Option.some.inj ((hn (max n n') (le_max_left _ _)).symm.trans (hn' (max n n') (le_max_right _ _)))

theorem returns_nil : Returns [] t (.ok t) := ⟨0, fun _ _ => rfl⟩

theorem Returns.cons {L r} (ht : t.Distinct)
    (hu : addLabelTo key (.str value) t = .ok u) (h : Returns L u r) : Returns ((key, value) :: L) t r := by
  obtain ⟨n, hn⟩ := h
  refine ⟨max n ((inserted key value t).size + 1), fun fuel hf => ?_⟩
  rw [addLabelLoops, addLabelLoop_eq ht (lt_of_lt_of_le (Nat.lt_succ_self _) ((le_max_right _ _).trans hf)), hu]
  exact hn fuel ((le_max_left _ _).trans hf)

theorem returns_one (ht : t.Distinct) : Returns [(key, value)] t (addLabelTo key (.str value) t) := by
  cases h : addLabelTo key (.str value) t with
  | ok u => exact .cons ht h returns_nil
  | error e =>
    refine ⟨(inserted key value t).size + 1, fun fuel hf => ?_⟩
    rw [addLabelLoops, addLabelLoop_eq ht hf, h]

theorem distinct_inserted (ht : t.Distinct) : (inserted key value t).Distinct :=
  Tree.Distinct.mapDicts local_setLabel.distinct ht

end Loop

/-! ## What should be written -/

def metadataAt (p : List String) : List String := p ++ ["metadata"]

def labelsAt (p : List String) : List String := metadataAt p ++ ["labels"]

def labelAt (p : List String) (key : String) : List String := labelsAt p ++ [key]

def Labelled (t : Tree) (p : List String) : Prop := ∃ u, t.getPath? p = some u ∧ hasMetadata u = true

/-- The places that the labels `L` are written to: labels that have to be made, and each label with
all that it had below. -/
def Touched (t : Tree) (L : List (String × String)) (π : List String) : Prop :=
  ∃ p, Labelled t p ∧ ∃ kv ∈ L,
    (π = labelsAt p ∧ (t.getPath? π).any (·.truthy) = false) ∨ labelAt p kv.1 <+: π

/-- `u` is `t` with the labels `L` at every dict that has metadata, and nothing else has changed. -/
structure Inserts (t : Tree) (L : List (String × String)) (u : Tree) : Prop where
  set : ∀ p, Labelled t p → ∀ kv ∈ L, u.getPath? (labelAt p kv.1) = some (.str kv.2)
  rest : ∀ π, ¬Touched t L π → (u.getPath? π).map Tree.shape = (t.getPath? π).map Tree.shape

/-- The objects and labels for which that can be done: metadata and labels are dicts, no label is
written over metadata, and a label that looks like metadata is empty. -/
structure Insertable (t : Tree) (key value : String) : Prop where
  dicts : ∀ p fs, Labelled t p → t.getPath? p = some (.obj fs) → labelable fs = true
  apart : ∀ p q, Labelled t p → Labelled t q → ¬labelAt q key <+: metadataAt p
  quiet : ∀ p, Labelled t p → key = "metadata" → value = ""

/-! ### Places -/

theorem labelsAt_ne_metadataAt (q p : List String) : labelsAt q ≠ metadataAt p := by
  intro h
  have := append_inj_right' h rfl
  simp at this

theorem labelAt_prefix_metadataAt {p key} :
    labelAt q key <+: metadataAt p ↔ (p = labelsAt q ∧ key = "metadata") ∨ labelAt q key <+: p := by
  rw [metadataAt, prefix_concat_iff]
  refine or_congr_left ⟨fun h => ?_, ?_⟩
  · exact ⟨(append_inj_left' h rfl).symm, by simpa using append_inj_right' h rfl⟩
  · rintro ⟨rfl, rfl⟩
    rfl

theorem labelAt_prefix_field {p key k} : labelAt q key <+: metadataAt p ++ [k] ↔ labelAt q key <+: metadataAt p := by
  rw [prefix_concat_iff, or_iff_right]
  exact fun h => labelsAt_ne_metadataAt q p (append_inj_left' h rfl)

theorem labelAt_prefix_labelAt {p key k} :
    labelAt q key <+: labelAt p k ↔ (q = p ∧ key = k) ∨ labelAt q key <+: metadataAt p := by
  rw [labelAt, labelAt, prefix_concat_iff]
  refine or_congr ⟨fun h => ?_, ?_⟩ labelAt_prefix_field
  · have hl := append_inj_left' h rfl
    have hm := append_inj_left' hl rfl
    exact ⟨append_inj_left' hm rfl, by simpa using append_inj_right' h rfl⟩
  · rintro ⟨rfl, rfl⟩
    rfl

section Below
variable {t c : Tree} {k : String}

theorem labelled_cons {p} : Labelled t (k :: p) ↔ ∃ c, t.get? k = some c ∧ Labelled c p := by
  constructor
  · rintro ⟨u, hu, hm⟩
    obtain ⟨c, hc, hr⟩ := Option.bind_eq_some_iff.1 hu
    exact ⟨c, hc, u, hr, hm⟩
  · rintro ⟨c, hc, u, hu, hm⟩
    refine ⟨u, ?_, hm⟩
    rw [Tree.getPath?, hc]
    exact hu

theorem Labelled.below (hc : t.get? k = some c) {p} (h : Labelled c p) : Labelled t (k :: p) :=
  labelled_cons.2 ⟨c, hc, h⟩

theorem Touched.below {L} (hc : t.get? k = some c) (h : Touched c L π) : Touched t L (k :: π) := by
  obtain ⟨p, hp, kv, hkv, ⟨rfl, hno⟩ | hb⟩ := h
  · refine ⟨k :: p, hp.below hc, kv, hkv, .inl ⟨rfl, ?_⟩⟩
    rw [Tree.getPath?, hc]
    exact hno
  · exact ⟨k :: p, hp.below hc, kv, hkv, .inr (cons_prefix_cons.2 ⟨rfl, hb⟩)⟩

theorem Insertable.below {key value} (hc : t.get? k = some c) (h : Insertable t key value) :
    Insertable c key value where
  dicts := by
    intro p fs hp hfs
    refine h.dicts (k :: p) fs (hp.below hc) ?_
    rw [Tree.getPath?, hc]
    exact hfs
  apart := fun p q hp hq hb =>
    h.apart (k :: p) (k :: q) (hp.below hc) (hq.below hc) (cons_prefix_cons.2 ⟨rfl, hb⟩)
  quiet := fun p hp => h.quiet (k :: p) (hp.below hc)

end Below

theorem labelled_iff {t : Tree} {p} : Labelled t p ↔ ∃ m, t.getPath? (metadataAt p) = some m ∧ m.truthy = true := by
  simp only [Labelled, metadataAt, Tree.getPath?_concat, hasMetadata, Option.any_eq_true, Option.bind_eq_some_iff]
  constructor
  · rintro ⟨u, hu, m, hm, ht⟩
    exact ⟨m, ⟨u, hu, hm⟩, ht⟩
  · rintro ⟨m, ⟨u, hu, hm⟩, ht⟩
    exact ⟨u, hu, m, hm, ht⟩

/-! ## The tree with the label, by its places -/

section Inserted
variable {key value : String} {fs ms : List (String × Tree)}

theorem labelled_of_target (h : target fs = some ms) : Labelled (.obj fs) [] := by
  obtain ⟨hm, hne, -⟩ := target_eq_some.1 h
  refine ⟨.obj fs, rfl, ?_⟩
  rw [hasMetadata, Tree.get?, hm, Option.any_some, Tree.truthy, isEmpty_eq_false_iff.2 hne]
  rfl

theorem target_of_labelled (h : hasMetadata (.obj fs) = true) (hok : labelable fs = true) : ∃ ms, target fs = some ms := by
  obtain ⟨m, hm, ht⟩ := Option.any_eq_true _ _ |>.1 h
  rw [Tree.get?] at hm
  rw [labelable_eq, hm] at hok
  cases m with
  | obj ms =>
    refine ⟨ms, target_eq_some.2 ⟨hm, ?_, hok⟩⟩
    rintro rfl
    cases ht
  | _ =>
    dsimp only at hok
    rw [ht] at hok
    cases hok

theorem labelable_of_not_hasMetadata (h : hasMetadata (.obj fs) = false) : labelable fs = true := by
  rw [hasMetadata, Tree.get?] at h
  rw [labelable_eq]
  cases hm : fs.lookup "metadata" with
  | none => rfl
  | some m =>
    rw [hm, Option.any_some] at h
    cases m with
    | obj ms =>
      obtain rfl : ms = [] := by simpa [Tree.truthy] using h
      rfl
    | _ => simp [h]

theorem labelable_congr (h : fs.lookup "metadata" = gs.lookup "metadata") : labelable fs = labelable gs := by
  rw [labelable_eq, labelable_eq, h]

/-- A label is no metadata that something could be written to. -/
theorem labelable_assign (hkey : key = "metadata" → value = "") (h : labelable fs = true) :
    labelable (assign key (.str value) fs) = true := by
  by_cases hk : key = "metadata"
  · rw [labelable_eq, hk, lookup_assign_self, hkey hk]
    rfl
  · rw [labelable_congr (lookup_assign_ne (Ne.symm hk) _ fs)]
    exact h

theorem getPath?_inserted {t : Tree} {k} (h : ∀ fs, t = .obj fs → k = "metadata" → target fs = none)
    (π : List String) : (inserted key value t).getPath? (k :: π) =
      (t.get? k).bind fun c => (inserted key value c).getPath? π := by
  have hget : (inserted key value t).get? k = (t.get? k).map (inserted key value) := by
    cases t with
    | obj fs =>
      by_cases hk : k = "metadata"
      · have hn : target (Tree.mapValues (setLabel key (.str value)) fs) = none := by
          rw [target_mapValues, h fs rfl hk, Option.map_none]
        rw [inserted, Tree.mapDicts, setLabel_none hn]
        exact Tree.lookup_mapValues _ k fs
      · exact get?_mapDicts_ne key (.str value) _ hk
    | _ => rfl
  rw [Tree.getPath?, hget, Option.bind_map]
  rfl

theorem get?_inserted_metadata (h : target fs = some ms) : ∃ ns, inserted key value (.obj ms) = .obj ns ∧
    (inserted key value (.obj fs)).get? "metadata" = some (.obj (withLabel key (.str value) ns)) := by
  refine ⟨setLabel key (.str value) (Tree.mapValues (setLabel key (.str value)) ms), by rw [inserted, Tree.mapDicts], ?_⟩
  have ht := @target_mapValues key (.str value) fs
  rw [h] at ht
  rw [inserted, Tree.mapDicts, setLabel_some ht, Tree.get?, lookup_assign_self]

theorem getPath?_withLabel (hne : π ≠ []) (hla : π ≠ ["labels"]) (hll : ¬["labels", key] <+: π) :
    (Tree.obj (withLabel key (.str value) ms)).getPath? π = (Tree.obj ms).getPath? π := by
  obtain ⟨k, π, rfl⟩ := exists_cons_of_ne_nil hne
  rw [Tree.getPath?, Tree.getPath?, Tree.get?, Tree.get?, withLabel]
  by_cases hk : k = "labels"
  · subst hk
    obtain ⟨k, π, rfl⟩ := exists_cons_of_ne_nil fun hnil : π = [] => hla (by rw [hnil])
    have hkey : k ≠ key := by
      rintro rfl
      exact hll ⟨π, rfl⟩
    rw [lookup_assign_self, Option.bind_some, Tree.getPath?, Tree.get?, lookup_assign_ne hkey, labelsOf]
    -- below labels that are no dict there is nothing, as in those that are made
    split
    · rename_i ls hls
      rw [hls]
      rfl
    · rename_i hno
      cases hl : ms.lookup "labels" with
      | none => rfl
      | some l =>
        cases l with
        | obj ls => exact absurd hl (hno ls)
        | _ => rfl
  · rw [lookup_assign_ne hk]

/-- Beside the label the metadata is as it is without it. -/
theorem getPath?_inserted_metadata (h : target fs = some ms) (hne : π ≠ []) (hl : π ≠ ["labels"])
    (hla : ¬["labels", key] <+: π) :
    (inserted key value (.obj fs)).getPath? ("metadata" :: π) = (inserted key value (.obj ms)).getPath? π := by
  obtain ⟨ns, hns, hget⟩ := @get?_inserted_metadata key value fs ms h
  rw [Tree.getPath?, hget, Option.bind_some, getPath?_withLabel hne hl hla, hns]

theorem getPath?_inserted_labels (h : target fs = some ms) : ∃ ns, inserted key value (.obj ms) = .obj ns ∧
    (inserted key value (.obj fs)).getPath? ["metadata", "labels"] =
      some (.obj (assign key (.str value) (labelsOf ns))) := by
  obtain ⟨ns, hns, hget⟩ := @get?_inserted_metadata key value fs ms h
  refine ⟨ns, hns, ?_⟩
  rw [Tree.getPath?, hget, Option.bind_some, Tree.getPath?_one, Tree.get?, withLabel, lookup_assign_self]

theorem getPath?_inserted_label (h : target fs = some ms) :
    (inserted key value (.obj fs)).getPath? (labelAt [] key) = some (.str value) := by
  obtain ⟨ns, -, hl⟩ := @getPath?_inserted_labels key value fs ms h
  refine (Tree.getPath?_concat _ ["metadata", "labels"] key).trans ?_
  rw [hl, Option.bind_some, Tree.get?, lookup_assign_self]

theorem shape_inserted (t : Tree) : (inserted key value t).shape = t.shape := by
  cases t with
  | obj fs => rw [inserted, Tree.mapDicts, Tree.shape, Tree.shape]
  | _ => rfl

/-- A dict gets the label, or all of its values are as they are without it. -/
theorem target_or_not (t : Tree) (k : String) : (∃ fs ms, t = .obj fs ∧ k = "metadata" ∧ target fs = some ms) ∨
    ∀ fs, t = .obj fs → k = "metadata" → target fs = none := by
  by_cases h : ∃ fs ms, t = .obj fs ∧ k = "metadata" ∧ target fs = some ms
  · exact .inl h
  · refine .inr fun fs ht hk => Option.eq_none_iff_forall_ne_some.2 fun ms hms => h ⟨fs, ms, ht, hk, hms⟩

/-- Beside what is written nothing changes. By induction on the place. -/
theorem inserted_rest {t : Tree} (h : ¬Touched t [(key, value)] π) :
    ((inserted key value t).getPath? π).map Tree.shape = (t.getPath? π).map Tree.shape := by
  induction π generalizing t with
  | nil => exact congrArg some (shape_inserted t)
  | cons k π ih =>
    rcases target_or_not t k with ⟨fs, ms, rfl, rfl, ht⟩ | hno
    · have hr := labelled_of_target ht
      obtain ⟨hm, -, hok⟩ := target_eq_some.1 ht
      have hb : (Tree.obj fs).getPath? ("metadata" :: π) = (Tree.obj ms).getPath? π := by
        rw [Tree.getPath?, Tree.get?, hm, Option.bind_some]
      by_cases hnil : π = []
      · subst hnil
        obtain ⟨ns, -, hget⟩ := @get?_inserted_metadata key value fs ms ht
        rw [Tree.getPath?_one, hget, hb]
        rfl
      by_cases hla : π = ["labels"]
      · -- these labels were not made, so they are a dict
        subst hla
        obtain ⟨ns, -, hget⟩ := @getPath?_inserted_labels key value fs ms ht
        rw [hget, hb, Tree.getPath?_one, Tree.get?]
        have htr : (ms.lookup "labels").any (·.truthy) = true := by
          by_contra hf
          refine h ⟨[], hr, _, mem_cons_self, .inl ⟨rfl, ?_⟩⟩
          rw [hb, Tree.getPath?_one]
          exact Bool.eq_false_iff.2 hf
        obtain ⟨l, hl, htr⟩ := Option.any_eq_true _ _ |>.1 htr
        rw [labelsOk, hl] at hok
        rw [hl]
        cases l with
        | obj ls => rfl
        | _ =>
          dsimp only at hok
          rw [htr] at hok
          cases hok
      by_cases hll : ["labels", key] <+: π
      · exact absurd ⟨[], hr, _, mem_cons_self, .inr (cons_prefix_cons.2 ⟨rfl, hll⟩)⟩ h
      rw [getPath?_inserted_metadata ht hnil hla hll, hb]
      exact ih fun hto => h (hto.below hm)
    · rw [getPath?_inserted hno, Tree.getPath?]
      cases hc : t.get? k with
      | none => rfl
      | some c => exact ih fun hto => h (hto.below hc)

/-- Every dict that has metadata gets the label. By induction on its place. -/
theorem inserted_set {p t} (h : Insertable t key value) (hp : Labelled t p) :
    (inserted key value t).getPath? (labelAt p key) = some (.str value) := by
  induction p generalizing t with
  | nil =>
    obtain ⟨u, hu, hm⟩ := hp
    cases hu
    cases t with
    | obj fs =>
      obtain ⟨ms, ht⟩ := target_of_labelled hm (h.dicts [] fs ⟨_, rfl, hm⟩ rfl)
      exact getPath?_inserted_label ht
    | _ => cases hm
  | cons k p ih =>
    obtain ⟨c, hc, hp'⟩ := labelled_cons.1 hp
    have hch := ih (h.below hc) hp'
    rcases target_or_not t k with ⟨fs, ms, rfl, rfl, ht⟩ | hno
    · obtain rfl : Tree.obj ms = c := Option.some.inj ((target_eq_some.1 ht).1.symm.trans hc)
      -- the place is not in the label of the root, which is written later
      have hl : ¬["labels", key] <+: labelAt p key := by
        intro hb
        have hb' : labelAt [] key <+: labelAt ("metadata" :: p) key := cons_prefix_cons.2 ⟨rfl, hb⟩
        rcases labelAt_prefix_labelAt.1 hb' with ⟨hnil, -⟩ | hm
        · cases hnil
        · exact h.apart _ _ hp (labelled_of_target ht) hm
      refine (getPath?_inserted_metadata ht ?_ ?_ hl).trans hch
      · simp [labelAt]
      · intro heq
        have := congrArg length heq
        simp [labelAt, labelsAt, metadataAt] at this
    · refine (getPath?_inserted hno _).trans ?_
      rw [hc]
      exact hch

/-- The loop does not raise. By induction on the place where it could. -/
theorem inserted_labelable {t} (h : Insertable t key value) (hπ : (inserted key value t).getPath? π = some (.obj gs)) :
    labelable gs = true := by
  induction π generalizing t gs with
  | nil =>
    cases t with
    | obj fs =>
      obtain rfl : setLabel key (.str value) (Tree.mapValues (setLabel key (.str value)) fs) = gs := by
        simpa [inserted, Tree.mapDicts, Tree.getPath?] using hπ
      rw [local_setLabel.check]
      cases hme : hasMetadata (.obj fs) with
      | true => exact h.dicts [] fs ⟨_, rfl, hme⟩ rfl
      | false => exact labelable_of_not_hasMetadata hme
    | _ => simp [inserted, Tree.mapDicts, Tree.getPath?] at hπ
  | cons k π ih =>
    rcases target_or_not t k with ⟨fs, ms, rfl, rfl, ht⟩ | hno
    · have hr := labelled_of_target ht
      have hm : (Tree.obj fs).get? "metadata" = some (.obj ms) := (target_eq_some.1 ht).1
      have hb : Insertable (.obj ms) key value := h.below hm
      by_cases hnil : π = []
      · subst hnil
        obtain ⟨ns, hns, hget⟩ := @get?_inserted_metadata key value fs ms ht
        rw [Tree.getPath?_one, hget] at hπ
        obtain rfl := Tree.obj.inj (Option.some.inj hπ)
        rw [withLabel, labelable_congr (lookup_assign_ne (by decide) _ ns)]
        exact ih hb (by rw [hns]; rfl)
      by_cases hl : π = ["labels"]
      · subst hl
        obtain ⟨ns, hns, hget⟩ := @getPath?_inserted_labels key value fs ms ht
        rw [hget] at hπ
        obtain rfl := Tree.obj.inj (Option.some.inj hπ)
        refine labelable_assign (h.quiet [] hr) ?_
        unfold labelsOf
        split
        · rename_i ls hls
          refine ih hb ?_
          rw [hns, Tree.getPath?_one]
          exact hls
        · rfl
      by_cases hla : ["labels", key] <+: π
      · have hbe : labelAt [] key <+: "metadata" :: π := cons_prefix_cons.2 ⟨rfl, hla⟩
        cases (Tree.getPath?_leaf (getPath?_inserted_label ht) (nofun) hbe hπ).2
      rw [getPath?_inserted_metadata ht hnil hl hla] at hπ
      exact ih hb hπ
    · rw [getPath?_inserted hno] at hπ
      obtain ⟨c, hc, hre⟩ := Option.bind_eq_some_iff.1 hπ
      exact ih (h.below hc) hre

end Inserted

/-! ## Objects with labels inserted -/

section Inserts
variable {t u w : Tree} {key value : String} {L : List (String × String)} {p : List String}

theorem Inserts.leaf (h : Inserts t L u) (hp : Labelled t p) {kv : String × String} (hkv : kv ∈ L)
    (hb : labelAt p kv.1 <+: π) (hw : u.getPath? π = some w) : π = labelAt p kv.1 ∧ w = .str kv.2 :=
  Tree.getPath?_leaf (h.set p hp kv hkv) nofun hb hw

/-- The labels of a dict that has metadata. -/
theorem Inserts.labels (h : Inserts t L u) (hp : Labelled t p) {kv : String × String} (hkv : kv ∈ L) :
    ∃ ms ls, u.getPath? (metadataAt p) = some (.obj ms) ∧ ms.lookup "labels" = some (.obj ls) ∧
      u.getPath? (labelsAt p) = some (.obj ls) ∧ ls.lookup kv.1 = some (.str kv.2) := by
  obtain ⟨ls, hls, hl⟩ := Tree.exists_obj_of_getPath? (h.set p hp kv hkv)
  obtain ⟨ms, hms, hla⟩ := Tree.exists_obj_of_getPath? hls
  exact ⟨ms, ls, hms, hla, hls, hl⟩

theorem not_touched_metadataAt (ha : ∀ q, Labelled t q → ¬labelAt q key <+: metadataAt p) :
    ¬Touched t [(key, value)] (metadataAt p) := by
  rintro ⟨q, hq, kv, hkv, ⟨heq, -⟩ | hb⟩
  · exact labelsAt_ne_metadataAt q p heq.symm
  · obtain rfl := mem_singleton.1 hkv
    exact ha q hq hb

/-- What the loop needs, if it does what it should. -/
theorem insertable_of_inserts (h : Inserts t [(key, value)] u) (hall : u.allDicts labelable = true) :
    Insertable t key value := by
  have ha (p q : List String) (hp : Labelled t p) (hq : Labelled t q) : ¬labelAt q key <+: metadataAt p := by
    intro hb
    obtain ⟨ms, ls, hms, -⟩ := h.labels hp mem_cons_self
    cases (h.leaf hq mem_cons_self hb hms).2
  refine ⟨fun p fs hp hfs => ?_, ha, fun p hp hkey => ?_⟩
  · obtain ⟨ms, ls, hms, -, hls, -⟩ := h.labels hp mem_cons_self
    -- what lies there afterwards are dicts, and they were there unless they had to be made
    have hme := h.rest _ (not_touched_metadataAt fun q hq => ha p q hp hq)
    rw [hms, metadataAt, Tree.getPath?_concat, hfs, Option.bind_some, Tree.get?] at hme
    obtain ⟨m, hm, hs⟩ := Option.map_eq_some_iff.1 hme.symm
    obtain ⟨ms', rfl⟩ := Tree.shape_eq_obj.1 hs
    rw [labelable_eq, hm]
    dsimp only
    unfold labelsOk
    cases hl : ms'.lookup "labels" with
    | none => rfl
    | some l =>
      have hpl : t.getPath? (labelsAt p) = some l := by
        rw [labelsAt, Tree.getPath?_concat, metadataAt, Tree.getPath?_concat, hfs, Option.bind_some, Tree.get?, hm]
        exact hl
      cases ht : l.truthy with
      | false => cases l <;> simp [ht]
      | true =>
        have hno : ¬Touched t [(key, value)] (labelsAt p) := by
          rintro ⟨q, hq, kv, hkv, ⟨-, hf⟩ | hb⟩
          · rw [hpl, Option.any_some, ht] at hf
            cases hf
          · obtain rfl := mem_singleton.1 hkv
            exact ha p q hp hq (labelAt_prefix_field.1 hb)
        have hr := h.rest _ hno
        rw [hls, hpl] at hr
        obtain ⟨ls', rfl⟩ := Tree.shape_eq_obj.1 (Option.some.inj hr).symm
        rfl
  · obtain ⟨ms, ls, -, -, hls, hla⟩ := h.labels hp mem_cons_self
    have hok := Tree.allDicts_getPath? hall hls
    rw [labelable_eq, ← hkey, hla] at hok
    simpa [Tree.truthy] using hok

/-! ### One label after another -/

/-- It is the same dicts that have metadata. -/
theorem Inserts.labelled_iff (h : Inserts t [(key, value)] u) (hins : Insertable t key value) :
    Labelled u p ↔ Labelled t p := by
  rw [Transpiler.labelled_iff]
  constructor
  · rintro ⟨m, hm, ht⟩
    -- a label at the place of the metadata would be empty
    have hpl (q : List String) (hq : Labelled t q) : ¬labelAt q key <+: metadataAt p := by
      intro hb
      obtain ⟨heq, rfl⟩ := h.leaf hq mem_cons_self hb hm
      have hkey : key = "metadata" := by simpa using (append_inj_right' heq rfl).symm
      rw [hins.quiet q hq hkey] at ht
      cases ht
    have hr := h.rest _ (not_touched_metadataAt hpl)
    rw [hm] at hr
    obtain ⟨m', hm', hs⟩ := Option.map_eq_some_iff.1 hr.symm
    by_cases hobj : m.shape = .obj []
    · obtain ⟨ms, rfl⟩ := Tree.shape_eq_obj.1 hobj
      obtain ⟨kv, ms, rfl⟩ := exists_cons_of_ne_nil (l := ms) (by rintro rfl; cases ht)
      by_contra hnot
      have hno : ¬Touched t [(key, value)] (metadataAt p ++ [kv.1]) := by
        rintro ⟨q, hq, kv', hkv', ⟨heq, -⟩ | hb⟩
        · have hme : metadataAt p = metadataAt q := append_inj_left' heq rfl
          obtain rfl : p = q := append_inj_left' hme rfl
          exact hnot hq
        · obtain rfl := mem_singleton.1 hkv'
          exact hpl q hq (labelAt_prefix_field.1 hb)
      have hf := h.rest _ hno
      rw [Tree.getPath?_concat, hm, Option.bind_some, Tree.get?, lookup_cons_if, if_pos rfl] at hf
      obtain ⟨c, hc, -⟩ := Option.map_eq_some_iff.1 hf.symm
      rw [Tree.getPath?_concat, hm'] at hc
      exact hnot (Transpiler.labelled_iff.2 ⟨m', hm', Tree.truthy_of_get? hc⟩)
    · obtain rfl := Tree.eq_of_shape hs hobj
      exact Transpiler.labelled_iff.2 ⟨_, hm', ht⟩
  · intro hp
    obtain ⟨ms, ls, hms, hl, -⟩ := h.labels hp mem_cons_self
    exact ⟨_, hms, Tree.truthy_of_get? (t := .obj ms) hl⟩

/-- Another label can be inserted then too. -/
theorem Insertable.after {key' value'} (hins' : Insertable t key' value') (hins : Insertable t key value)
    (h : Inserts t [(key, value)] u) (hall : u.allDicts labelable = true) : Insertable u key' value' where
  dicts := fun _ _ _ hfs => Tree.allDicts_getPath? hall hfs
  apart := fun p q hp hq => hins'.apart p q ((h.labelled_iff hins).1 hp) ((h.labelled_iff hins).1 hq)
  quiet := fun p hp => hins'.quiet p ((h.labelled_iff hins).1 hp)

theorem Inserts.cons (h : Inserts t [(key, value)] u) (hins : Insertable t key value)
    (hL : ∀ kv ∈ L, Insertable t kv.1 kv.2) (hkey : key ∉ L.map Prod.fst) (hw : Inserts u L w) :
    Inserts t ((key, value) :: L) w := by
  have hla {p : List String} : Labelled u p ↔ Labelled t p := h.labelled_iff hins
  constructor
  · intro p hp kv hkv
    rcases mem_cons.1 hkv with rfl | hkv
    · -- no other label is written there
      have hno : ¬Touched u L (labelAt p key) := by
        rintro ⟨q, hq, kv', hkv', ⟨heq, -⟩ | hb⟩
        · exact labelsAt_ne_metadataAt p q (append_inj_left' heq rfl)
        · rcases labelAt_prefix_labelAt.1 hb with ⟨-, rfl⟩ | hm
          · exact hkey (mem_map_of_mem hkv')
          · exact (hL kv' hkv').apart p q hp (hla.1 hq) hm
      have hr := hw.rest _ hno
      rw [h.set p hp _ mem_cons_self] at hr
      obtain ⟨l, hl, hs⟩ := Option.map_eq_some_iff.1 hr
      rw [hl, Tree.eq_of_shape hs nofun]
    · exact hw.set p (hla.2 hp) kv hkv
  · intro π hπ
    have hno : ¬Touched u L π := by
      rintro ⟨q, hq, kv, hkv, ⟨rfl, hf⟩ | hb⟩
      · -- the labels are there since the first label
        obtain ⟨ms, ls, -, -, hls, hll⟩ := h.labels (hla.1 hq) mem_cons_self
        rw [hls, Option.any_some, Tree.truthy_of_get? (t := .obj ls) hll] at hf
        cases hf
      · exact hπ ⟨q, hla.1 hq, kv, mem_cons_of_mem _ hkv, .inr hb⟩
    rw [hw.rest π hno]
    refine h.rest π ?_
    rintro ⟨q, hq, kv, hkv, hc⟩
    obtain rfl := mem_singleton.1 hkv
    exact hπ ⟨q, hq, _, mem_cons_self, hc⟩

theorem inserts_nil (t : Tree) : Inserts t [] t := ⟨nofun, fun _ _ => rfl⟩

/-- What should be written is known: two trees with the same labels show the same. -/
theorem Inserts.same {L' : List (String × String)} {u'} (h : Inserts t L u) (h' : Inserts t L' u')
    (hpe : L'.Perm L) : Tree.Same u u' := by
  intro π
  by_cases hπ : Touched t L π
  · obtain ⟨p, hp, kv, hkv, ⟨rfl, -⟩ | hb⟩ := hπ
    · obtain ⟨-, ls, -, -, hls, -⟩ := h.labels hp hkv
      obtain ⟨-, ls', -, -, hls', -⟩ := h'.labels hp (hpe.mem_iff.2 hkv)
      rw [hls, hls']
      rfl
    · obtain ⟨ρ, rfl⟩ := hb
      rw [Tree.getPath?_append, Tree.getPath?_append, h.set p hp kv hkv, h'.set p hp kv (hpe.mem_iff.2 hkv)]
  · have hπ' : ¬Touched t L' π := by
      rintro ⟨p, hp, kv, hkv, hc⟩
      exact hπ ⟨p, hp, kv, hpe.mem_iff.1 hkv, hc⟩
    rw [h.rest π hπ, h'.rest π hπ']

end Inserts

/-! ## The result -/

theorem inserts_one {t : Tree} (ht : t.Distinct) {key value} (h : Insertable t key value) :
    ∃ u, addLabelTo key (.str value) t = .ok u ∧ u.allDicts labelable = true ∧ u.Distinct ∧
      Inserts t [(key, value)] u := by
  have hd : (inserted key value t).Distinct := distinct_inserted ht
  have hall : (inserted key value t).allDicts labelable = true :=
    Tree.allDicts_of_getPath? hd fun _ _ hπ => inserted_labelable h hπ
  refine ⟨_, addLabelTo_inserted.2 ⟨rfl, hall⟩, hall, hd, ?_, fun _ => inserted_rest⟩
  intro p hp kv hkv
  obtain rfl := mem_singleton.1 hkv
  exact inserted_set h hp

/-- All of the labels, by induction on them. -/
theorem inserts_all {L : List (String × String)} (hk : (L.map Prod.fst).Nodup) {t : Tree} (ht : t.Distinct)
    (h : ∀ kv ∈ L, Insertable t kv.1 kv.2) : ∃ u, Returns L t (.ok u) ∧ u.Distinct ∧ Inserts t L u := by
  induction L generalizing t with
  | nil => exact ⟨t, returns_nil, ht, inserts_nil t⟩
  | cons kv L ih =>
    rw [forall_mem_cons] at h
    rw [map_cons, nodup_cons] at hk
    obtain ⟨u, hu, hall, hd, hone⟩ := inserts_one ht h.1
    obtain ⟨w, hw, hd', hr⟩ := ih hk.2 hd fun kv hkv => (h.2 kv hkv).after h.1 hone hall
    exact ⟨w, .cons ht hu hw, hd', hone.cons h.1 h.2 hk.1 hr⟩

/-- `_add_label` returns, has set the label at every dict that has metadata and has changed nothing
else, and labels with distinct keys can be added in any order, if and only if they can be inserted. -/
theorem label_insertion_iff {t : Tree} (ht : t.Distinct) {L : List (String × String)} (hkeys : (L.map Prod.fst).Nodup) :
    ((∀ kv ∈ L, ∃ u, Returns [kv] t (.ok u) ∧ Inserts t [kv] u) ∧
      ∀ L', L'.Perm L → ∃ u u', Returns L t (.ok u) ∧ Inserts t L u ∧ Returns L' t (.ok u') ∧ u.pyEq u' = true) ↔
      ∀ kv ∈ L, Insertable t kv.1 kv.2 := by
  constructor
  · rintro ⟨hone, -⟩ kv hkv
    obtain ⟨u, hu, hi⟩ := hone kv hkv
    obtain ⟨rfl, hall⟩ := addLabelTo_inserted.1 ((returns_one ht).unique hu)
    exact insertable_of_inserts hi hall
  · intro h
    refine ⟨fun kv hkv => ?_, fun L' hp => ?_⟩
    · obtain ⟨u, hu, -, -, hi⟩ := inserts_one ht (h kv hkv)
      exact ⟨u, hu ▸ returns_one ht, hi⟩
    · obtain ⟨u, hu, hd, hi⟩ := inserts_all hkeys ht h
      obtain ⟨u', hu', hd', hi'⟩ :=
        inserts_all ((hp.map Prod.fst).nodup_iff.2 hkeys) ht fun kv hkv => h kv (hp.mem_iff.1 hkv)
      exact ⟨u, u', hu, hi, hu', Tree.pyEq_of_same hd hd' (hi.same hi' hp)⟩

mutual
def labelledPlaces : Tree → List (List String)
  | .obj fs => (if hasMetadata (.obj fs) then [[]] else []) ++ labelledBelow fs
  | _ => []

def labelledBelow : List (String × Tree) → List (List String)
  | [] => []
  | (k, t) :: fs => (labelledPlaces t).map (k :: ·) ++ labelledBelow fs
end

theorem mem_labelledBelow {fs k t p} (h : (k, t) ∈ fs)
    (hp : p ∈ labelledPlaces t) : k :: p ∈ labelledBelow fs := by
  induction fs with
  | nil => cases h
  | cons kv fs ih =>
    rw [labelledBelow, mem_append]
    rcases mem_cons.1 h with rfl | h
    · exact .inl (mem_map_of_mem hp)
    · exact .inr (ih h)

theorem mem_labelledPlaces {t p} (h : Labelled t p) : p ∈ labelledPlaces t := by
  induction p generalizing t with
  | nil =>
    obtain ⟨u, hu, hm⟩ := h
    cases hu
    cases t with
    | obj fs =>
      rw [labelledPlaces, if_pos hm]
      exact mem_cons_self
    | _ => cases hm
  | cons k p ih =>
    obtain ⟨c, hc, hp⟩ := labelled_cons.1 h
    cases t with
    | obj fs =>
      rw [labelledPlaces, mem_append]
      exact .inr (mem_labelledBelow (mem_of_lookup hc) (ih hp))
    | _ => cases hc

def labelledJob : Tree :=
  .obj [("kind", .str "Job"), ("metadata", .obj [("name", .str "b")]),
    ("spec", .obj [("template", .obj [("metadata", .obj [("labels", .obj [("app", .str "b")])])])])]

theorem distinct_labelledJob : labelledJob.Distinct := by
  simp [labelledJob, Tree.Distinct, Tree.DistinctFields]

theorem labelled_labelledJob {p} (h : Labelled labelledJob p) : p = [] ∨ p = ["spec", "template"] := by
  have hmem : p ∈ [[], ["spec", "template"]] := mem_labelledPlaces h
  simpa using hmem

theorem insertable_labelledJob {key value} (hkey : key ≠ "metadata") : Insertable labelledJob key value where
  dicts := by
    intro p fs hp hfs
    rcases labelled_labelledJob hp with rfl | rfl
    · obtain rfl := Tree.obj.inj (Option.some.inj hfs)
      rfl
    · obtain rfl := Tree.obj.inj (Option.some.inj hfs)
      rfl
  apart := by
    intro p q hp hq hb
    rcases labelAt_prefix_metadataAt.1 hb with ⟨-, rfl⟩ | hb
    · exact hkey rfl
    · have hl := hb.length_le
      rcases labelled_labelledJob hp with rfl | rfl <;> simp [labelAt, labelsAt, metadataAt] at hl
  quiet := fun _ _ heq => absurd heq hkey

theorem label_insertion_job :
    (∀ kv ∈ [("user", "a"), ("app", "")], ∃ u, Returns [kv] labelledJob (.ok u) ∧ Inserts labelledJob [kv] u) ∧
      ∃ u u', Returns [("user", "a"), ("app", "")] labelledJob (.ok u) ∧
        Inserts labelledJob [("user", "a"), ("app", "")] u ∧
        Returns [("app", ""), ("user", "a")] labelledJob (.ok u') ∧ u.pyEq u' = true := by
  have h := (label_insertion_iff (L := [("user", "a"), ("app", "")]) distinct_labelledJob (by decide)).2 fun kv hkv =>
    insertable_labelledJob (by simp at hkv; rcases hkv with rfl | rfl <;> decide)
  exact ⟨h.1, h.2 _ (Perm.swap _ _ _)⟩

/-- The name of the label is accepted, and the labels look like a dict with metadata then. -/
theorem label_metadata_raises : checkLabel "metadata" "b" = .ok () ∧ labelledJob.Distinct ∧
    Returns [("metadata", "b")] labelledJob (.error .builtin) ∧
    ¬∃ u, Returns [("metadata", "b")] labelledJob (.ok u) := by
  have hr : Returns [("metadata", "b")] labelledJob (.error .builtin) := returns_one distinct_labelledJob
  refine ⟨rfl, distinct_labelledJob, hr, ?_⟩
  rintro ⟨u, hu⟩
  cases hr.unique hu

end BenchmarkAi.Transpiler
