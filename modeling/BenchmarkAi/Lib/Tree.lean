import Mathlib.Data.List.Basic
/-!
# Trees of a document

What a YAML or JSON document holds: scalars, lists, and dicts with their keys in
order of insertion. A dict is a list of fields; `assign` is Python's `d[k] = v`,
which keeps the place of a key that is there, and `set` writes below a path.
-/

open List

namespace Lib

theorem mem_of_lookup {α β : Type} [BEq α] [LawfulBEq α] {a : α} {b : β} {ps : List (α × β)} (h : ps.lookup a = some b) :
    (a, b) ∈ ps := by
  obtain ⟨before, after, hs, -⟩ := lookup_eq_some_iff.1 h
  rw [hs]
  exact mem_append_right _ mem_cons_self

/-! ## Dicts -/

section Dict
variable {β : Type}

def assign (k : String) (v : β) : List (String × β) → List (String × β)
  | [] => [(k, v)]
  | (k', v') :: fs => if k' = k then (k, v) :: fs else (k', v') :: assign k v fs

theorem lookup_cons_if (k k' : String) (v : β) (fs : List (String × β)) :
    ((k', v) :: fs).lookup k = if k = k' then some v else fs.lookup k := by
  rw [lookup_cons]
  split <;> simp_all

theorem lookup_assign_self (k : String) (v : β) (fs : List (String × β)) : (assign k v fs).lookup k = some v := by
  induction fs with
  | nil => simp [assign]
  | cons f fs ih =>
    rw [assign]
    split
    · rw [lookup_cons_if, if_pos rfl]
    · rename_i h
      rw [lookup_cons_if, if_neg (Ne.symm h), ih]

theorem lookup_assign_ne {k k'} (h : k' ≠ k) (v : β) (fs : List (String × β)) :
    (assign k v fs).lookup k' = fs.lookup k' := by
  induction fs with
  | nil => rw [assign, lookup_cons_if, if_neg h]
  | cons f fs ih =>
    rw [assign, lookup_cons_if]
    split
    · rename_i hf
      rw [lookup_cons_if, if_neg h, if_neg (hf ▸ h)]
    · rw [lookup_cons_if, ih]

theorem assign_ne_nil (k : String) (v : β) (fs : List (String × β)) : assign k v fs ≠ [] := by
  cases fs with
  | nil => simp [assign]
  | cons f fs =>
    rw [assign]
    split <;> simp

theorem mem_keys_assign {k k'} {v : β} {fs : List (String × β)} :
    k' ∈ (assign k v fs).map Prod.fst ↔ k' = k ∨ k' ∈ fs.map Prod.fst := by
  induction fs with
  | nil => simp [assign]
  | cons f fs ih =>
    rw [assign]
    split
    · rename_i h
      simp [h]
    · rw [map_cons, mem_cons, ih, map_cons, mem_cons]
      exact or_left_comm

theorem nodup_keys_assign {fs : List (String × β)} (h : (fs.map Prod.fst).Nodup) (k : String) (v : β) :
    ((assign k v fs).map Prod.fst).Nodup := by
  induction fs with
  | nil => exact nodup_cons.2 ⟨not_mem_nil, nodup_nil⟩
  | cons f fs ih =>
    rw [map_cons, nodup_cons] at h
    rw [assign]
    split
    · rename_i hk
      exact nodup_cons.2 ⟨hk ▸ h.1, h.2⟩
    · rename_i hk
      refine nodup_cons.2 ⟨fun hmem => ?_, ih h.2⟩
      rcases mem_keys_assign.1 hmem with heq | hmem
      · exact hk heq
      · exact h.1 hmem

theorem lookup_map_values {γ : Type} (f : β → γ) (k : String) (fs : List (String × β)) :
    (fs.map fun kv => (kv.1, f kv.2)).lookup k = (fs.lookup k).map f := by
  induction fs with
  | nil => rfl
  | cons kv fs ih =>
    rw [map_cons, lookup_cons_if, lookup_cons_if, ih]
    split <;> rfl

theorem assign_map_values {γ : Type} (f : β → γ) (k : String) (v : β) (fs : List (String × β)) :
    assign k (f v) (fs.map fun kv => (kv.1, f kv.2)) = (assign k v fs).map fun kv => (kv.1, f kv.2) := by
  induction fs with
  | nil => rfl
  | cons kv fs ih =>
    rw [map_cons, assign, assign, ih]
    split <;> rfl

theorem assign_new {k} {v : β} {fs : List (String × β)} (h : k ∉ fs.map Prod.fst) : assign k v fs = fs ++ [(k, v)] := by
  induction fs with
  | nil => rfl
  | cons f fs ih =>
    rw [map_cons, mem_cons, not_or] at h
    rw [assign, if_neg (Ne.symm h.1), ih h.2]
    rfl

theorem lookup_eq_none {k} {fs : List (String × β)} : fs.lookup k = none ↔ k ∉ fs.map Prod.fst := by
  rw [lookup_eq_none_iff, mem_map]
  constructor
  · rintro h ⟨kv, hkv, rfl⟩
    exact absurd (h kv hkv) (by simp)
  · exact fun h kv hkv => bne_iff_ne.2 fun heq => h ⟨kv, hkv, heq.symm⟩

theorem assign_assign_self (k : String) (v w : β) (fs : List (String × β)) :
    assign k v (assign k w fs) = assign k v fs := by
  induction fs with
  | nil => simp [assign]
  | cons kv fs ih =>
    rw [assign, assign]
    split
    · rw [assign, if_pos rfl]
    · rename_i h
      rw [assign, if_neg h, ih]

theorem assign_of_lookup {k} {v : β} {fs : List (String × β)} (h : fs.lookup k = some v) : assign k v fs = fs := by
  induction fs with
  | nil => cases h
  | cons kv fs ih =>
    rw [lookup_cons_if] at h
    rw [assign]
    split
    · rename_i hk
      rw [if_pos hk.symm] at h
      rw [← hk, ← Option.some.inj h]
    · rename_i hk
      rw [if_neg (Ne.symm hk)] at h
      rw [ih h]

theorem assign_comm {k k'} (h : k ≠ k') (v w : β) {fs : List (String × β)} (hk : k' ∈ fs.map Prod.fst) :
    assign k v (assign k' w fs) = assign k' w (assign k v fs) := by
  induction fs with
  | nil => cases hk
  | cons kv fs ih =>
    obtain ⟨l, u⟩ := kv
    rw [assign, assign]
    by_cases hl' : l = k'
    · subst hl'
      rw [if_pos rfl, if_neg (Ne.symm h), assign, if_neg (Ne.symm h), assign, if_pos rfl]
    · have hmem : k' ∈ fs.map Prod.fst := (mem_cons.1 hk).resolve_left (Ne.symm hl')
      rw [if_neg hl']
      by_cases hl : l = k
      · subst hl
        rw [if_pos rfl, assign, if_pos rfl, assign, if_neg h]
      · rw [if_neg hl, assign, if_neg hl, assign, if_neg hl', ih hmem]

theorem lookup_filter_keys (p : String → Bool) (k : String) (fs : List (String × β)) :
    (fs.filter fun kv => p kv.1).lookup k = if p k then fs.lookup k else none := by
  induction fs with
  | nil => simp
  | cons kv fs ih =>
    rw [filter_cons, lookup_cons_if]
    by_cases hk : k = kv.1
    · subst hk
      split
      · rw [lookup_cons_if, if_pos rfl, if_pos rfl]
      · rename_i h
        rw [ih, if_neg h]
    · split
      · rw [lookup_cons_if, if_neg hk, ih]
      · exact ih

def remove (k : String) (fs : List (String × β)) : List (String × β) := fs.filter (·.1 ≠ k)

theorem lookup_remove_self (k : String) (fs : List (String × β)) : (remove k fs).lookup k = none := by
  rw [remove, lookup_filter_keys (· ≠ k), if_neg (by simp)]

theorem lookup_remove_ne {k k'} (h : k' ≠ k) (fs : List (String × β)) : (remove k fs).lookup k' = fs.lookup k' := by
  rw [remove, lookup_filter_keys (· ≠ k), if_pos (decide_eq_true h)]

structure Dict (β : Type) where
  entries : List (String × β)
  nodup : (entries.map Prod.fst).Nodup

def Dict.empty : Dict β := ⟨[], nodup_nil⟩

def Dict.ofFields (fs : List (String × β)) : Dict β :=
  fs.foldl (fun d kv => ⟨assign kv.1 kv.2 d.entries, nodup_keys_assign d.nodup kv.1 kv.2⟩) .empty

def Dict.get? (d : Dict β) (k : String) : Option β := d.entries.lookup k

def Dict.set (d : Dict β) (k : String) (v : β) : Dict β := ⟨assign k v d.entries, nodup_keys_assign d.nodup k v⟩

def Dict.mapValues {γ : Type} (f : β → γ) (d : Dict β) : Dict γ :=
  ⟨d.entries.map fun kv => (kv.1, f kv.2), by rw [map_map]; exact d.nodup⟩

def Dict.values (d : Dict β) : List β := d.entries.map Prod.snd

theorem Dict.entries_ofFields {fs : List (String × β)} (h : (fs.map Prod.fst).Nodup) : (Dict.ofFields fs).entries = fs := by
  have hf (d : Dict β) (hd : ((d.entries ++ fs).map Prod.fst).Nodup) :
      (fs.foldl (fun d kv => (⟨assign kv.1 kv.2 d.entries, nodup_keys_assign d.nodup kv.1 kv.2⟩ : Dict β)) d).entries =
        d.entries ++ fs := by
    clear h
    induction fs generalizing d with
    | nil => exact (append_nil _).symm
    | cons f fs ih =>
      have hnew : f.1 ∉ d.entries.map Prod.fst := by
        rw [map_append, nodup_append] at hd
        exact fun hk => hd.2.2 f.1 hk f.1 mem_cons_self rfl
      have ha : assign f.1 f.2 d.entries = d.entries ++ [f] := assign_new hnew
      rw [foldl_cons, ih]
      · dsimp only
        rw [ha, append_assoc]
        rfl
      · dsimp only
        rwa [ha, append_assoc]
  exact hf .empty h

theorem mem_entries_iff_lookup {fs : List (String × β)} (h : (fs.map Prod.fst).Nodup) {k} {v : β} :
    (k, v) ∈ fs ↔ fs.lookup k = some v := by
  refine ⟨fun hmem => ?_, mem_of_lookup⟩
  induction fs with
  | nil => cases hmem
  | cons f fs ih =>
    rw [map_cons, nodup_cons] at h
    rw [lookup_cons_if]
    rcases mem_cons.1 hmem with rfl | hmem
    · exact if_pos rfl
    · rw [if_neg, ih h.2 hmem]
      rintro rfl
      exact h.1 (mem_map.2 ⟨_, hmem, rfl⟩)

theorem Dict.mem_values_iff (d : Dict β) {v : β} : v ∈ d.values ↔ ∃ k, d.get? k = some v := by
  rw [Dict.values, mem_map]
  constructor
  · rintro ⟨⟨k, w⟩, hmem, rfl⟩
    exact ⟨k, (mem_entries_iff_lookup d.nodup).1 hmem⟩
  · rintro ⟨k, hk⟩
    exact ⟨(k, v), mem_of_lookup hk, rfl⟩

end Dict

inductive Tree
  | null
  | bool (b : Bool)
  | num (n : Int)
  | str (s : String)
  | arr (items : List Tree)
  | obj (fields : List (String × Tree))
deriving Repr

namespace Tree

def get? (t : Tree) (k : String) : Option Tree :=
  match t with
  | obj fs => fs.lookup k
  | _ => none

def put (t : Tree) (k : String) (v : Tree) : Tree :=
  match t with
  | obj fs => obj (assign k v fs)
  | t => t

def erase (t : Tree) (k : String) : Tree :=
  match t with
  | obj fs => obj (fs.filter (·.1 ≠ k))
  | t => t

/-- Writes below the path `ks`; a dict that is missing on the way is made. -/
def set (t : Tree) (ks : List String) (v : Tree) : Tree :=
  match ks with
  | [] => v
  | k :: ks => t.put k (set ((t.get? k).getD (obj [])) ks v)

def getPath? (t : Tree) : List String → Option Tree
  | [] => some t
  | k :: ks => (t.get? k).bind (·.getPath? ks)

def truthy : Tree → Bool
  | null => false
  | bool b => b
  | num n => n != 0
  | str s => s != ""
  | arr ts => !ts.isEmpty
  | obj fs => !fs.isEmpty

def asString : Tree → Option String
  | str s => some s
  | _ => none

/-! ## Python's `==`

The fields of a dict have no order here, and a truth value equals the number it
stands for.
-/

mutual
def pyEq : Tree → Tree → Bool
  | null, null => true
  | bool b, bool c => b == c
  | bool b, num n => n == b.toInt
  | num n, bool b => n == b.toInt
  | num n, num m => n == m
  | str s, str t => s == t
  | arr ts, arr us => pyEqItems ts us
  | obj fs, obj gs => fs.length == gs.length && pyEqFields fs gs
  | _, _ => false

def pyEqItems : List Tree → List Tree → Bool
  | [], [] => true
  | t :: ts, u :: us => pyEq t u && pyEqItems ts us
  | _, _ => false

def pyEqFields : List (String × Tree) → List (String × Tree) → Bool
  | [], _ => true
  | (k, t) :: fs, gs =>
    (match gs.lookup k with
      | some u => pyEq t u
      | none => false) && pyEqFields fs gs
end

/-! ## Dicts inside dicts

A list is not looked into.
-/

mutual
/-- Changes every dict that is reached through values of dicts, the inner ones first. -/
def mapDicts (f : List (String × Tree) → List (String × Tree)) : Tree → Tree
  | obj fs => obj (f (mapValues f fs))
  | t => t

def mapValues (f : List (String × Tree) → List (String × Tree)) : List (String × Tree) → List (String × Tree)
  | [] => []
  | (k, t) :: fs => (k, mapDicts f t) :: mapValues f fs
end

mutual
def allDicts (p : List (String × Tree) → Bool) : Tree → Bool
  | obj fs => p fs && allValues p fs
  | _ => true

def allValues (p : List (String × Tree) → Bool) : List (String × Tree) → Bool
  | [] => true
  | (_, t) :: fs => allDicts p t && allValues p fs
end

/-! ## Reading back -/

@[simp] theorem get?_put_ne {k k'} (h : k' ≠ k) (t v : Tree) : (t.put k v).get? k' = t.get? k' := by
  cases t with
  | obj fs => exact lookup_assign_ne h v fs
  | _ => rfl

theorem get?_set_ne {k k'} (h : k' ≠ k) (t : Tree) (ks : List String) (v : Tree) :
    (t.set (k :: ks) v).get? k' = t.get? k' := get?_put_ne h t _

theorem get?_put_self {t u : Tree} {k k'} (h : t.get? k' = some u) (v : Tree) : (t.put k v).get? k = some v := by
  cases t with
  | obj fs => exact lookup_assign_self k v fs
  | _ => cases h

theorem get?_erase_ne {k k'} (h : k' ≠ k) (t : Tree) : (t.erase k).get? k' = t.get? k' := by
  cases t with
  | obj fs => exact lookup_remove_ne h fs
  | _ => rfl

theorem truthy_of_get? {t u : Tree} {k} (h : t.get? k = some u) : t.truthy = true := by
  cases t with
  | obj fs =>
    cases fs with
    | nil => cases h
    | cons f fs => rfl
  | _ => cases h

theorem getPath?_set_self {ks} {t u : Tree} (h : t.getPath? ks = some u) (v : Tree) :
    (t.set ks v).getPath? ks = some v := by
  induction ks generalizing t with
  | nil => rfl
  | cons k ks ih =>
    obtain ⟨w, hw, hu⟩ := Option.bind_eq_some_iff.1 h
    rw [set, hw, getPath?, get?_put_self hw]
    exact ih hu

theorem getPath?_set_ne {k k'} (h : k' ≠ k) (ks ls ls' : List String) (t v : Tree) :
    (t.set (ks ++ k :: ls) v).getPath? (ks ++ k' :: ls') = t.getPath? (ks ++ k' :: ls') := by
  induction ks generalizing t with
  | nil => rw [nil_append, nil_append, getPath?, getPath?, get?_set_ne h]
  | cons a ks ih =>
    rw [cons_append, cons_append, set, getPath?, getPath?]
    cases ha : t.get? a with
    | some w => rw [get?_put_self ha, Option.bind_some, Option.bind_some, Option.getD_some, ih]
    | none =>
      cases t with
      | obj fs =>
        -- the dict that is made on the way has nothing else in it
        rw [put, get?, lookup_assign_self, Option.bind_some, Option.getD_none, ih]
        cases ks <;> rfl
      | _ => rfl

theorem lookup_mapValues (f : List (String × Tree) → List (String × Tree)) (k : String) (fs : List (String × Tree)) :
    (mapValues f fs).lookup k = (fs.lookup k).map (mapDicts f) := by
  induction fs with
  | nil => simp [mapValues]
  | cons e fs ih =>
    rw [mapValues, lookup_cons_if, lookup_cons_if, ih]
    split <;> rfl

end Tree

end Lib
