import BenchmarkAi.Lib.Environ
import BenchmarkAi.Lib.Except
import BenchmarkAi.Transpiler.Spec
import Mathlib.Data.List.Nodup
/-!
# Merging the environment of a container

`add_env_vars` rebuilds the list `env` of a container from a dict of names and values. What an entry
holds besides its name and its value is lost. `env_merge_iff` says which lists come out of any number
of calls as they should.
-/

open Lib List

namespace BenchmarkAi.Transpiler

/-! ## The variables of a container -/

inductive Holding
  | value (v : Tree)
  | valueFrom (source : Tree)

structure EnvVar where
  name : String
  holds : Holding

def EnvVar.tree : EnvVar → Tree
  | ⟨name, .value v⟩ => .obj [("name", .str name), ("value", v)]
  | ⟨name, .valueFrom source⟩ => .obj [("name", .str name), ("valueFrom", source)]

def EnvVar.read : EnvVar → Tree
  | ⟨_, .value v⟩ => v
  | ⟨_, .valueFrom _⟩ => .obj []

def EnvVar.ofText (kv : String × String) : EnvVar := ⟨kv.1, .value (.str kv.2)⟩

def addEnvVarsTo (env : Dict Tree) (c : Tree) : Py Tree := if env.entries = [] then return c else mergeVars env.entries c

def addAllEnvVars (calls : List (Dict Tree)) (c : Tree) : Py Tree := calls.foldlM (fun c env => addEnvVarsTo env c) c

/-! ## What should come of it -/

def lastGiven (calls : List (Dict Tree)) (name : String) : Option Tree := calls.reverse.findSome? (·.get? name)

/-- The names, once each, in the order in which they occur first. -/
structure FirstOccurrences (occurring names : List String) : Prop where
  mem : ∀ name, name ∈ names ↔ name ∈ occurring
  ordered : names.Pairwise fun name other => occurring.idxOf name < occurring.idxOf other

structure Merged (vars : List EnvVar) (calls : List (Dict Tree)) (result : List EnvVar) : Prop where
  distinct : (result.map (·.name)).Nodup
  given : ∀ name v, lastGiven calls name = some v → .ofText (name, pyStr v) ∈ result
  kept : ∀ var ∈ vars, lastGiven calls var.name = none → var ∈ result
  order : FirstOccurrences (vars.map (·.name) ++ calls.flatMap (·.entries.map Prod.fst)) (result.map (·.name))

/-! ## Names in order -/

theorem keys_assign_of_mem {β : Type} {k} {fs : List (String × β)} (h : k ∈ fs.map Prod.fst) (v : β) :
    (assign k v fs).map Prod.fst = fs.map Prod.fst := by
  induction fs with
  | nil => cases h
  | cons f fs ih =>
    rw [assign]
    split
    · rename_i hk
      rw [map_cons, map_cons, hk]
    · rename_i hk
      rw [map_cons, map_cons, ih ((mem_cons.1 h).resolve_left (Ne.symm hk))]

theorem FirstOccurrences.set {β : Type} {d : Dict β} {occurring}
    (h : FirstOccurrences occurring (d.entries.map Prod.fst)) (k : String) (v : β) :
    FirstOccurrences (occurring ++ [k]) ((d.set k v).entries.map Prod.fst) := by
  have hold : (d.entries.map Prod.fst).Pairwise fun name other =>
      (occurring ++ [k]).idxOf name < (occurring ++ [k]).idxOf other := by
    refine h.ordered.imp_of_mem fun hn ho hlt => ?_
    rwa [idxOf_append_of_mem ((h.mem _).1 hn), idxOf_append_of_mem ((h.mem _).1 ho)]
  change FirstOccurrences _ ((assign k v d.entries).map Prod.fst)
  by_cases hk : k ∈ d.entries.map Prod.fst
  · rw [keys_assign_of_mem hk]
    refine ⟨fun name => ?_, hold⟩
    rw [h.mem, mem_append, mem_singleton]
    exact ⟨.inl, fun hn => hn.elim id fun heq => heq ▸ (h.mem k).1 hk⟩
  · rw [assign_new hk, map_append]
    refine ⟨fun name => ?_, pairwise_append.2 ⟨hold, pairwise_singleton _ _, fun name hn other ho => ?_⟩⟩
    · rw [mem_append, mem_append, h.mem]
      rfl
    · obtain rfl := mem_singleton.1 ho
      rw [idxOf_append_of_mem ((h.mem _).1 hn), idxOf_append_of_notMem fun hmem => hk ((h.mem _).2 hmem)]
      exact Nat.lt_of_lt_of_le (idxOf_lt_length_of_mem ((h.mem _).1 hn)) (Nat.le_add_right _ _)

theorem firstOccurrences_ofFields {β : Type} (fs : List (String × β)) :
    FirstOccurrences (fs.map Prod.fst) ((Dict.ofFields fs).entries.map Prod.fst) := by
  have hf (d : Dict β) (occurring : List String) (h : FirstOccurrences occurring (d.entries.map Prod.fst)) :
      FirstOccurrences (occurring ++ fs.map Prod.fst) ((d.update fs).entries.map Prod.fst) := by
    induction fs generalizing d occurring with
    | nil => rwa [map_nil, append_nil]
    | cons f fs ih =>
      rw [map_cons, append_cons]
      exact ih (d.set f.1 f.2) _ (h.set f.1 f.2)
  exact hf .empty [] ⟨fun _ => Iff.rfl, .nil⟩

theorem FirstOccurrences.nodup {occurring names : List String} (h : FirstOccurrences occurring names) : names.Nodup :=
  h.ordered.imp fun hlt heq => absurd (heq ▸ hlt) (Nat.lt_irrefl _)

/-! ## One call -/

theorem Dict.mapValues_update {β γ : Type} (f : β → γ) (d : Dict β) (fs : List (String × β)) :
    (d.update fs).mapValues f = (d.mapValues f).update (fs.map fun kv => (kv.1, f kv.2)) := by
  induction fs generalizing d with
  | nil => rfl
  | cons kv fs ih =>
    have hset : (d.set kv.1 kv.2).mapValues f = (d.mapValues f).set kv.1 (f kv.2) := by
      simp only [Dict.mapValues, Dict.set, assign_map_values]
    exact (ih (d.set kv.1 kv.2)).trans (by rw [hset]; rfl)

def keyed (kv : String × Tree) : Tree × Tree := (.str kv.1, kv.2)

theorem assignKey_keyed (k : String) (v : Tree) (fs : List (String × Tree)) :
    assignKey (.str k) v (fs.map keyed) = .ok ((assign k v fs).map keyed) := by
  induction fs with
  | nil => rfl
  | cons f fs ih =>
    obtain ⟨k', v'⟩ := f
    change assignKey (.str k) v ((.str k', v') :: fs.map keyed) = _
    rw [assignKey, ih, assign]
    by_cases hk : k' = k
    · rw [if_pos (by simp [Tree.pyEq, hk]), if_pos hk, hk]
      rfl
    · rw [if_neg (by simpa [Tree.pyEq] using Ne.symm hk), if_neg hk]
      rfl

theorem foldlM_keyed {α : Type} {f pair}
    (hf : ∀ kvs a, f kvs a = assignKey (.str (pair a).1) (pair a).2 kvs) (as : List α) (d : Dict Tree) :
    as.foldlM f (d.entries.map keyed) = .ok ((d.update (as.map pair)).entries.map keyed) := by
  induction as generalizing d with
  | nil => rfl
  | cons a as ih =>
    rw [foldlM_cons, hf, assignKey_keyed]
    exact ih (d.set (pair a).1 (pair a).2)

def textsOf (vars : List EnvVar) : List (String × String) := vars.map fun var => (var.name, pyStr var.read)

def texts (env : List (String × Tree)) : List (String × String) := env.map fun kv => (kv.1, pyStr kv.2)

def listing (d : Dict String) : List EnvVar := d.entries.map .ofText

section Calls
variable {vars : List EnvVar} {c : Tree} {calls : List (Dict Tree)}

theorem mergeVars_eq (hc : c.get? "env" = some (.arr (vars.map EnvVar.tree))) (env : List (String × Tree)) :
    mergeVars env c = .ok (c.put "env" (.arr ((listing (.ofFields (textsOf vars ++ texts env))).map EnvVar.tree))) := by
  have ha : attr "env" c = .ok (.arr (vars.map EnvVar.tree)) := by
    cases c with
    | obj fs =>
      rw [Tree.get?] at hc
      rw [attr, hc]
      rfl
    | _ => cases hc
  have hi : items (if (Tree.arr (vars.map EnvVar.tree)).truthy = true then .arr (vars.map EnvVar.tree) else .arr []) =
      .ok (vars.map EnvVar.tree) := by
    cases vars <;> rfl
  have hold := @foldlM_keyed _ (fun kvs var => do assignKey (← attr "name" (EnvVar.tree var)) (← attr "value" (EnvVar.tree var)) kvs)
    (fun var => (var.name, var.read)) (fun kvs var => by obtain ⟨name, v | v⟩ := var <;> rfl) vars .empty
  have hnew := @foldlM_keyed _ (fun kvs kv => assignKey (.str kv.1) kv.2 kvs) id (fun _ _ => rfl) env
    (.ofFields (vars.map fun var => (var.name, var.read)))
  have ht : Dict.ofFields (textsOf vars ++ texts env) =
      ((Dict.ofFields (vars.map fun var => (var.name, var.read))).update env).mapValues pyStr := by
    rw [Dict.mapValues_update, show Dict.ofFields (vars.map fun var => (var.name, var.read)) = Dict.update .empty _ from rfl,
      Dict.mapValues_update, map_map]
    exact foldl_append
  refine bind_ok.2 ⟨_, ha, bind_ok.2 ⟨_, hi, bind_ok.2 ⟨_, foldlM_map.trans hold, bind_ok.2 ⟨_, hnew, ?_⟩⟩⟩⟩
  rw [ht, map_id, listing, Dict.mapValues, map_map, map_map, map_map]
  rfl

/-! ## A sequence of calls -/

def givens (calls : List (Dict Tree)) : List (String × Tree) := calls.flatMap (·.entries)

theorem textsOf_listing (d : Dict String) : textsOf (listing d) = d.entries := by
  rw [textsOf, listing, map_map]
  exact map_id _

/-- A list that a call has written. -/
theorem addAllEnvVars_listing {d : Dict String} (hc : c.get? "env" = some (.arr ((listing d).map EnvVar.tree))) :
    ∃ c', addAllEnvVars calls c = .ok c' ∧
      c'.get? "env" = some (.arr ((listing (d.update (texts (givens calls)))).map EnvVar.tree)) := by
  induction calls generalizing c d with
  | nil => exact ⟨c, rfl, hc⟩
  | cons env calls ih =>
    have hg : d.update (texts (givens (env :: calls))) = (d.update (texts env.entries)).update (texts (givens calls)) := by
      rw [givens, flatMap_cons, texts, map_append]
      exact foldl_append
    rw [hg]
    by_cases he : env.entries = []
    · obtain ⟨c', hok, hc'⟩ := ih hc
      rw [he]
      exact ⟨c', bind_ok.2 ⟨c, if_pos he, hok⟩, hc'⟩
    · have hm := mergeVars_eq hc env.entries
      have hd : Dict.ofFields (d.entries ++ texts env.entries) = d.update (texts env.entries) := by
        have hs : Dict.ofFields d.entries = d := by
          obtain ⟨entries, nodup⟩ := d
          exact Dict.mk.injEq .. ▸ Dict.entries_ofFields nodup
        exact foldl_append.trans (congrArg (fun d : Dict String => d.update (texts env.entries)) hs)
      rw [textsOf_listing, hd] at hm
      obtain ⟨c', hok, hc'⟩ := ih (Tree.get?_put_self hc _)
      exact ⟨c', bind_ok.2 ⟨_, (if_neg he).trans hm, hok⟩, hc'⟩

theorem addAllEnvVars_cases (hc : c.get? "env" = some (.arr (vars.map EnvVar.tree))) (calls : List (Dict Tree)) :
    ((∀ env ∈ calls, env.entries = []) ∧ addAllEnvVars calls c = .ok c) ∨
      (¬∀ env ∈ calls, env.entries = []) ∧ ∃ c', addAllEnvVars calls c = .ok c' ∧
        c'.get? "env" = some (.arr ((listing (.ofFields (textsOf vars ++ texts (givens calls)))).map EnvVar.tree)) := by
  induction calls with
  | nil => exact .inl ⟨nofun, rfl⟩
  | cons env calls ih =>
    rw [forall_mem_cons, givens, flatMap_cons]
    by_cases he : env.entries = []
    · rw [he]
      rcases ih with ⟨hall, hok⟩ | ⟨hall, c', hok, hc'⟩
      · exact .inl ⟨⟨rfl, hall⟩, bind_ok.2 ⟨c, if_pos he, hok⟩⟩
      · exact .inr ⟨fun h => hall h.2, c', bind_ok.2 ⟨c, if_pos he, hok⟩, hc'⟩
    · obtain ⟨c', hok, hc'⟩ := @addAllEnvVars_listing _ calls _ (Tree.get?_put_self hc _)
      refine .inr ⟨fun h => he h.1, c', bind_ok.2 ⟨_, (if_neg he).trans (mergeVars_eq hc _), hok⟩, ?_⟩
      have hg : texts (env.entries ++ calls.flatMap (·.entries)) = texts env.entries ++ texts (givens calls) :=
        map_append
      rw [hc', hg, ← append_assoc]
      exact congrArg (fun d => some (Tree.arr ((listing d).map EnvVar.tree))) foldl_append.symm

theorem lookup_givens (name : String) : (givens calls).reverse.lookup name = lastGiven calls name := by
  induction calls with
  | nil => rfl
  | cons env calls ih =>
    have hone : [env].findSome? (·.get? name) = env.get? name := by cases h : env.get? name <;> simp [h]
    rw [givens, flatMap_cons, reverse_append, lookup_append, Dict.lookup_reverse, lastGiven, reverse_cons,
      findSome?_append, hone]
    exact congrArg (Option.or · _) ih

theorem get?_merged (name : String) : (Dict.ofFields (textsOf vars ++ texts (givens calls))).get? name =
    ((lastGiven calls name).map pyStr).or ((textsOf vars).reverse.lookup name) := by
  rw [Dict.get?_ofFields, reverse_append, lookup_append, texts, ← map_reverse, lookup_map_values, lookup_givens]

theorem mem_listing {d : Dict String} {kv : String × String} (h : d.get? kv.1 = some kv.2) : .ofText kv ∈ listing d :=
  mem_map_of_mem (mem_of_lookup h)

theorem names_listing (d : Dict String) : (listing d).map (·.name) = d.entries.map Prod.fst := by
  rw [listing, map_map]
  rfl

theorem keys_textsOf (vars : List EnvVar) : (textsOf vars).map Prod.fst = vars.map (·.name) := by
  rw [textsOf, map_map]
  rfl

theorem merged_listing (hn : (vars.map (·.name)).Nodup)
    (h : ∀ var ∈ vars, lastGiven calls var.name = none → ∃ s, var.holds = .value (.str s)) :
    Merged vars calls (listing (.ofFields (textsOf vars ++ texts (givens calls)))) := by
  have ho := firstOccurrences_ofFields (textsOf vars ++ texts (givens calls))
  rw [← names_listing, map_append, keys_textsOf] at ho
  refine ⟨ho.nodup, fun name v hv => ?_, fun var hvar hno => ?_, ?_⟩
  · apply @mem_listing _ (name, pyStr v)
    rw [get?_merged, hv]
    rfl
  · obtain ⟨s, hs⟩ := h var hvar hno
    obtain ⟨name, holds⟩ := var
    obtain rfl : holds = .value (.str s) := hs
    apply @mem_listing _ (name, s)
    rw [get?_merged, hno]
    refine (mem_entries_iff_lookup ?_).1 (mem_reverse.2 (mem_map.2 ⟨_, hvar, rfl⟩))
    rwa [map_reverse, nodup_reverse, keys_textsOf]
  · have hk : (texts (givens calls)).map Prod.fst = calls.flatMap (·.entries.map Prod.fst) := by
      rw [texts, map_map, givens, map_flatMap]
      rfl
    rwa [hk] at ho

theorem merged_self (hn : (vars.map (·.name)).Nodup) (h : ∀ env ∈ calls, env.entries = []) : Merged vars calls vars := by
  have hno (name : String) : lastGiven calls name = none := by
    refine findSome?_eq_none_iff.2 fun env henv => ?_
    rw [Dict.get?, h env (mem_reverse.1 henv)]
    rfl
  have hg : calls.flatMap (·.entries.map Prod.fst) = [] := flatMap_eq_nil_iff.2 fun env henv => by rw [h env henv]; rfl
  refine ⟨hn, fun name v hv => ?_, fun var hvar _ => hvar, ?_⟩
  · rw [hno] at hv
    cases hv
  · have ho := firstOccurrences_ofFields (textsOf vars)
    rw [Dict.entries_ofFields (by rwa [keys_textsOf]), keys_textsOf] at ho
    rwa [hg, append_nil]

theorem value_of_merged {d} (h : Merged vars calls (listing d)) :
    ∀ var ∈ vars, lastGiven calls var.name = none → ∃ s, var.holds = .value (.str s) := by
  intro var hvar hn
  obtain ⟨kv, -, rfl⟩ := mem_map.1 (h.kept var hvar hn)
  exact ⟨kv.2, rfl⟩

theorem tree_injective : Function.Injective EnvVar.tree := by
  rintro ⟨name, v | v⟩ ⟨name', v' | v'⟩ h <;> simp [EnvVar.tree] at h ⊢ <;> exact h

/-- The calls return, and the list is what it should be, exactly if all of them are empty or each entry that none of
them gives holds a text. -/
theorem env_merge_iff (hc : c.get? "env" = some (.arr (vars.map EnvVar.tree))) (hnames : (vars.map (·.name)).Nodup)
    (calls : List (Dict Tree)) :
    (∃ c' result, addAllEnvVars calls c = .ok c' ∧ c'.get? "env" = some (.arr (result.map EnvVar.tree)) ∧
      Merged vars calls result) ↔
      (∀ env ∈ calls, env.entries = []) ∨
        ∀ var ∈ vars, lastGiven calls var.name = none → ∃ s, var.holds = .value (.str s) := by
  rcases addAllEnvVars_cases hc calls with ⟨he, hok⟩ | ⟨hs, c', hok, hc'⟩
  · exact iff_of_true ⟨c, vars, hok, hc, merged_self hnames he⟩ (.inl he)
  · rw [or_iff_right hs]
    constructor
    · rintro ⟨c'', result, hok', hr, hm⟩
      obtain rfl := Except.ok.inj (hok.symm.trans hok')
      have hsa := Tree.arr.inj (Option.some.inj (hr.symm.trans hc'))
      obtain rfl := tree_injective.list_map hsa
      exact value_of_merged hm
    · intro h
      exact ⟨c', _, hok, hc', merged_listing hnames h⟩

end Calls

def envContainer (vars : List EnvVar) : Tree := .obj [("name", .str "benchmark"), ("env", .arr (vars.map EnvVar.tree))]

def podIp : EnvVar := ⟨"POD_IP", .valueFrom (.obj [("fieldRef", .obj [("fieldPath", .str "status.podIP")])])⟩

def addedVar : Dict Tree := ⟨[("PARENT", .str "a")], nodup_singleton "PARENT"⟩

theorem env_merge_texts : ∃ c' result, addAllEnvVars [addedVar, addedVar] (envContainer [.ofText ("A", "1")]) = .ok c' ∧
    c'.get? "env" = some (.arr (result.map EnvVar.tree)) ∧ Merged [.ofText ("A", "1")] [addedVar, addedVar] result := by
  refine (@env_merge_iff [.ofText ("A", "1")] _ rfl (nodup_singleton "A") _).2 (.inr ?_)
  rintro var hvar -
  obtain rfl := mem_singleton.1 hvar
  exact ⟨"1", rfl⟩

/-- The variable has the text of an empty dict then. -/
theorem env_merge_loses_source : (∃ c', addAllEnvVars [addedVar] (envContainer [podIp]) = .ok c' ∧
      c'.get? "env" = some (.arr ([("POD_IP", "\x7b\x7d"), ("PARENT", "a")].map fun kv => (EnvVar.ofText kv).tree))) ∧
    ¬∃ c' result, addAllEnvVars [addedVar] (envContainer [podIp]) = .ok c' ∧
      c'.get? "env" = some (.arr (result.map EnvVar.tree)) ∧ Merged [podIp] [addedVar] result := by
  have hrun : addAllEnvVars [addedVar] (envContainer [podIp]) = .ok (.obj [("name", .str "benchmark"),
      ("env", .arr ([("POD_IP", "\x7b\x7d"), ("PARENT", "a")].map fun kv => (EnvVar.ofText kv).tree))]) := by rfl
  refine ⟨⟨_, hrun, rfl⟩, ?_⟩
  rintro ⟨c', result, hok, hr, hm⟩
  obtain rfl := Except.ok.inj (hrun.symm.trans hok)
  have hmem := mem_map_of_mem (f := EnvVar.tree) (hm.kept podIp mem_cons_self rfl)
  rw [← Tree.arr.inj (Option.some.inj hr)] at hmem
  simp [podIp, EnvVar.tree, EnvVar.ofText] at hmem

end BenchmarkAi.Transpiler
