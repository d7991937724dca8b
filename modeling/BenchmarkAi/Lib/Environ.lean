import BenchmarkAi.Lib.Tree
/-!
# The environment of a container

The variables of a container are set one after the other. The text of a variable may refer
to those before it: `$(NAME)` is replaced by the value of `NAME` if there is one, `$$` stands
for `$`, and everything else is left as it is. Of two variables with one name the last counts.
-/

open List

namespace Lib

/-! ## References -/

def reference (env : String → Option String) (name : List Char) : List Char :=
  match env (String.ofList name) with
  | some value => value.toList
  | none => '$' :: '(' :: (name ++ [')'])

/-- The text with its references replaced. The first argument counts the characters that have
been read already. -/
def expandFrom (env : String → Option String) : Nat → List Char → List Char
  | _, [] => []
  | n + 1, _ :: cs => expandFrom env n cs
  | 0, '$' :: cs =>
    match cs with
    | [] => ['$']
    | '$' :: _ => '$' :: expandFrom env 1 cs
    | '(' :: rest =>
      if ')' ∈ rest then
        reference env (rest.takeWhile (· ≠ ')')) ++ expandFrom env ((rest.takeWhile (· ≠ ')')).length + 2) cs
      else '$' :: '(' :: expandFrom env 1 cs
    | c :: _ => '$' :: c :: expandFrom env 1 cs
  | 0, c :: cs => c :: expandFrom env 0 cs

def expand (env : String → Option String) (s : String) : String := String.ofList (expandFrom env 0 s.toList)

/-- No `$` with a `$` or a parenthesis behind it. -/
def Inert (cs : List Char) : Prop := cs.IsChain fun a b => a = '$' → b ≠ '$' ∧ b ≠ '('

instance (cs : List Char) : Decidable (Inert cs) := inferInstanceAs (Decidable (cs.IsChain _))

theorem inert_of_noDollar {cs} (h : ∀ c ∈ cs, c ≠ '$') : Inert cs := by
  induction cs with
  | nil => exact .nil
  | cons c cs ih =>
    rw [forall_mem_cons] at h
    cases cs with
    | nil => exact .singleton c
    | cons d cs => exact isChain_cons_cons.2 ⟨fun heq => absurd heq h.1, ih h.2⟩

section Expand
variable {env : String → Option String}

theorem expandFrom_cons {c} (h : c ≠ '$') (cs : List Char) : expandFrom env 0 (c :: cs) = c :: expandFrom env 0 cs := by
  rw [expandFrom.eq_def]
  split <;> simp_all

theorem expandFrom_dollar {c} (h₁ : c ≠ '$') (h₂ : c ≠ '(') (cs : List Char) :
    expandFrom env 0 ('$' :: c :: cs) = '$' :: c :: expandFrom env 0 cs := by
  rw [expandFrom] <;> simp_all [expandFrom]

theorem expandFrom_inert {cs} (h : Inert cs) : expandFrom env 0 cs = cs := by
  induction cs with
  | nil => rfl
  | cons a cs ih =>
    by_cases ha : a = '$'
    · subst ha
      cases cs with
      | nil => rfl
      | cons c cs =>
        obtain ⟨hac, hcs⟩ := isChain_cons_cons.1 h
        obtain ⟨hc, hp⟩ := hac rfl
        rw [expandFrom_dollar hc hp]
        -- the rest is read in the same way from `c` on
        have hr := ih hcs
        rw [expandFrom_cons hc] at hr
        rw [hr]
    · rw [expandFrom_cons ha, ih (List.IsChain.of_cons h)]

theorem expand_inert {s : String} (h : Inert s.toList) : expand env s = s := by
  rw [expand, expandFrom_inert h, String.ofList_toList]

end Expand

/-! ## Variables -/

/-- Where the value of a variable comes from: a text with references, or a value from elsewhere
that is taken as it is. -/
inductive Source
  | text (s : String)
  | given (s : String)
deriving DecidableEq, Repr

def Source.value (env : Dict String) : Source → String
  | text s => expand env.get? s
  | given s => s

def setVariable (env : Dict String) (var : String × Source) : Dict String := env.set var.1 (var.2.value env)

def environ (base : Dict String) (vars : List (String × Source)) : Dict String := vars.foldl setVariable base

theorem Dict.get?_set_self {β : Type} (d : Dict β) (k : String) (v : β) : (d.set k v).get? k = some v :=
  lookup_assign_self k v d.entries

theorem Dict.get?_set_ne {β : Type} (d : Dict β) {k k'} (h : k' ≠ k) (v : β) : (d.set k v).get? k' = d.get? k' :=
  lookup_assign_ne h v d.entries

section Update
variable {β : Type}

def Dict.update (d : Dict β) (fs : List (String × β)) : Dict β := fs.foldl (fun d kv => d.set kv.1 kv.2) d

theorem lookup_of_unique {fs : List (String × β)} {k} {v : β} (hmem : (k, v) ∈ fs)
    (hu : ∀ w, (k, w) ∈ fs → w = v) : fs.lookup k = some v := by
  cases h : fs.lookup k with
  | none =>
    have hno := lookup_eq_none_iff.1 h (k, v) hmem
    exact absurd rfl (bne_iff_ne.1 hno)
  | some w => rw [hu w (mem_of_lookup h)]

theorem Dict.get?_update (d : Dict β) (fs : List (String × β)) (k : String) :
    (d.update fs).get? k = (fs.reverse.lookup k).or (d.get? k) := by
  induction fs generalizing d with
  | nil => rfl
  | cons kv fs ih =>
    rw [Dict.update, reverse_cons, lookup_append, Option.or_assoc]
    refine (ih (d.set kv.1 kv.2)).trans ?_
    congr 1
    rw [lookup_cons_if]
    split
    · rename_i hk
      rw [hk]
      exact d.get?_set_self _ _
    · rename_i hk
      exact d.get?_set_ne hk _

theorem Dict.get?_ofFields (fs : List (String × β)) (k : String) : (Dict.ofFields fs).get? k = fs.reverse.lookup k :=
  (Dict.get?_update .empty fs k).trans Option.or_none

theorem Dict.lookup_reverse (d : Dict β) (k : String) : d.entries.reverse.lookup k = d.get? k := by
  cases h : d.get? k with
  | some v =>
    apply lookup_of_unique
    · exact mem_reverse.2 (mem_of_lookup h)
    · intro w hw
      have hl := (mem_entries_iff_lookup d.nodup).1 (mem_reverse.1 hw)
      exact Option.some.inj (hl.symm.trans h)
  | none =>
    rw [lookup_eq_none_iff]
    intro kv hkv
    exact lookup_eq_none_iff.1 h kv (mem_reverse.1 hkv)

end Update

section Environ
variable {base : Dict String} {vars : List (String × Source)} {k : String}

theorem environ_append (vars' : List (String × Source)) : environ base (vars ++ vars') = environ (environ base vars) vars' :=
  foldl_append

theorem environ_get?_ne (h : ∀ var ∈ vars, var.1 ≠ k) : (environ base vars).get? k = base.get? k := by
  induction vars generalizing base with
  | nil => rfl
  | cons var vars ih =>
    rw [forall_mem_cons] at h
    exact (ih h.2).trans (base.get?_set_ne (Ne.symm h.1) _)

/-- A value is one of the variables', or it was there before. -/
theorem environ_get?_cases {value} (h : (environ base vars).get? k = some value) :
    (∃ var ∈ vars, var.1 = k) ∨ base.get? k = some value := by
  by_cases hvar : ∃ var ∈ vars, var.1 = k
  · exact .inl hvar
  · refine .inr ?_
    rwa [environ_get?_ne fun var hmem heq => hvar ⟨var, hmem, heq⟩] at h

/-- The last variable with the name counts. -/
theorem environ_get?_last {before after} {source : Source} (h : ∀ var ∈ after, var.1 ≠ k) :
    (environ base (before ++ (k, source) :: after)).get? k = some (source.value (environ base before)) := by
  rw [environ_append, environ]
  exact (environ_get?_ne h).trans (Dict.get?_set_self _ k _)

theorem environ_get?_once {source : Source} (h : vars.filter (·.1 = k) = [(k, source)]) :
    ∃ env, (environ base vars).get? k = some (source.value env) := by
  have hmem : (k, source) ∈ vars.filter (·.1 = k) := h ▸ mem_cons_self
  obtain ⟨before, after, rfl⟩ := append_of_mem (mem_filter.1 hmem).1
  rw [filter_append, filter_cons_of_pos (by simp)] at h
  have hlen := congrArg length h
  simp only [length_append, length_cons, length_nil] at hlen
  have ha : after.filter (·.1 = k) = [] := eq_nil_of_length_eq_zero (by omega)
  refine ⟨environ base before, environ_get?_last fun var hvar heq => ?_⟩
  have hin : var ∈ after.filter (·.1 = k) := mem_filter.2 ⟨hvar, by simpa using heq⟩
  rw [ha] at hin
  cases hin

end Environ

end Lib
