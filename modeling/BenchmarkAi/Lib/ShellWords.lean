import BenchmarkAi.Lib.Shell
import BenchmarkAi.Lib.Words
/-!
# Words that a shell reads

What `eval` is given is read as a command once more: braces are multiplied out, expansions
are replaced by their values and split, quotes and backslashes go, and an operator ends the
command. A word comes out as it was exactly if nothing in it has such a meaning.
-/

open List

namespace Lib.ShellWords

/-- The characters that go when a word is read, or that begin what goes. -/
def special (c : Char) : Bool := "'\"\\`$\x7b".toList.contains c

def operator (c : Char) : Bool := "|&;()<>".toList.contains c

def weight (s : List Char) : Nat := s.countP special

/-- What is not in the text itself: the value of an expansion, which is given as it is
written, and the words that the braces of a word stand for. Values bring no special characters
in that were not written, and braces that mean something do not stay. -/
structure Env where
  value : List Char → List Char
  value_lt : ∀ text, weight (value text) ≤ weight text - 1
  braces : List Char → List (List Char)
  braces_lt : ∀ w, braces w = [w] ∨ braces w ≠ [] ∧ ∀ v ∈ braces w, weight v < weight w

/-! ## The reader -/

/-- `gap` ends a word, and `mark` makes one even if nothing is in it. -/
inductive Item
  | char (c : Char)
  | gap
  | mark
deriving DecidableEq, Repr

def Item.char? : Item → Option Char
  | .char c => some c
  | _ => none

def group : List Item → Option (List Char) × List (List Char)
  | [] => (none, [])
  | .char c :: is => (some (c :: (group is).1.getD []), (group is).2)
  | .gap :: is => (none, (group is).1.toList ++ (group is).2)
  | .mark :: is => (some ((group is).1.getD []), (group is).2)

def fields (is : List Item) : List (List Char) := (group is).1.toList ++ (group is).2

/-- Where the reader is; `quoted` says that it is between double quotes. The text of an
expansion is kept until it ends. -/
inductive State
  | plain (quoted : Bool)
  | escaped (quoted : Bool)
  | single
  | dollar (quoted : Bool)
  | name (quoted : Bool) (text : List Char)
  | inside (quoted : Bool) (opening closing : Char) (depth : Nat) (text : List Char)
deriving DecidableEq, Repr

/-- The weight of what is still to come out of the characters before. -/
def State.held : State → Nat
  | .plain _ | .single => 0
  | .escaped quoted => quoted.toNat
  | .dollar _ => 1
  | .name _ text | .inside _ _ _ _ text => weight text - 1

def splice (quoted : Bool) (text : List Char) : List Item :=
  if quoted then .mark :: text.map .char else text.map fun c => if Words.blank c then .gap else .char c

/-- The parameters that are one character. -/
def parameter (c : Char) : Bool := c.isDigit || "*@#?-$!".toList.contains c

/-- What closes an expansion that begins with `$` and this character. -/
def closing (quoted : Bool) (c : Char) : Option Char :=
  (if quoted then ["\x7b\x7d", "()", "[]"] else ["\x7b\x7d", "()", "[]", "''", "\"\""]).findSome? fun pair =>
    if pair.toList.head? = some c then pair.toList.getLast? else none

def expands (quoted : Bool) (c : Char) : Bool := Shell.nameStart c || parameter c || (closing quoted c).isSome

/-- The word has no operator and no quote, and after no `$` an expansion follows. -/
def literal : List Char → Bool
  | [] => true
  | c :: s => !operator c && (!special c || c = '{' || (c = '$' && !s.head?.any (expands false))) && literal s

def stepPlain (quoted : Bool) (c : Char) : Option (State × List Item) :=
  if !special c then if !quoted && operator c then none else some (.plain quoted, [.char c])
  else if c = '$' then some (.dollar quoted, [])
  else if "`".toList.contains c then some (.inside quoted c c 0 [c], [])
  else if c = '\\' then some (.escaped quoted, [])
  else if c = '"' then some (.plain (!quoted), [.mark])
  else if c = '{' || quoted then some (.plain quoted, [.char c])
  else some (.single, [.mark])

def collect {α β : Type} (f : α → Option (List β)) : List α → Option (List β)
  | [] => some []
  | a :: as => do return (← f a) ++ (← collect f as)

namespace Env
variable (env : Env)

def step : State → Char → Option (State × List Item)
  | .plain quoted, c => stepPlain quoted c
  | .escaped quoted, c =>
    -- between double quotes a backslash stays, unless the next character needs one
    some (.plain quoted, if quoted && !"$`\"\\".toList.contains c then [.char '\\', .char c] else [.char c])
  | .single, c => if "'".toList.contains c then some (.plain false, []) else some (.single, [.char c])
  | .dollar quoted, c =>
    if Shell.nameStart c then some (.name quoted ['$', c], [])
    else if parameter c then some (.plain quoted, splice quoted (env.value ['$', c]))
    else match closing quoted c with
      | some close => some (.inside quoted c close 0 ['$', c], [])
      | none => (stepPlain quoted c).map fun (st, is) => (st, .char '$' :: is)
  | .name quoted text, c =>
    if Shell.nameChar c then some (.name quoted (text ++ [c]), [])
    else (stepPlain quoted c).map fun (st, is) => (st, splice quoted (env.value text) ++ is)
  | .inside quoted opening close depth text, c =>
    if c = close then
      if depth = 0 then some (.plain quoted, splice quoted (env.value (text ++ [c])))
      else some (.inside quoted opening close (depth - 1) (text ++ [c]), [])
    else some (.inside quoted opening close (if c = opening then depth + 1 else depth) (text ++ [c]), [])

def finish : State → Option (List Item)
  | .plain false => some []
  | .dollar false => some [.char '$']
  | .name false text => some (splice false (env.value text))
  | _ => none

/-- The items of a word; `none` if a quote or an expansion is open at its end, or an operator
is in it. Then more is read than the word, or less. -/
def items : State → List Char → Option (List Item)
  | st, [] => env.finish st
  | st, c :: s => do
    let (st, is) ← env.step st c
    return is ++ (← items st s)

def readWord (w : List Char) : Option (List (List Char)) :=
  collect (fun v => (env.items (.plain false) v).map fields) (env.braces w)

/-- What is run for a command that is written as these words. -/
def readCommand : List (List Char) → Option (List (List Char)) := collect env.readWord

end Env

/-! ## Items -/

def chars (is : List Item) : List Char := is.filterMap Item.char?

variable {env : Env} {w v s : List Char} {is : List Item} {c : Char} {st st' : State}

@[simp] theorem chars_nil : chars [] = [] := rfl

@[simp] theorem chars_char_cons (c : Char) (is : List Item) : chars (.char c :: is) = c :: chars is := rfl

@[simp] theorem chars_gap_cons (is : List Item) : chars (.gap :: is) = chars is := rfl

@[simp] theorem chars_mark_cons (is : List Item) : chars (.mark :: is) = chars is := rfl

theorem flatten_fields (is : List Item) : (fields is).flatten = chars is := by
  induction is with
  | nil => rfl
  | cons i is ih =>
    rw [fields] at ih ⊢
    cases i <;> cases hg : (group is).1 <;> simp_all [group]

theorem weight_le_of_mem_fields (h : w ∈ fields is) : weight w ≤ weight (chars is) := by
  rw [← flatten_fields]
  exact (sublist_flatten_of_mem h).countP_le

@[simp] theorem weight_nil : weight [] = 0 := rfl

theorem weight_cons (c : Char) (s : List Char) : weight (c :: s) = weight [c] + weight s :=
  @countP_append _ _ [c] s

@[simp] theorem weight_append (s t : List Char) : weight (s ++ t) = weight s + weight t := countP_append

@[simp] theorem chars_append (is js : List Item) : chars (is ++ js) = chars is ++ chars js := filterMap_append

theorem chars_map_char (s : List Char) : chars (s.map .char) = s := by
  induction s with
  | nil => rfl
  | cons c s ih => exact congrArg (c :: ·) ih

theorem weight_splice_le (quoted : Bool) (s : List Char) : weight (chars (splice quoted s)) ≤ weight s := by
  have hsub : (chars (splice quoted s)).Sublist s := by
    unfold splice
    split
    · rw [chars_mark_cons, chars_map_char]
    · induction s with
      | nil => exact .slnil
      | cons c s ih =>
        rw [map_cons]
        split
        · exact ih.cons c
        · exact ih.cons_cons c
  exact hsub.countP_le

theorem fields_map_char (h : w ≠ []) : fields (w.map .char) = [w] := by
  induction w with
  | nil => exact absurd rfl h
  | cons c w ih =>
    cases w with
    | nil => rfl
    | cons d w =>
      have hg := ih (cons_ne_nil _ _)
      rw [fields] at hg ⊢
      simp_all [group]

/-! ## What a step keeps -/

theorem weight_of_special (h : special c = true) : weight [c] = 1 := by
  rw [weight, countP_singleton, if_pos h]

theorem stepPlain_held {quoted} (h : stepPlain quoted c = some (st, is)) : weight (chars is) + st.held ≤ weight [c] := by
  unfold stepPlain at h
  split at h
  · split at h
    · cases h
    · cases h
      exact Nat.le_refl _
  · rename_i hs
    have hw : weight [c] = 1 := weight_of_special (by simpa using hs)
    rw [hw]
    split_ifs at h <;> cases h <;> simp [State.held, hw, Bool.toNat_le]

theorem weight_value_le (quoted : Bool) (text : List Char) :
    weight (chars (splice quoted (env.value text))) ≤ weight text - 1 :=
  Nat.le_trans (weight_splice_le quoted _) (env.value_lt text)

theorem step_held (h : env.step st c = some (st', is)) : weight (chars is) + st'.held ≤ st.held + weight [c] := by
  cases st with
  | plain quoted =>
    rw [State.held, Nat.zero_add]
    exact stepPlain_held h
  | escaped quoted =>
    cases h
    cases quoted
    · exact Nat.le_of_eq (Nat.add_comm _ _)
    · split
      · rw [chars_char_cons, weight_cons]
        exact Nat.le_refl _
      · exact Nat.le_add_left _ _
  | single =>
    rw [Env.step] at h
    split_ifs at h <;> cases h <;> simp [State.held]
  | dollar quoted =>
    have hd : weight ['$', c] = 1 + weight [c] := weight_cons _ _
    have hv := @weight_value_le env quoted ['$', c]
    rw [Env.step] at h
    split_ifs at h
    · cases h
      simp [State.held, hd]
    · cases h
      simp only [State.held]
      omega
    · split at h
      · cases h
        simp [State.held, hd]
      · obtain ⟨⟨st, js⟩, hst, heq⟩ := Option.map_eq_some_iff.1 h
        cases heq
        have hle := stepPlain_held hst
        rw [chars_char_cons, weight_cons, Nat.add_assoc]
        exact Nat.add_le_add_left hle 1
  | name quoted text =>
    have hv := @weight_value_le env quoted text
    rw [Env.step] at h
    split_ifs at h
    · cases h
      simp only [chars_nil, weight_nil, weight_append, State.held]
      omega
    · obtain ⟨⟨st, js⟩, hst, heq⟩ := Option.map_eq_some_iff.1 h
      cases heq
      have hle := stepPlain_held hst
      rw [chars_append, weight_append, Nat.add_assoc]
      exact Nat.add_le_add hv hle
  | inside quoted opening close depth text =>
    have hv := @weight_value_le env quoted (text ++ [c])
    rw [weight_append] at hv
    rw [Env.step] at h
    split_ifs at h <;> cases h <;> simp only [chars_nil, weight_nil, weight_append, State.held] <;> omega

theorem items_held (h : env.items st s = some is) : weight (chars is) ≤ st.held + weight s := by
  induction s generalizing st is with
  | nil =>
    unfold Env.items Env.finish at h
    split at h <;> cases h
    · exact Nat.zero_le _
    · exact Nat.le_refl _
    · exact weight_value_le _ _
  | cons c s ih =>
    obtain ⟨⟨st', js⟩, hst, hre⟩ := Option.bind_eq_some_iff.1 h
    obtain ⟨ks, hks, heq⟩ := Option.bind_eq_some_iff.1 hre
    cases heq
    have hle := step_held hst
    have hrest := ih hks
    rw [chars_append, weight_append, weight_cons]
    omega

/-! ## Words that stand for themselves -/

theorem items_dollar (h : s.head?.any (expands false) = false) :
    env.items (.dollar false) s = (env.items (.plain false) s).map (.char '$' :: ·) := by
  cases s with
  | nil => rfl
  | cons c s =>
    obtain ⟨hn, hcl⟩ := Bool.or_eq_false_iff.1 h
    obtain ⟨hn, hp⟩ := Bool.or_eq_false_iff.1 hn
    have hst : env.step (.dollar false) c = (stepPlain false c).map fun (st, is) => (st, .char '$' :: is) := by
      rw [Env.step, hn, hp, Option.isSome_eq_false_iff.1 hcl |> Option.isNone_iff_eq_none.1]
      rfl
    rw [Env.items, Env.items, hst, Env.step]
    cases stepPlain false c with
    | none => rfl
    | some next =>
      cases hre : env.items next.1 s <;> simp [hre]

theorem stepPlain_self (ho : operator c = false) (hs : special c = false ∨ c = '{') :
    stepPlain false c = some (.plain false, [.char c]) := by
  rcases hs with hs | rfl
  · simp [stepPlain, hs, ho]
  · rfl

/-- A quote or a backquote makes room in what comes out. -/
theorem stepPlain_lost (hs : special c = true) (hb : c ≠ '{') (hd : c ≠ '$') (h : stepPlain false c = some (st, is)) :
    weight (chars is) + st.held = 0 := by
  unfold stepPlain at h
  split_ifs at h <;> cases h <;> simp_all [State.held, weight_of_special]

theorem stepPlain_operator (h : operator c = true) : stepPlain false c = none := by
  have hs : special c = false := by
    simp only [operator, String.reduceToList, contains_iff_mem, mem_cons, not_mem_nil, or_false] at h
    rcases h with rfl | rfl | rfl | rfl | rfl | rfl | rfl <;> rfl
  simp [stepPlain, h, hs]

theorem step_dollar_lost (he : expands false c = true) (h : env.step (.dollar false) c = some (st, is)) :
    weight (chars is) + st.held ≤ weight [c] := by
  have hd : weight ['$', c] = 1 + weight [c] := weight_cons _ _
  have hv := @weight_value_le env false ['$', c]
  rw [Env.step] at h
  split_ifs at h with hn hp
  · cases h
    simp [State.held, hd]
  · cases h
    simp only [State.held]
    omega
  · rw [Bool.not_eq_true] at hn hp
    rw [expands, hn, hp] at he
    obtain ⟨close, hcl⟩ := Option.isSome_iff_exists.1 he
    rw [hcl] at h
    cases h
    simp [State.held, hd]

theorem items_cons (h : env.items st (c :: s) = some is) :
    ∃ st' js ks, env.step st c = some (st', js) ∧ env.items st' s = some ks ∧ is = js ++ ks := by
  obtain ⟨⟨st', js⟩, hst, hre⟩ := Option.bind_eq_some_iff.1 h
  obtain ⟨ks, hks, heq⟩ := Option.bind_eq_some_iff.1 hre
  exact ⟨st', js, ks, hst, hks, (Option.some.inj heq).symm⟩

/-- A text that is not literal comes out with fewer special characters. -/
theorem items_lost (s : List Char) :
    (∀ is, env.items (.plain false) s = some is → literal s = false → weight (chars is) < weight s) ∧
      ∀ is, env.items (.dollar false) s = some is → (literal s && !s.head?.any (expands false)) = false →
        weight (chars is) < 1 + weight s := by
  induction s with
  | nil => exact ⟨nofun, nofun⟩
  | cons c s ih =>
    have hplain : ∀ is, env.items (.plain false) (c :: s) = some is → literal (c :: s) = false →
        weight (chars is) < weight (c :: s) := by
      intro is h hi
      obtain ⟨st, js, ks, hst, hks, rfl⟩ := items_cons h
      change stepPlain false c = _ at hst
      rw [chars_append, weight_append, weight_cons]
      by_cases ho : operator c = true
      · cases (stepPlain_operator ho).symm.trans hst
      · rw [Bool.not_eq_true] at ho
        by_cases hs : special c = false ∨ c = '{'
        · cases (stepPlain_self ho hs).symm.trans hst
          refine Nat.add_lt_add_left (ih.1 ks hks ?_) _
          rcases hs with hs | rfl
          · simpa [literal, ho, hs] using hi
          · simpa [literal, ho] using hi
        · obtain ⟨hs, hb⟩ := not_or.1 hs
          rw [Bool.not_eq_false] at hs
          by_cases hd : c = '$'
          · subst hd
            cases hst
            refine Nat.lt_of_lt_of_eq (Nat.add_lt_add_left (ih.2 ks hks ?_) 0) (Nat.zero_add _)
            simpa [literal, ho, hs, Bool.and_comm] using hi
          · have hl := stepPlain_lost hs hb hd hst
            have hle := items_held hks
            rw [weight_of_special hs]
            omega
    refine ⟨hplain, fun is h hi => ?_⟩
    cases he : expands false c with
    | false =>
      rw [@items_dollar env (c :: s) he] at h
      obtain ⟨ks, hks, rfl⟩ := Option.map_eq_some_iff.1 h
      rw [chars_char_cons, weight_cons]
      refine Nat.add_lt_add_left (hplain ks hks ?_) 1
      simpa [he] using hi
    | true =>
      obtain ⟨st, js, ks, hst, hks, rfl⟩ := items_cons h
      have hl := step_dollar_lost he hst
      have hle := items_held hks
      rw [chars_append, weight_append, weight_cons]
      omega

theorem items_literal (h : literal s = true) : env.items (.plain false) s = some (s.map .char) := by
  induction s with
  | nil => rfl
  | cons c s ih =>
    obtain ⟨hc, hi⟩ := Bool.and_eq_true_iff.1 h
    obtain ⟨ho, hc⟩ := Bool.and_eq_true_iff.1 hc
    rw [Bool.not_eq_true'] at ho
    rw [Env.items, Env.step]
    by_cases hs : special c = false ∨ c = '{'
    · rw [stepPlain_self ho hs]
      simp [ih hi]
    · obtain ⟨hs, hb⟩ := not_or.1 hs
      obtain ⟨rfl, he⟩ : c = '$' ∧ s.head?.any (expands false) = false := by
        simpa [hs, hb] using hc
      have hst : stepPlain false '$' = some (.dollar false, []) := rfl
      rw [hst]
      simp [items_dollar he, ih hi]

section Collect
variable {α β : Type} {f : α → Option (List β)} {as : List α} {bs : List β}

theorem collect_cons {a} : collect f (a :: as) = some bs ↔
    ∃ cs ds, f a = some cs ∧ collect f as = some ds ∧ cs ++ ds = bs := by
  simp [collect, Option.bind_eq_some_iff]

theorem exists_of_mem_collect {b} (h : collect f as = some bs) (hb : b ∈ bs) : ∃ a ∈ as, ∃ cs, f a = some cs ∧ b ∈ cs := by
  induction as generalizing bs with
  | nil =>
    cases h
    cases hb
  | cons a as ih =>
    obtain ⟨cs, ds, ha, has, rfl⟩ := collect_cons.1 h
    rcases mem_append.1 hb with hb | hb
    · exact ⟨a, mem_cons_self, cs, ha, hb⟩
    · obtain ⟨a', ha', hex⟩ := ih has hb
      exact ⟨a', mem_cons_of_mem a ha', hex⟩

end Collect

/-- A word comes out as it was exactly if nothing in it has a meaning for the shell. -/
theorem readWord_eq_self_iff (hw : w ≠ []) : env.readWord w = some [w] ↔ literal w = true ∧ env.braces w = [w] := by
  constructor
  · intro h
    obtain ⟨v, hv, ws, hws, hmem⟩ := exists_of_mem_collect h (mem_singleton_self w)
    obtain ⟨is, his, rfl⟩ := Option.map_eq_some_iff.1 hws
    have hle := weight_le_of_mem_fields hmem
    have hbound : weight (chars is) ≤ weight v := by simpa [State.held] using items_held his
    have hb : env.braces w = [w] := by
      refine (env.braces_lt w).resolve_right fun ⟨_, hlt⟩ => ?_
      have := hlt v hv
      omega
    rw [hb, mem_singleton] at hv
    subst hv
    refine ⟨?_, hb⟩
    by_contra hi
    have := (items_lost v).1 is his (Bool.not_eq_true _ ▸ hi)
    omega
  · rintro ⟨hi, hb⟩
    simp [Env.readWord, hb, collect, items_literal hi, fields_map_char hw]

/-- Nothing in the word is special, and no operator. -/
def Plain (w : List Char) : Prop := w ≠ [] ∧ ∀ c ∈ w, special c = false ∧ operator c = false

instance (w : List Char) : Decidable (Plain w) := @instDecidableAnd _ _ inferInstance (decidableBAll _ w)

theorem readWord_plain (h : Plain w) : env.readWord w = some [w] := by
  refine (readWord_eq_self_iff h.1).2 ⟨?_, ?_⟩
  · obtain ⟨-, h⟩ := h
    induction w with
    | nil => rfl
    | cons c w ih =>
      rw [forall_mem_cons] at h
      simp [literal, h.1.1, h.1.2, ih h.2]
  · have hz : weight w = 0 := countP_eq_zero.2 fun c hc hs => nomatch hs.symm.trans (h.2 c hc).1
    refine (env.braces_lt w).resolve_right fun ⟨hne, hlt⟩ => ?_
    obtain ⟨v, hv⟩ := exists_mem_of_ne_nil _ hne
    have := hlt v hv
    omega

theorem readCommand_eq_self_iff {front back : List (List Char)} (hf : ∀ v ∈ front, env.readWord v = some [v])
    (hb : ∀ v ∈ back, env.readWord v = some [v]) :
    env.readCommand (front ++ w :: back) = some (front ++ w :: back) ↔ env.readWord w = some [w] := by
  have hback : env.readCommand back = some back := by
    induction back with
    | nil => rfl
    | cons v back ih =>
      rw [forall_mem_cons] at hb
      exact collect_cons.2 ⟨[v], back, hb.1, ih hb.2, rfl⟩
  induction front with
  | nil =>
    refine collect_cons.trans ⟨?_, fun h => ⟨[w], back, h, hback, rfl⟩⟩
    rintro ⟨cs, ds, hw, hds, heq⟩
    obtain rfl : back = ds := Option.some.inj (hback.symm.trans hds)
    exact hw.trans (congrArg some (append_cancel_right (heq.trans singleton_append.symm)))
  | cons v front ih =>
    rw [forall_mem_cons] at hf
    refine Iff.trans ?_ (ih hf.2)
    refine collect_cons.trans ⟨?_, fun h => ⟨[v], _, hf.1, h, rfl⟩⟩
    rintro ⟨cs, ds, hv, hds, heq⟩
    obtain rfl : [v] = cs := Option.some.inj (hf.1.symm.trans hv)
    exact hds.trans (congrArg some (cons.inj heq).2)

end Lib.ShellWords
