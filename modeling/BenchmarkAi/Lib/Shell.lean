import BenchmarkAi.Lib.Environ
import Mathlib.Data.List.Infix
import Mathlib.Data.List.TakeWhile
/-!
# Exports in a shell

A POSIX shell that reads `export NAME="TEXT"` takes the characters between the double quotes as they are, but for
`$NAME`, which is replaced by the value of the variable, and for a backslash before one of the characters that are
special there. The other forms of a shell are not read here: what a shell does with them is left open.
-/

open List

namespace Lib.Shell

/-! ## Between double quotes -/

def nameStart (c : Char) : Bool := c.isAlpha || c = '_'

def nameChar (c : Char) : Bool := c.isAlphanum || c = '_'

def isName : List Char → Bool
  | [] => false
  | c :: cs => nameStart c && cs.all nameChar

def parameter (env : Dict String) (name : List Char) : List Char := ((env.get? (String.ofList name)).getD "").toList

/-- A backslash takes from these characters what they mean. A line break after it is dropped as well. -/
def escapable : List Char := ['$', '`', '"', '\\', '\n']

/-- The value of the text up to the closing quote, and what stands behind it, if there are no other forms in it. The
first argument counts the characters that have been read already. -/
def quoted (env : Dict String) : Nat → List Char → Option (List Char × List Char)
  | _, [] => none
  | n + 1, _ :: cs => quoted env n cs
  | 0, c :: cs =>
    if c = '"' then some ([], cs)
    else if c = '`' ∨ c = '\x00' then none
    else if c = '$' then
      if cs.head?.any nameStart then
        (quoted env (cs.takeWhile nameChar).length cs).map fun r => (parameter env (cs.takeWhile nameChar) ++ r.1, r.2)
      else none
    else if c = '\\' then
      if cs.head? = some '\n' then quoted env 1 cs
      else if cs.head?.any (· ∈ escapable) then (quoted env 1 cs).map fun r => (cs.take 1 ++ r.1, r.2)
      else (quoted env 0 cs).map fun r => ('\\' :: r.1, r.2)
    else (quoted env 0 cs).map fun r => (c :: r.1, r.2)

/-! ## A script of exports -/

inductive Command
  | assign (name value : String)
  | other (text : String)
deriving DecidableEq, Repr

def keyword : List Char := ['e', 'x', 'p', 'o', 'r', 't', ' ']

def endLine (name : List Char) : List Char × List Char → Option (String × String × List Char)
  | (value, '\n' :: rest) => some (String.ofList name, String.ofList value, rest)
  | _ => none

/-- One line `export NAME="TEXT"`, where the text may have line breaks, and the lines after it. -/
def readExport (env : Dict String) (text : List Char) : Option (String × String × List Char) :=
  if keyword.isPrefixOf text then
    let name := (text.drop keyword.length).takeWhile nameChar
    if isName name then
      match (text.drop keyword.length).drop name.length with
      | '=' :: '"' :: cs => (quoted env 0 cs).bind (endLine name)
      | _ => none
    else none
  else none

/-- A shell: the variables that it does not let assign, and what it does with such an assignment and with a text of
other forms, the variables there are then and the commands it runs. -/
structure Sh where
  readonly : List String
  other : Dict String → List Char → Dict String × List Command

def runFor (sh : Sh) : Nat → Dict String → List Char → Dict String × List Command
  | 0, env, text => if text = [] then (env, []) else sh.other env text
  | n + 1, env, text =>
    match readExport env text with
    | some (name, value, rest) =>
      if name ∈ sh.readonly then sh.other env text
      else ((runFor sh n (env.set name value) rest).1, .assign name value :: (runFor sh n (env.set name value) rest).2)
    | none => if text = [] then (env, []) else sh.other env text

def run (sh : Sh) (env : Dict String) (text : List Char) : Dict String × List Command := runFor sh text.length env text

/-! ## Texts that stand for themselves -/

def literal : List Char → Bool
  | [] => true
  | c :: cs => c ∉ ['"', '$', '`', '\x00'] && (c != '\\' || cs.head?.any (· ∉ escapable)) && literal cs

section Quoted
variable {env : Dict String} {c : Char} {cs tail value rest : List Char}

theorem quoted_skip (n : Nat) (cs : List Char) : quoted env n cs = quoted env 0 (cs.drop n) := by
  induction n generalizing cs with
  | zero => rfl
  | succ n ih =>
    cases cs with
    | nil => rfl
    | cons c cs => exact ih cs

theorem quoted_plain (hc : c ∉ ['"', '$', '`', '\x00']) (hb : c ≠ '\\') :
    quoted env 0 (c :: cs) = (quoted env 0 cs).map fun r => (c :: r.1, r.2) := by
  simp only [mem_cons, not_mem_nil, or_false, not_or] at hc
  rw [quoted, if_neg hc.1, if_neg (by simp [hc]), if_neg hc.2.1, if_neg hb]

theorem quoted_backslash : quoted env 0 ('\\' :: cs) = if cs.head? = some '\n' then quoted env 0 (cs.drop 1)
    else if cs.head?.any (· ∈ escapable) then (quoted env 0 (cs.drop 1)).map fun r => (cs.take 1 ++ r.1, r.2)
    else (quoted env 0 cs).map fun r => ('\\' :: r.1, r.2) := by
  rw [quoted, if_neg (by decide), if_neg (by decide), if_neg (by decide), if_pos rfl, quoted_skip]

theorem quoted_literal (h : literal cs = true) : quoted env 0 (cs ++ '"' :: tail) = some (cs, tail) := by
  induction cs with
  | nil => rfl
  | cons c cs ih =>
    rw [literal, Bool.and_eq_true, Bool.and_eq_true, decide_eq_true_eq] at h
    obtain ⟨⟨hc, hb⟩, hcs⟩ := h
    rw [cons_append]
    by_cases heq : c = '\\'
    · subst heq
      cases cs with
      | nil => simp at hb
      | cons d cs =>
        have hd : d ∉ escapable := by simpa using hb
        rw [quoted_backslash, if_neg, if_neg (by simpa using hd), ih hcs]
        · rfl
        · rintro hl
          cases hl
          exact hd (by decide)
    · rw [quoted_plain hc heq, ih hcs]
      rfl

/-! ## Other texts are changed -/

def Tame (env : Dict String) : Prop := ∀ name, '$' ∉ parameter env name ∧ '"' ∉ parameter env name

/-- What can become of a text: it is read as it stands; or its last backslash takes the closing quote, which is then
one quote too many; or a `$` is lost to a parameter, or at least a character to a backslash or an earlier quote. -/
def Reading (cs tail value rest : List Char) : Prop :=
  (literal cs = true ∧ value = cs ∧ rest = tail) ∨ cs.count '"' < value.count '"' ∨
    value.count '$' < cs.count '$' ∨ (value.count '$' ≤ cs.count '$' ∧ value.length < cs.length)

theorem Reading.append (h : Reading cs tail value rest) {read out : List Char} (hq : read.count '"' ≤ out.count '"')
    (hl : out.count '$' < read.count '$' ∨ (out.count '$' ≤ read.count '$' ∧ out.length < read.length)) :
    Reading (read ++ cs) tail (out ++ value) rest := by
  refine .inr ?_
  simp only [count_append, length_append]
  rcases h with ⟨-, rfl, -⟩ | h | h | h <;> omega

theorem Reading.cons (h : Reading cs tail value rest) (hl : literal cs = true → literal (c :: cs) = true) :
    Reading (c :: cs) tail (c :: value) rest := by
  rcases h with ⟨hcs, rfl, rfl⟩ | h
  · exact .inl ⟨hl hcs, rfl, rfl⟩
  · refine .inr ?_
    simp only [count_cons, length_cons]
    omega

theorem takeWhile_quote (cs tail : List Char) : (cs ++ '"' :: tail).takeWhile nameChar = cs.takeWhile nameChar := by
  induction cs with
  | nil => rfl
  | cons c cs ih => rw [cons_append, takeWhile_cons, takeWhile_cons, ih]

theorem count_takeWhile {c} (hc : nameChar c = false) (cs : List Char) : (cs.takeWhile nameChar).count c = 0 := by
  refine count_eq_zero.2 fun hmem => ?_
  rw [mem_takeWhile_imp hmem] at hc
  cases hc

theorem reading_quoted (henv : Tame env) (h : quoted env 0 (cs ++ '"' :: tail) = some (value, rest)) :
    Reading cs tail value rest := by
  induction hn : cs.length using Nat.strongRecOn generalizing cs value rest with
  | _ n ih =>
    subst hn
    cases cs with
    | nil =>
      cases h
      exact .inl ⟨rfl, rfl, rfl⟩
    | cons c cs =>
      rw [cons_append] at h
      by_cases hb : c = '\\'
      · subst hb
        rw [quoted_backslash] at h
        cases cs with
        | nil =>
          -- the closing quote is escaped
          obtain ⟨r, -, hr⟩ := Option.map_eq_some_iff.1 h
          cases hr
          exact .inr (.inl (by simp))
        | cons d cs =>
          have hs : cs.length < ('\\' :: d :: cs).length := Nat.lt_add_of_pos_right (Nat.succ_pos 1)
          split at h
          · rename_i hl
            cases hl
            exact @Reading.append _ _ _ _ (ih _ hs h rfl) ['\\', '\n'] [] (by decide) (by decide)
          · split at h
            · obtain ⟨r, hq, hr⟩ := Option.map_eq_some_iff.1 h
              cases hr
              refine @Reading.append _ _ _ _ (ih _ hs hq rfl) ['\\', d] [d] ?_ (.inr ⟨?_, Nat.lt_succ_self 1⟩)
              · simp [count_cons]
              · simp [count_cons]
            · rename_i hd
              obtain ⟨r, hq, hr⟩ := Option.map_eq_some_iff.1 h
              cases hr
              refine (ih _ (Nat.lt_succ_self _) hq rfl).cons fun hcs => ?_
              rw [literal, hcs]
              simpa using hd
      · by_cases hc : c ∈ ['"', '$', '`', '\x00']
        · simp only [mem_cons, not_mem_nil, or_false] at hc
          rcases hc with rfl | rfl | rfl | rfl
          · cases h
            exact .inr (.inr (.inr (by simp)))
          · rw [quoted, if_neg (by decide), if_neg (by decide), if_pos rfl, takeWhile_quote, quoted_skip] at h
            split at h
            · obtain ⟨r, hq, hr⟩ := Option.map_eq_some_iff.1 h
              cases hr
              have hna := prefix_append_drop ( takeWhile_prefix (l := cs) nameChar)
              rw [drop_append_of_le_length ( takeWhile_prefix _).length_le] at hq
              obtain ⟨hdo, hqu⟩ := henv (cs.takeWhile nameChar)
              have hs : (cs.drop (cs.takeWhile nameChar).length).length < ('$' :: cs).length := by
                rw [length_drop, length_cons]
                omega
              have hre := @Reading.append _ _ _ _ (ih _ hs hq rfl) ('$' :: cs.takeWhile nameChar)
                (parameter env (cs.takeWhile nameChar)) ?_ ?_
              · rwa [cons_append, ← hna] at hre
              · rw [count_cons_of_ne (by decide), count_takeWhile (by decide)]
                exact Nat.zero_le _
              · left
                rw [count_cons_self, count_eq_zero.2 hdo]
                exact Nat.succ_pos _
            · cases h
          · cases h
          · cases h
        · rw [quoted_plain hc hb] at h
          obtain ⟨r, hq, hr⟩ := Option.map_eq_some_iff.1 h
          cases hr
          refine (ih _ (Nat.lt_succ_self _) hq rfl).cons fun hcs => ?_
          rw [literal, hcs]
          simp [hc, hb]

theorem literal_of_quoted (henv : Tame env) (h : quoted env 0 (cs ++ '"' :: tail) = some (cs, rest)) :
    literal cs = true ∧ rest = tail := by
  rcases reading_quoted henv h with ⟨hcs, -, hr⟩ | h | h | ⟨-, h⟩
  · exact ⟨hcs, hr⟩
  all_goals exact absurd h (Nat.lt_irrefl _)

end Quoted

/-! ## Scripts -/

def exportLine (kv : String × String) : List Char :=
  keyword ++ (kv.1.toList ++ '=' :: '"' :: (kv.2.toList ++ ['"', '\n']))

section Run
variable {env : Dict String} {kv : String × String} {vars : List (String × String)} {n : Nat}

theorem nameChar_of_isName {name} (h : isName name = true) : ∀ c ∈ name, nameChar c = true := by
  cases name with
  | nil => cases h
  | cons c cs =>
    rw [isName, Bool.and_eq_true, all_eq_true] at h
    refine forall_mem_cons.2 ⟨?_, h.2⟩
    simp only [nameStart, nameChar, Char.isAlphanum, Bool.or_eq_true] at h ⊢
    exact h.1.imp_left .inl

theorem readExport_line (hn : isName kv.1.toList = true) (tail : List Char) : readExport env (exportLine kv ++ tail) =
      (quoted env 0 (kv.2.toList ++ '"' :: '\n' :: tail)).bind (endLine kv.1.toList) := by
  have hl : exportLine kv ++ tail = keyword ++ (kv.1.toList ++ '=' :: '"' :: (kv.2.toList ++ '"' :: '\n' :: tail)) := by
    simp [exportLine]
  have ht : (kv.1.toList ++ '=' :: '"' :: (kv.2.toList ++ '"' :: '\n' :: tail)).takeWhile nameChar = kv.1.toList := by
    have hend : ¬ nameChar '=' = true := by decide
    rw [takeWhile_append_of_pos (nameChar_of_isName hn), takeWhile_cons_of_neg hend, append_nil]
  rw [readExport, hl, if_pos ( isPrefixOf_iff_prefix.2 (prefix_append _ _))]
  simp only [drop_left, ht, if_pos hn]

theorem length_le_script (vars : List (String × String)) : vars.length ≤ (vars.flatMap exportLine).length := by
  induction vars with
  | nil => exact Nat.le_refl 0
  | cons kv vars ih =>
    rw [flatMap_cons, length_append, length_cons, exportLine, keyword, cons_append, length_cons]
    omega

/-- A script whose values stand for themselves assigns them and does nothing else. -/
theorem run_literal {sh : Sh} (hsh : ∀ kv ∈ vars, kv.1 ∉ sh.readonly) (hna : ∀ kv ∈ vars, isName kv.1.toList = true)
    (h : ∀ kv ∈ vars, literal kv.2.toList = true) (hn : vars.length ≤ n) :
    runFor sh n env (vars.flatMap exportLine) = (env.update vars, vars.map fun kv => .assign kv.1 kv.2) := by
  induction vars generalizing env n with
  | nil => cases n <;> rfl
  | cons kv vars ih =>
    rw [forall_mem_cons] at hsh hna h
    cases n with
    | zero => cases hn
    | succ n =>
      rw [flatMap_cons, runFor, readExport_line hna.1, quoted_literal h.1]
      simp only [Option.bind_some, endLine, String.ofList_toList, if_neg hsh.1, ih hsh.2 hna.2 h.2 (Nat.le_of_succ_le_succ hn)]
      rfl

theorem Tame.set (henv : Tame env) (h : literal kv.2.toList = true) : Tame (env.set kv.1 kv.2) := by
  intro name
  by_cases hn : String.ofList name = kv.1
  · rw [parameter, hn, Dict.get?_set_self, Option.getD_some]
    generalize kv.2.toList = cs at h
    induction cs with
    | nil => exact ⟨not_mem_nil, not_mem_nil⟩
    | cons c cs ih =>
      rw [literal, Bool.and_eq_true, Bool.and_eq_true, decide_eq_true_eq] at h
      simp only [mem_cons, not_mem_nil, or_false, not_or] at h ⊢
      exact ⟨⟨Ne.symm h.1.1.2.1, (ih h.2).1⟩, Ne.symm h.1.1.1, (ih h.2).2⟩
  · rw [parameter, Dict.get?_set_ne _ hn]
    exact henv name

/-- In a shell that runs some command for all other forms, a script that only assigns its values has no other forms,
and no value is changed on the way. -/
theorem literal_of_run (hn : ∀ kv ∈ vars, isName kv.1.toList = true) (henv : Tame env)
    (h : (runFor ⟨[], fun env text => (env, [.other (String.ofList text)])⟩ n env (vars.flatMap exportLine)).2 =
      vars.map fun kv => .assign kv.1 kv.2) : ∀ kv ∈ vars, literal kv.2.toList = true := by
  induction vars generalizing env n with
  | nil => exact nofun
  | cons kv vars ih =>
    rw [forall_mem_cons] at hn ⊢
    rw [flatMap_cons] at h
    cases n with
    | zero =>
      cases h
    | succ n =>
      rw [runFor, readExport_line hn.1] at h
      cases hr : (quoted env 0 (kv.2.toList ++ '"' :: '\n' :: vars.flatMap exportLine)).bind (endLine kv.1.toList) with
      | none =>
        rw [hr] at h
        cases h
      | some found =>
        rw [hr] at h
        obtain ⟨⟨value, rest⟩, hq, hend⟩ := Option.bind_eq_some_iff.1 hr
        unfold endLine at hend
        split at hend
        · rename_i value rest heq
          cases heq
          cases hend
          obtain ⟨hc, hre⟩ := cons.inj h
          obtain ⟨hna, hv⟩ := Command.assign.inj hc
          obtain rfl : kv.2.toList = value := by rw [← hv, String.toList_ofList]
          obtain ⟨hl, ht⟩ := literal_of_quoted henv hq
          obtain ⟨-, rfl⟩ := cons.inj ht
          rw [hna, hv] at hre
          exact ⟨hl, ih hn.2 (henv.set hl) hre⟩
        · cases hend

end Run

end Lib.Shell
