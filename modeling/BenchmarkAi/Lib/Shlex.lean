import Mathlib.Data.List.Basic
/-!
# Splitting a command into words

Python's `shlex.split`, in POSIX mode and without comments: blanks separate words, quotes keep
them, and a backslash takes the next character as it is, between double quotes only a quote or
another backslash.
-/

namespace Lib.Shlex

def blank (c : Char) : Bool := c = ' ' || c = '\t' || c = '\r' || c = '\n'

def isQuote (c : Char) : Bool := c = '\'' || c = '"'

/-- Where the scanner is, with the token so far. A backslash was read inside the quotes `back`, or
outside of quotes. -/
inductive Scanner
  | out
  | word (token : List Char)
  | quote (q : Char) (token : List Char)
  | escape (back : Option Char) (token : List Char)

def scan : Scanner → List Char → Option (List (List Char))
  | .out, [] => some []
  | .out, c :: cs =>
    if blank c then scan .out cs
    else if isQuote c then scan (.quote c []) cs
    else if c = '\\' then scan (.escape none []) cs
    else scan (.word [c]) cs
  | .word token, [] => some [token]
  | .word token, c :: cs =>
    if blank c then (scan .out cs).map (token :: ·)
    else if isQuote c then scan (.quote c token) cs
    else if c = '\\' then scan (.escape none token) cs
    else scan (.word (token ++ [c])) cs
  | .quote _ _, [] => none
  | .quote q token, c :: cs =>
    if c = q then scan (.word token) cs
    else if c = '\\' ∧ q = '"' then scan (.escape (some q) token) cs
    else scan (.quote q (token ++ [c])) cs
  | .escape _ _, [] => none
  | .escape none token, c :: cs => scan (.word (token ++ [c])) cs
  | .escape (some q) token, c :: cs =>
    if c = '\\' ∨ c = q then scan (.quote q (token ++ [c])) cs
    else scan (.quote q (token ++ ['\\', c])) cs

def split (text : String) : Option (List String) := (scan .out text.toList).map (·.map String.ofList)

theorem scan_ne_nil {st} (h : st ≠ .out) (cs : List Char) : scan st cs ≠ some [] := by
  induction cs generalizing st with
  | nil => cases st <;> simp_all [scan]
  | cons c cs ih =>
    cases st with
    | out => exact absurd rfl h
    | word token =>
      rw [scan]
      split
      · simp
      · split
        · exact ih (by simp)
        · split
          · exact ih (by simp)
          · exact ih (by simp)
    | quote q token =>
      rw [scan]
      split
      · exact ih (by simp)
      · split
        · exact ih (by simp)
        · exact ih (by simp)
    | escape back token =>
      cases back with
      | none => exact ih (by simp)
      | some q =>
        rw [scan]
        split
        · exact ih (by simp)
        · exact ih (by simp)

/-- Only blanks make no word. -/
theorem scan_eq_nil_iff (cs : List Char) : scan .out cs = some [] ↔ ∀ c ∈ cs, blank c = true := by
  induction cs with
  | nil => simp [scan]
  | cons c cs ih =>
    rw [scan, List.forall_mem_cons]
    split
    · rename_i hc
      simp [ih, hc]
    · rename_i hc
      refine iff_of_false ?_ fun hall => hc hall.1
      split
      · exact scan_ne_nil (by simp) cs
      · split
        · exact scan_ne_nil (by simp) cs
        · exact scan_ne_nil (by simp) cs

theorem split_eq_nil_iff (text : String) : split text = some [] ↔ ∀ c ∈ text.toList, blank c = true := by
  rw [← scan_eq_nil_iff, split]
  simp

example : split "python train.py --name 'a b' \"c\\\"d\"" = some ["python", "train.py", "--name", "a b", "c\"d"] := by
  decide +kernel

example : split "echo a\\" = none := by decide +kernel

end Lib.Shlex
