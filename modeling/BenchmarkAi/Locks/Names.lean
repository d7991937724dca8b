import Mathlib.Data.List.Infix
/-!
# Lock node names

A lock request creates the node `readlock-` or `writelock-` in the directory of
the locked path, and ZooKeeper appends a sequence number of ten digits or more.
The lock manager reads the number and the kind back from the name. We prove that
it reads what ZooKeeper wrote.
-/

open List

namespace BenchmarkAi.Locks

inductive Kind
  | read | write
deriving DecidableEq, Repr

def suffix : Kind → String
  | .read => "readlock-"
  | .write => "writelock-"

def absPath (parent child : String) : String := parent ++ "/" ++ child

def sequenceDigits (n : Nat) : List Char :=
  replicate (10 - (Nat.toDigits 10 n).length) '0' ++ Nat.toDigits 10 n

def childName (k : Kind) (n : Nat) : String := suffix k ++ String.ofList (sequenceDigits n)

def nodePath (dir : String) (k : Kind) (n : Nat) : String := absPath dir (childName k n)

/-! ## Reading a name -/

def digitsOk : List Char → Bool
  | [] => false
  | [c] => c.isDigit
  | c :: '_' :: cs => c.isDigit && digitsOk cs
  | c :: cs => c.isDigit && digitsOk cs

/-- Python's `int` of a text without a minus sign; `none` is its `ValueError`. -/
def pyInt (cs : List Char) : Option Nat :=
  let cs := ((cs.dropWhile (·.isWhitespace)).reverse.dropWhile (·.isWhitespace)).reverse
  let cs := if cs.head? = some '+' then cs.tail else cs
  if digitsOk cs then some (Nat.ofDigitChars 10 (cs.filter (· ≠ '_')) 0) else none

/-- `get_sequence_index`: the number after the last dash. The text read as a
number has no dash, so no minus sign. -/
def getSequenceIndex (path : String) : Option Nat :=
  if '-' ∈ path.toList then pyInt (path.toList.reverse.takeWhile (· ≠ '-')).reverse else none

def incompatibleWithRead (node_path : String) : Bool := decide ("writelock-".toList <:+: node_path.toList)

def incompatibleWithWrite (_node_path : String) : Bool := true

def isIncompat : Kind → String → Bool
  | .read => incompatibleWithRead
  | .write => incompatibleWithWrite

def Incompat (k k' : Kind) : Prop := k = .write ∨ k' = .write

instance (k k' : Kind) : Decidable (Incompat k k') := inferInstanceAs (Decidable (_ ∨ _))

variable {k k' : Kind} {n n' : Nat} {c : Char} {cs : List Char} {dir : String}

theorem incompat_symm (h : Incompat k k') : Incompat k' k := h.symm

/-! ## What was written is read back -/

theorem isDigit_sequenceDigits (h : c ∈ sequenceDigits n) : c.isDigit = true := by
  rcases mem_append.1 h with h | h
  · rw [eq_of_mem_replicate h]; decide
  · exact Nat.isDigit_of_mem_toDigits (by decide) (by decide) h

theorem sequenceDigits_ne_nil (n : Nat) : sequenceDigits n ≠ [] := by
  simp [sequenceDigits, Nat.toDigits_ne_nil]

theorem digitsOk_of_digits (hne : cs ≠ []) (h : ∀ c ∈ cs, c.isDigit = true) : digitsOk cs = true := by
  induction cs with
  | nil => exact absurd rfl hne
  | cons c cs ih =>
    cases cs with
    | nil => simpa [digitsOk] using h c
    | cons d ds =>
      have hd : d ≠ '_' := fun e => by simpa [e] using h d (by simp)
      rw [digitsOk]
      · rw [h c (by simp), ih (by simp) fun x hx => h x (mem_cons_of_mem _ hx)]; rfl
      · simp
      · intro cs' e; exact hd (cons.inj e).1

theorem not_isWhitespace_of_isDigit (h : c.isDigit = true) : c.isWhitespace = false := by
  simp only [Char.isWhitespace, Bool.or_eq_false_iff, decide_eq_false_iff_not]
  refine ⟨⟨⟨?_, ?_⟩, ?_⟩, ?_⟩ <;> rintro rfl <;> exact absurd h (by decide)

theorem dropWhile_of_digits (h : ∀ c ∈ cs, c.isDigit = true) : cs.dropWhile (·.isWhitespace) = cs := by
  cases cs with
  | nil => rfl
  | cons c cs => simp [dropWhile, not_isWhitespace_of_isDigit (h c (by simp))]

theorem pyInt_of_digits (hne : cs ≠ []) (h : ∀ c ∈ cs, c.isDigit = true) : pyInt cs = some (Nat.ofDigitChars 10 cs 0) := by
  have hr : ∀ c ∈ cs.reverse, c.isDigit = true := fun c hc => h c (mem_reverse.1 hc)
  have hp : cs.head? ≠ some '+' := fun e => by
    have := h '+' (mem_of_head? e)
    exact absurd this (by decide)
  have hu : cs.filter (· ≠ '_') = cs := filter_eq_self.2 fun c hc => by
    have : c ≠ '_' := fun e => absurd (e ▸ h c hc) (by decide)
    simpa using this
  simp only [pyInt, dropWhile_of_digits h, dropWhile_of_digits hr, reverse_reverse, if_neg hp,
    digitsOk_of_digits hne h, if_true, hu]

theorem ofDigitChars_sequenceDigits (n : Nat) : Nat.ofDigitChars 10 (sequenceDigits n) 0 = n := by
  rw [sequenceDigits, Nat.ofDigitChars_append, Nat.ofDigitChars_replicate_zero, Nat.mul_zero,
    Nat.ofDigitChars_ten_toDigits]

theorem getSequenceIndex_dash (s : String) (n : Nat) :
    getSequenceIndex (s ++ "-" ++ String.ofList (sequenceDigits n)) = some n := by
  have hd : ∀ c ∈ (sequenceDigits n).reverse, (decide (c ≠ '-')) = true := fun c hc => by
    have : c ≠ '-' := fun e => absurd (e ▸ isDigit_sequenceDigits (mem_reverse.1 hc)) (by decide)
    simpa using this
  have hl : (s ++ "-" ++ String.ofList (sequenceDigits n)).toList = s.toList ++ '-' :: sequenceDigits n := by simp
  have ht : ((s.toList ++ '-' :: sequenceDigits n).reverse.takeWhile (· ≠ '-')).reverse = sequenceDigits n := by
    rw [reverse_append, reverse_cons, append_assoc, takeWhile_append_of_pos hd]
    simp
  rw [getSequenceIndex, hl, if_pos (by simp), ht, pyInt_of_digits (sequenceDigits_ne_nil n)
    fun c hc => isDigit_sequenceDigits hc, ofDigitChars_sequenceDigits]

theorem getSequenceIndex_childName (k : Kind) (n : Nat) : getSequenceIndex (childName k n) = some n := by
  cases k
  · exact getSequenceIndex_dash "readlock" n
  · exact getSequenceIndex_dash "writelock" n

theorem getSequenceIndex_nodePath (dir : String) (k : Kind) (n : Nat) :
    getSequenceIndex (nodePath dir k n) = some n := by
  have h : ∀ s, nodePath dir k n = s ++ "-" ++ String.ofList (sequenceDigits n) →
      getSequenceIndex (nodePath dir k n) = some n := fun s e => e ▸ getSequenceIndex_dash s n
  cases k
  · exact h (dir ++ "/" ++ "readlock") (by simp [nodePath, absPath, childName, suffix, ← String.toList_inj])
  · exact h (dir ++ "/" ++ "writelock") (by simp [nodePath, absPath, childName, suffix, ← String.toList_inj])

theorem toList_childName (k : Kind) (n : Nat) : (childName k n).toList = (suffix k).toList ++ sequenceDigits n := by
  simp [childName]

theorem incompatibleWithRead_write (n : Nat) : incompatibleWithRead (childName .write n) = true :=
  decide_eq_true ⟨[], sequenceDigits n, (toList_childName .write n).symm⟩

theorem incompatibleWithRead_read (n : Nat) : incompatibleWithRead (childName .read n) = false := by
  refine decide_eq_false fun ⟨a, b, h⟩ => ?_
  have hw : 'w' ∈ (childName .read n).toList := by
    rw [← h]
    exact mem_append_left _ (mem_append_right _ (by simp))
  rw [toList_childName, mem_append] at hw
  rcases hw with hw | hw
  · simp [suffix] at hw
  · have hd : 'w'.isDigit = true := isDigit_sequenceDigits hw
    simp at hd

theorem isIncompat_childName (k k' : Kind) (n : Nat) : isIncompat k (childName k' n) = decide (Incompat k k') := by
  cases k with
  | write => simp [isIncompat, incompatibleWithWrite, Incompat]
  | read =>
    cases k' with
    | write => simp [isIncompat, incompatibleWithRead_write, Incompat]
    | read => simp [isIncompat, incompatibleWithRead_read, Incompat]

theorem childName_inj (h : childName k n = childName k' n') : k = k' ∧ n = n' := by
  have hn : n = n' := by
    have := congrArg getSequenceIndex h
    simpa [getSequenceIndex_childName] using this
  refine ⟨?_, hn⟩
  cases k <;> cases k' <;> simp_all [childName, suffix]

theorem absPath_inj {c c'} (h : absPath dir c = absPath dir c') : c = c' := by
  have := congrArg String.toList h
  simp only [absPath, String.toList_append, append_cancel_left_eq] at this
  exact String.toList_inj.1 this

theorem nodePath_inj (h : nodePath dir k n = nodePath dir k' n') : k = k' ∧ n = n' := childName_inj (absPath_inj h)

end BenchmarkAi.Locks
