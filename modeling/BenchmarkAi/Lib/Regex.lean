import Mathlib.Data.List.Basic
/-!
# Regular expressions with backtracking

An expression is read from the current position on. Its meaning is the list of
the rests of the text at which a match of it can end, in the order in which a
backtracking matcher tries them, so a full match exists if the empty rest is one
of them.
-/

open List

namespace Lib

inductive Regex
  | char (cls : Char → Bool)
  /-- A greedy repetition of a class, without an upper bound for `none`. -/
  | many (cls : Char → Bool) (min : Nat) (max : Option Nat)
  | seq (r r' : Regex)
  | opt (r : Regex)
  | ahead (r : Regex)
  /-- `$`: at the end, or before a newline at the end. -/
  | dollar

def manyRests (cls : Char → Bool) (min : Nat) (max : Option Nat) (text : List Char) : List (List Char) :=
  (match text with
    | [] => []
    | c :: cs => if cls c ∧ max ≠ some 0 then manyRests cls (min - 1) (max.map (· - 1)) cs else []) ++
  if min = 0 then [text] else []

namespace Regex

def rests : Regex → List Char → List (List Char)
  | char cls, text =>
    match text with
    | [] => []
    | c :: cs => if cls c then [cs] else []
  | many cls min max, text => manyRests cls min max text
  | seq r r', text => (r.rests text).flatMap r'.rests
  | opt r, text => r.rests text ++ [text]
  | ahead r, text => if r.rests text = [] then [] else [text]
  | dollar, text => if text = [] ∨ text = ['\n'] then [text] else []

def fullmatch (r : Regex) (text : String) : Bool := decide ([] ∈ r.rests text.toList)

/-! ## Where a match can end -/

variable {text rest : List Char} {cls : Char → Bool} {r r' : Regex}

theorem mem_char : rest ∈ (char cls).rests text ↔ ∃ c, text = c :: rest ∧ cls c = true := by
  cases text with
  | nil => simp [rests]
  | cons c cs =>
    by_cases hc : cls c = true
    · simp [rests, hc, @eq_comm _ rest]
    · simp [rests, hc]

theorem mem_manyRests {min max} : rest ∈ manyRests cls min max text ↔
      ∃ u, text = u ++ rest ∧ (∀ c ∈ u, cls c = true) ∧ min ≤ u.length ∧ ∀ m ∈ max, u.length ≤ m := by
  induction text generalizing min max with
  | nil =>
    simp only [manyRests, nil_append, mem_ite_nil_right, mem_singleton]
    constructor
    · rintro ⟨rfl, rfl⟩
      exact ⟨[], rfl, nofun, Nat.le_refl 0, fun _ _ => Nat.zero_le _⟩
    · rintro ⟨u, hu, -, hmin, -⟩
      obtain ⟨rfl, rfl⟩ := append_eq_nil_iff.1 hu.symm
      exact ⟨Nat.le_zero.1 hmin, rfl⟩
  | cons c cs ih =>
    simp only [manyRests, mem_append, mem_ite_nil_right, mem_singleton, ih]
    constructor
    · rintro (⟨⟨hc, hpos⟩, u, rfl, hall, hmin, hmax⟩ | ⟨rfl, rfl⟩)
      · refine ⟨c :: u, rfl, forall_mem_cons.2 ⟨hc, hall⟩, by simp only [length_cons]; omega, fun m hm => ?_⟩
        have hne : m ≠ 0 := fun e => hpos (e ▸ hm)
        have hle := hmax (m - 1) (by rw [Option.mem_def.1 hm]; rfl)
        simp only [length_cons]
        omega
      · exact ⟨[], rfl, nofun, Nat.le_refl 0, fun _ _ => Nat.zero_le _⟩
    · rintro ⟨u, hu, hall, hmin, hmax⟩
      cases u with
      | nil => exact .inr ⟨Nat.le_zero.1 hmin, hu.symm⟩
      | cons d u =>
        obtain ⟨rfl, rfl⟩ := cons.inj hu
        obtain ⟨hd, hall⟩ := forall_mem_cons.1 hall
        refine .inl ⟨⟨hd, fun h => Nat.not_succ_le_zero _ (hmax 0 h)⟩, u, rfl, hall, Nat.sub_le_of_le_add hmin, fun m hm => ?_⟩
        obtain ⟨n, hn, rfl⟩ := Option.map_eq_some_iff.1 hm
        exact Nat.le_sub_one_of_lt (hmax n hn)

theorem mem_seq : rest ∈ (seq r r').rests text ↔ ∃ mid ∈ r.rests text, rest ∈ r'.rests mid := mem_flatMap

theorem mem_opt : rest ∈ (opt r).rests text ↔ rest ∈ r.rests text ∨ rest = text := by
  rw [rests, mem_append, mem_singleton]

theorem mem_ahead : rest ∈ (ahead r).rests text ↔ rest = text ∧ ∃ mid, mid ∈ r.rests text := by
  rw [rests]
  split
  · rename_i h
    simp [h]
  · rename_i h
    simp [exists_mem_of_ne_nil _ h]

theorem mem_dollar : rest ∈ dollar.rests text ↔ rest = text ∧ (text = [] ∨ text = ['\n']) := by
  rw [rests]
  split <;> simp_all

end Regex

end Lib
