import Mathlib.Data.List.Basic
/-!
# Words

Splitting a text at blanks as a shell does with an unquoted expansion: blanks in a row
count as one, and no word is empty. `wordsAt sep` splits at `sep` as well, which a script
does by turning each `sep` into a blank before.
-/

open List

namespace Lib.Words

def blank (c : Char) : Bool := c = ' ' || c = '\t' || c = '\n'

def words (cs : List Char) : List (List Char) := (cs.splitOnP blank).filter (· ≠ [])

def blankOut (sep : Char) (cs : List Char) : List Char := cs.map fun c => if c = sep then ' ' else c

def wordsAt (sep : Char) (cs : List Char) : List (List Char) := words (blankOut sep cs)

def IsWord (w : List Char) : Prop := w ≠ [] ∧ ∀ c ∈ w, blank c = false

-- the members of `w` are looked at, not all characters
instance (w : List Char) : Decidable (IsWord w) := @instDecidableAnd _ _ inferInstance (decidableBAll _ w)

/-! ## What words are made of -/

variable {cs w : List Char} {sep : Char} {ws : List (List Char)}

theorem of_mem_splitOnP {p} (h : w ∈ cs.splitOnP p) : ∀ c ∈ w, c ∈ cs ∧ p c = false := by
  induction cs generalizing w with
  | nil =>
    rw [splitOnP_nil, mem_singleton] at h
    subst h
    exact nofun
  | cons a cs ih =>
    rw [splitOnP_cons_eq_if_modifyHead] at h
    intro c hc
    split at h
    · rcases mem_cons.1 h with rfl | h
      · cases hc
      · exact (ih h c hc).imp_left (mem_cons_of_mem a)
    · rename_i ha
      -- only the first part grows
      cases hs : cs.splitOnP p with
      | nil =>
        rw [hs] at h
        cases h
      | cons first rest =>
        rw [hs, modifyHead_cons, mem_cons] at h
        rw [hs] at ih
        rcases h with rfl | h
        · rcases mem_cons.1 hc with rfl | hc
          · exact ⟨mem_cons_self, Bool.not_eq_true _ ▸ ha⟩
          · exact (ih mem_cons_self c hc).imp_left (mem_cons_of_mem a)
        · exact (ih (mem_cons_of_mem _ h) c hc).imp_left (mem_cons_of_mem a)

theorem isWord_of_mem (h : w ∈ words cs) : IsWord w := by
  obtain ⟨hw, hne⟩ := mem_filter.1 h
  exact ⟨of_decide_eq_true hne, fun c hc => (of_mem_splitOnP hw c hc).2⟩

theorem of_mem_wordsAt (h : w ∈ wordsAt sep cs) : ∀ c ∈ w, c ∈ cs ∧ c ≠ sep := by
  intro c hc
  have hb := (isWord_of_mem h).2 c hc
  obtain ⟨hmem, -⟩ := of_mem_splitOnP (mem_filter.1 h).1 c hc
  obtain ⟨d, hd, hdc⟩ := mem_map.1 hmem
  split at hdc
  · subst hdc
    cases hb
  · rename_i hne
    exact ⟨hdc ▸ hd, hdc ▸ hne⟩

/-! ## Joined words -/

theorem words_of_isWord (h : IsWord w) : words w = [w] := by
  rw [words, splitOnP_eq_singleton h.2]
  exact filter_cons_of_pos (decide_eq_true h.1)

theorem words_append_blank {c} (h : blank c = true) (xs ys : List Char) :
    words (xs ++ c :: ys) = words xs ++ words ys := by
  rw [words, splitOnP_append_cons _ _ h, filter_append]
  rfl

theorem blankOut_of_not_mem (h : sep ∉ w) : blankOut sep w = w := by
  have hmap : w.map (fun c => if c = sep then ' ' else c) = w.map id :=
    map_congr_left fun c hc => if_neg fun (heq : c = sep) => h (heq ▸ hc)
  exact hmap.trans (map_id w)

/-- Words joined with a separator that is in none of them are read back. -/
theorem wordsAt_intercalate (h : ∀ w ∈ ws, IsWord w ∧ sep ∉ w) : wordsAt sep ([sep].intercalate ws) = ws := by
  induction ws with
  | nil => rfl
  | cons w ws ih =>
    rw [forall_mem_cons] at h
    have hw : wordsAt sep w = [w] := by
      rw [wordsAt, blankOut_of_not_mem h.1.2]
      exact words_of_isWord h.1.1
    cases ws with
    | nil => rw [intercalate_singleton, hw]
    | cons v ws =>
      have hj : blankOut sep (w ++ [sep] ++ [sep].intercalate (v :: ws)) =
          blankOut sep w ++ ' ' :: blankOut sep ([sep].intercalate (v :: ws)) := by
        simp [blankOut]
      rw [intercalate_cons_cons, wordsAt, hj, words_append_blank (by decide)]
      rw [wordsAt] at hw ih
      rw [hw, ih h.2]
      rfl

theorem mem_intercalate {c} (h : c ∈ [sep].intercalate ws) : c = sep ∨ ∃ w ∈ ws, c ∈ w := by
  induction ws with
  | nil => cases h
  | cons w ws ih =>
    cases ws with
    | nil =>
      rw [intercalate_singleton] at h
      exact .inr ⟨w, mem_cons_self, h⟩
    | cons v ws =>
      rw [intercalate_cons_cons, append_assoc, mem_append, singleton_append, mem_cons] at h
      rcases h with h | h | h
      · exact .inr ⟨w, mem_cons_self, h⟩
      · exact .inl h
      · exact (ih h).imp_right fun ⟨u, hu, hc⟩ => ⟨u, mem_cons_of_mem _ hu, hc⟩

/-- Words joined with something that is no blank are one word. -/
theorem isWord_intercalate (hs : blank sep = false) (hne : ws ≠ []) (h : ∀ w ∈ ws, IsWord w) : IsWord ([sep].intercalate ws) := by
  constructor
  · cases ws with
    | nil => exact absurd rfl hne
    | cons w ws =>
      have hw := (h w mem_cons_self).1
      cases ws with
      | nil => rwa [intercalate_singleton]
      | cons v ws =>
        exact fun heq => hw (append_eq_nil_iff.1 heq).1
  · intro c hc
    rcases mem_intercalate hc with rfl | ⟨w, hw, hc⟩
    · exact hs
    · exact (h w hw).2 c hc

theorem append_sep_inj {α : Type} {sep : α} {xs xs' ys ys'} (h : sep ∉ xs) (h' : sep ∉ xs')
    (heq : xs ++ sep :: ys = xs' ++ sep :: ys') : xs = xs' ∧ ys = ys' := by
  induction xs generalizing xs' with
  | nil =>
    cases xs' with
    | nil => exact ⟨rfl, (cons.inj heq).2⟩
    | cons x xs' => exact absurd ((cons.inj heq).1 ▸ mem_cons_self) h'
  | cons x xs ih =>
    cases xs' with
    | nil => exact absurd ((cons.inj heq).1 ▸ mem_cons_self) h
    | cons x' xs' =>
      obtain ⟨rfl, hr⟩ := cons.inj heq
      obtain ⟨rfl, rfl⟩ := ih (fun hmem => h (.tail _ hmem)) (fun hmem => h' (.tail _ hmem)) hr
      exact ⟨rfl, rfl⟩

/-! ## Numbers -/

theorem toString_inj {i j : Nat} (h : toString i = toString j) : i = j := by
  have hd := congrArg (fun s : String => Nat.ofDigitChars 10 s.toList 0) h
  simpa [Nat.toString_eq_repr, Nat.toList_repr, Nat.ofDigitChars_ten_toDigits] using hd

end Lib.Words
