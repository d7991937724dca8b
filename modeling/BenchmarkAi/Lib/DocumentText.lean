import BenchmarkAi.Lib.Document
/-!
# The characters of a JSON document

The text of a document has only printable characters, so that a YAML loader reads it back when
it stands in double quotes.
-/

namespace Lib.Dacite.Data

open List
open Json (quote escape)

/-! ## Induction over documents -/

theorem forall_data {P : Data → Prop} (ha : ∀ d, (∀ ds, d ≠ .arr ds) → (∀ fs, d ≠ .obj fs) → P d)
    (harr : ∀ ds, (∀ d ∈ ds, P d) → P (.arr ds)) (hobj : ∀ fs : List (String × Data), (∀ f ∈ fs, P f.2) → P (.obj fs)) :
    ∀ d, P d
  | .arr ds => harr ds fun d _ => forall_data ha harr hobj d
  | .obj fs => hobj fs fun (_, d) _ => forall_data ha harr hobj d
  | .null | .bool _ | .int _ | .float _ | .str _ => ha _ nofun nofun
termination_by d => sizeOf d
decreasing_by
  · have := sizeOf_lt_of_mem ‹d ∈ ds›
    simp
    omega
  · have := sizeOf_lt_of_mem ‹(_, d) ∈ fs›
    simp at this ⊢
    omega

/-! ## The characters of a text -/

def Printable (c : Char) : Prop := ' ' ≤ c ∧ c ≤ '~'

instance (c : Char) : Decidable (Printable c) := inferInstanceAs (Decidable (_ ∧ _))

variable {c : Char} {s : String} {P : Char → Prop} {ts : List (List Char)} {cs : List Char}

theorem printable_escapeChars (h : c ∈ Json.escapeChars) : Printable c := by
  have hall : Json.escapeChars.all (Printable ·) = true := by decide
  exact of_decide_eq_true (all_eq_true.1 hall c h)

theorem printable_escape {d} (h : d ∈ escape c) : Printable d := by
  unfold escape at h
  split at h
  · rename_i e he
    simp only [mem_cons, not_mem_nil, or_false] at h
    rcases h with rfl | rfl
    · decide
    · exact printable_escapeChars (Json.shortEscapes_mem _ (mem_of_lookup he)).1
  · split at h
    · rename_i hp
      exact mem_singleton.1 h ▸ hp
    · obtain ⟨n, -, h⟩ := mem_flatMap.1 h
      simp only [Json.hex4, mem_cons, not_mem_nil, or_false] at h
      rcases h with rfl | rfl | rfl | rfl | rfl | rfl
      · decide
      · decide
      all_goals exact printable_escapeChars (Json.hexDigit_mem _)

theorem printable_quote (h : c ∈ quote s) : Printable c := by
  simp only [quote, cons_append, mem_cons, mem_append, mem_flatMap, not_mem_nil, or_false] at h
  rcases h with rfl | ⟨d, -, h⟩ | rfl
  · decide
  · exact printable_escape h
  · decide

theorem printable_numberChar (h : numberChar c = true) : Printable c := by
  rw [numberChar, Bool.or_eq_true] at h
  rcases h with h | h
  · have hd : 48 ≤ c.toNat ∧ c.toNat ≤ 57 := by
      simp only [Char.isDigit, Bool.and_eq_true, decide_eq_true_eq] at h
      exact h
    exact ⟨show 32 ≤ c.toNat by omega, show c.toNat ≤ 126 by omega⟩
  · have hall : "+-.eE".toList.all (Printable ·) = true := by decide
    exact of_decide_eq_true (all_eq_true.1 hall c (by simpa using h))

theorem floatText_chars (h : FloatText s) (hn : ∀ c, numberChar c = true → P c) (hl : ∀ c ∈ "NaInfity".toList, P c) :
    ∀ c ∈ s.toList, P c := by
  rcases h with h | ⟨hall, -, -⟩
  · have hm := hn '-' rfl
    simp only [mem_cons, not_mem_nil, or_false] at h
    rcases h with rfl | rfl | rfl <;> simp_all
  · exact fun c hc => hn c (all_eq_true.1 hall c hc)

/-- What all characters of the parts have, and the separators. -/
theorem forall_joined (h : ∀ t ∈ ts, ∀ c ∈ t, P c) (hco : P ',') (hb : P ' ') : ∀ c ∈ joined ts, P c := by
  induction ts with
  | nil => simp [joined]
  | cons t ts ih =>
    rw [forall_mem_cons] at h
    cases ts with
    | nil => exact h.1
    | cons u ts =>
      intro c hc
      rw [joined_cons, mem_append, mem_cons, mem_cons] at hc
      rcases hc with hc | rfl | rfl | hc
      · exact h.1 c hc
      · exact hco
      · exact hb
      · exact ih h.2 c hc

theorem printable_of_all (h : cs.all (Printable ·) = true) : ∀ c ∈ cs, Printable c :=
  fun c hc => of_decide_eq_true (all_eq_true.1 h c hc)

theorem printable_dump (d : Data) (h : d.proper = true) : ∀ c ∈ d.dump, Printable c := by
  revert h
  refine forall_data (P := fun d => d.proper = true → ∀ c ∈ d.dump, Printable c) ?_ ?_ ?_ d
  · intro d harr hobj h
    cases d with
    | null => exact printable_of_all (by decide)
    | bool b => cases b <;> exact printable_of_all (by decide)
    | int n => exact fun c hc => printable_numberChar (numberChar_dumpInt hc)
    | float s =>
      exact floatText_chars (by simpa [proper] using h) (fun c => printable_numberChar) (printable_of_all (by decide))
    | str s => exact fun c => printable_quote
    | arr ds => exact absurd rfl (harr ds)
    | obj fs => exact absurd rfl (hobj fs)
  · intro ds ih h c hc
    have hi := properItems_iff.1 (show properItems ds = true from h)
    rw [dump, dumpItems_eq, cons_append, mem_cons, mem_append, mem_singleton] at hc
    rcases hc with rfl | hc | rfl
    · decide
    · refine forall_joined (fun t ht => ?_) (by decide) (by decide) c hc
      obtain ⟨d, hd, rfl⟩ := mem_map.1 ht
      exact ih d hd (hi d hd)
    · decide
  · intro fs ih h c hc
    rw [proper, Bool.and_eq_true] at h
    rw [dump, dumpFields_eq, cons_append, mem_cons, mem_append, mem_singleton] at hc
    rcases hc with rfl | hc | rfl
    · decide
    · refine forall_joined (fun t ht => ?_) (by decide) (by decide) c hc
      obtain ⟨f, hf, rfl⟩ := mem_map.1 ht
      intro c hc
      rw [dumpField, mem_append, mem_cons, mem_cons] at hc
      rcases hc with hc | rfl | rfl | hc
      · exact printable_quote hc
      · decide
      · decide
      · exact ih f hf (properFields_iff.1 h.2 f hf) c hc
    · decide

/-! ## A text in quotes in a YAML text -/

theorem double_escape (h : Printable c) {s rest} (hcs : Scalar.double cs = some (s, rest)) :
    Scalar.double (escape c ++ cs) = some (c :: s, rest) := by
  unfold escape
  split
  · rename_i e he
    obtain ⟨hb, -, -⟩ := Json.unescape_shortEscapes _ (mem_of_lookup he)
    change Scalar.double ('\\' :: e :: cs) = _
    rw [Scalar.double, hb, hcs]
    rfl
  · rename_i hn
    rw [if_pos (show ' ' ≤ c ∧ c ≤ '~' from h)]
    change Scalar.double (c :: cs) = _
    rw [Scalar.double, hcs]
    · rfl
    · rintro rfl
      cases hn
    · rintro e ds rfl
      cases hn

theorem double_escapes {s : List Char} (h : ∀ c ∈ s, Printable c) (rest : List Char) :
    Scalar.double (s.flatMap escape ++ '"' :: rest) = some (s, rest) := by
  induction s with
  | nil => rfl
  | cons c s ih =>
    rw [forall_mem_cons] at h
    rw [flatMap_cons, append_assoc]
    exact double_escape h.1 (ih h.2)

/-- A string in JSON is read by a YAML loader as well, if its characters are printable: others have
escapes that are not those of YAML. -/
theorem read_quote (h : ∀ c ∈ s.toList, Printable c) : Scalar.read (String.ofList (quote s)) = some (.str s) := by
  have hch : (quote s).all Scalar.plainChar = true := by
    refine all_eq_true.2 fun c hc => ?_
    obtain ⟨hlow, hh⟩ := printable_quote hc
    have hle : 32 ≤ c.toNat ∧ c.toNat ≤ 126 := ⟨hlow, hh⟩
    simp [Scalar.plainChar, hle.1, hle.2]
  have hd := double_escapes h []
  rw [Scalar.read, String.toList_ofList, hch]
  change (Scalar.double (s.toList.flatMap escape ++ ['"']) >>= _) = _
  rw [hd]
  simp

end Lib.Dacite.Data
