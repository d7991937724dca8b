import BenchmarkAi.Lib.Regex
import BenchmarkAi.Transpiler.Contents
/-!
# The grammar of custom labels

`LABEL_VALIDATION_REGEX` bounds the length in a lookahead, where `.` stops at a
newline and `$` also stands before a last newline, and the rest of the
expression says what the characters are. We prove that a full match means a
Kubernetes name, and that a descriptor is refused exactly for a label that is
none.
-/

open Lib List

namespace BenchmarkAi.Transpiler

def labelValidationRegex : Regex :=
  .seq (.ahead (.seq (.many (· ≠ '\n') 1 (some 63)) .dollar))
    (.seq (.opt (.seq (.char Char.isAlphanum) (.many labelChar 0 none))) (.char Char.isAlphanum))

structure KubernetesName (s : String) : Prop where
  length : 1 ≤ s.length ∧ s.length ≤ 63
  first : ∀ c ∈ s.toList.head?, c.isAlphanum = true
  last : ∀ c ∈ s.toList.getLast?, c.isAlphanum = true
  between : ∀ c ∈ s.toList.tail.dropLast, labelChar c = true

variable {cs : List Char} {s : String}

theorem labelChar_of_isAlphanum {c : Char} (h : c.isAlphanum = true) : labelChar c = true := by
  rw [labelChar, h]
  rfl

theorem labelBody_iff : labelBody cs = true ↔ (∃ d, cs = [d] ∧ d.isAlphanum = true) ∨
    ∃ c u d, cs = c :: (u ++ [d]) ∧ c.isAlphanum = true ∧ (∀ x ∈ u, labelChar x = true) ∧ d.isAlphanum = true := by
  match cs with
  | [] => simp [labelBody]
  | [c] => simp [labelBody]
  | c :: e :: cs =>
    obtain ⟨u, d, hud⟩ : ∃ u d, e :: cs = u ++ [d] := ⟨_, _, (dropLast_append_getLast (cons_ne_nil e cs)).symm⟩
    rw [labelBody, hud]
    · simp only [dropLast_concat, getLast?_concat, Bool.and_eq_true, all_eq_true, Option.any_some]
      constructor
      · rintro ⟨⟨hc, hu⟩, hd⟩
        exact .inr ⟨c, u, d, rfl, hc, hu, hd⟩
      · rintro (⟨d', h, -⟩ | ⟨c', u', d', h, hc, hu, hd⟩)
        · simp at h
        · obtain ⟨rfl, hr⟩ := cons.inj h
          obtain ⟨rfl, hl⟩ := append_inj' hr rfl
          obtain rfl := singleton_inj.1 hl
          exact ⟨⟨hc, hu⟩, hd⟩
    · simp

theorem labelChar_of_labelBody (h : labelBody cs = true) : ∀ c ∈ cs, labelChar c = true := by
  rcases labelBody_iff.1 h with ⟨d, rfl, hd⟩ | ⟨c, u, d, rfl, hc, hu, hd⟩
  · exact forall_mem_singleton.2 (labelChar_of_isAlphanum hd)
  · refine forall_mem_cons.2 ⟨labelChar_of_isAlphanum hc, forall_mem_append.2 ⟨hu, ?_⟩⟩
    exact forall_mem_singleton.2 (labelChar_of_isAlphanum hd)

/-! ## The expression -/

theorem nil_mem_body : [] ∈ (Regex.seq (.opt (.seq (.char Char.isAlphanum) (.many labelChar 0 none)))
    (.char Char.isAlphanum)).rests cs ↔ labelBody cs = true := by
  rw [labelBody_iff]
  simp only [Regex.mem_seq, Regex.mem_opt, Regex.mem_char]
  constructor
  · rintro ⟨mid, ⟨_, ⟨c, rfl, hc⟩, hm⟩ | rfl, d, rfl, hd⟩
    · obtain ⟨u, rfl, hu, -⟩ := Regex.mem_manyRests.1 hm
      exact .inr ⟨c, u, d, rfl, hc, hu, hd⟩
    · exact .inl ⟨d, rfl, hd⟩
  · rintro (⟨d, rfl, hd⟩ | ⟨c, u, d, rfl, hc, hu, hd⟩)
    · exact ⟨[d], .inr rfl, d, rfl, hd⟩
    · exact ⟨[d], .inl ⟨u ++ [d], ⟨c, rfl, hc⟩, Regex.mem_manyRests.2 ⟨u, rfl, hu, Nat.zero_le _, nofun⟩⟩, d, rfl, hd⟩

/-- Of a text without a newline the lookahead sees the whole. -/
theorem lookahead_iff (hcs : ∀ c ∈ cs, c ≠ '\n') :
    (∃ rest, rest ∈ (Regex.seq (.many (· ≠ '\n') 1 (some 63)) .dollar).rests cs) ↔ 1 ≤ cs.length ∧ cs.length ≤ 63 := by
  simp only [Regex.mem_seq, Regex.mem_dollar]
  constructor
  · rintro ⟨_, _, hm, rfl, hend⟩
    obtain ⟨u, rfl, -, hmin, hmax⟩ := Regex.mem_manyRests.1 hm
    rcases hend with rfl | rfl
    · rw [append_nil]
      exact ⟨hmin, hmax 63 rfl⟩
    · exact absurd rfl (hcs '\n' (by simp))
  · rintro ⟨hmin, hmax⟩
    refine ⟨[], [], Regex.mem_manyRests.2 ⟨cs, (append_nil cs).symm, ?_, hmin, ?_⟩, rfl, .inl rfl⟩
    · exact fun c hc => decide_eq_true (hcs c hc)
    · rintro m ⟨⟩
      exact hmax

theorem ne_newline_of_labelBody (h : labelBody cs = true) : ∀ c ∈ cs, c ≠ '\n' := by
  rintro c hc rfl
  exact absurd (labelChar_of_labelBody h _ hc) (by decide)

theorem labelMatches_eq_fullmatch (s : String) : labelMatches s = labelValidationRegex.fullmatch s := by
  rw [Bool.eq_iff_iff, labelMatches, Regex.fullmatch, decide_eq_true_eq, labelValidationRegex, Regex.mem_seq,
    Bool.and_eq_true, Bool.and_eq_true, decide_eq_true_eq, decide_eq_true_eq, ← String.length_toList]
  constructor
  · rintro ⟨hlen, hb⟩
    have hl := (lookahead_iff (ne_newline_of_labelBody hb)).2 hlen
    exact ⟨s.toList, Regex.mem_ahead.2 ⟨rfl, hl⟩, nil_mem_body.2 hb⟩
  · rintro ⟨mid, ha, hb⟩
    obtain ⟨rfl, hl⟩ := Regex.mem_ahead.1 ha
    have hb := nil_mem_body.1 hb
    exact ⟨(lookahead_iff (ne_newline_of_labelBody hb)).1 hl, hb⟩

theorem labelMatches_iff : labelMatches s = true ↔ KubernetesName s := by
  rw [labelMatches, Bool.and_eq_true, Bool.and_eq_true, decide_eq_true_eq, decide_eq_true_eq, labelBody_iff]
  constructor
  · rintro ⟨hlen, ⟨d, hs, hd⟩ | ⟨c, u, d, hs, hc, hu, hd⟩⟩
    · exact ⟨hlen, by simpa [hs] using hd, by simpa [hs] using hd, by simp [hs]⟩
    · refine ⟨hlen, by simpa [hs] using hc, ?_, by simpa [hs] using hu⟩
      rw [hs, ← cons_append, getLast?_concat]
      simpa using hd
  · rintro ⟨hlen, hf, hl, hb⟩
    refine ⟨hlen, ?_⟩
    rw [← String.length_toList] at hlen
    generalize s.toList = cs at *
    match cs with
    | [] => exact absurd hlen.1 (Nat.not_succ_le_zero _)
    | [d] => exact .inl ⟨d, rfl, hf d rfl⟩
    | c :: e :: cs =>
      have hne := cons_ne_nil e cs
      refine .inr ⟨c, (e :: cs).dropLast, (e :: cs).getLast hne, ?_, hf c rfl, hb, hl _ ?_⟩
      · rw [dropLast_append_getLast hne]
      · rw [getLast?_cons_cons, getLast?_eq_some_getLast hne]
        rfl

theorem labelChar_of_name (h : KubernetesName s) : ∀ c ∈ s.toList, labelChar c = true :=
  labelChar_of_labelBody ((Bool.and_eq_true _ _).mp (labelMatches_iff.2 h)).2

theorem checkLabel_ok_iff {label value} :
    checkLabel label value = .ok () ↔ KubernetesName label ∧ (value ≠ "" → KubernetesName value) := by
  rw [← labelMatches_iff, ← labelMatches_iff]
  unfold checkLabel
  by_cases hl : labelMatches label = true
  · by_cases hv : value ≠ "" → labelMatches value = true
    · rw [if_neg (by simp [hl]), if_neg (by simpa using hv)]
      exact ⟨fun _ => ⟨hl, hv⟩, fun _ => rfl⟩
    · simp_all [throw_ok]
  · simp [hl, throw_ok]

/-! ## Construction -/

def BenchmarkDescriptor.withLabels (d : BenchmarkDescriptor) (labels : Dict String) : BenchmarkDescriptor :=
  { d with info := { d.info with labels := labels } }

theorem postInit_withLabels {cronValid} {d : BenchmarkDescriptor} {labels : Dict String}
    (hv : (d.withLabels .empty).postInit cronValid = .ok ()) :
    (d.withLabels labels).postInit cronValid = .ok () ↔ ∀ kv ∈ labels.entries, checkLabel kv.1 kv.2 = .ok () := by
  obtain ⟨_, hs, h⟩ := bind_ok.1 hv
  obtain ⟨_, hi, h⟩ := bind_ok.1 h
  obtain ⟨_, hc, h⟩ := bind_ok.1 h
  obtain ⟨_, -, hml⟩ := bind_ok.1 h
  rw [← @forM_ok _ _ _ fun kv : String × String => checkLabel kv.1 kv.2]
  constructor
  · intro h
    iterate 3 obtain ⟨_, -, h⟩ := bind_ok.1 h
    obtain ⟨_, hl, -⟩ := bind_ok.1 h
    exact hl
  · intro hl
    exact bind_ok.2 ⟨_, hs, bind_ok.2 ⟨_, hi, bind_ok.2 ⟨_, hc, bind_ok.2 ⟨_, hl, hml⟩⟩⟩⟩

/-- The check of a label is a full match of the expression, and an otherwise
valid descriptor is refused exactly for a key or a non-empty value that is not a
Kubernetes name. -/
theorem labels_refused_iff {cronValid : String → Bool} {d : BenchmarkDescriptor}
    (hvalid : (d.withLabels .empty).postInit cronValid = .ok ()) (labels : Dict String) :
    (∀ s, labelMatches s = labelValidationRegex.fullmatch s) ∧
    ((∃ msg, (d.withLabels labels).postInit cronValid = .error (.descriptorError msg)) ↔
      ∃ kv ∈ labels.entries, ¬ KubernetesName kv.1 ∨ kv.2 ≠ "" ∧ ¬ KubernetesName kv.2) := by
  refine ⟨labelMatches_eq_fullmatch, ?_⟩
  have he := (throws_postInit cronValid (d.withLabels labels)).exists_error_iff
  constructor
  · rintro ⟨msg, hmsg⟩
    by_contra hn
    push Not at hn
    refine he.1 ⟨_, ⟨msg, rfl⟩, hmsg⟩ () ((postInit_withLabels hvalid).2 fun kv hkv => ?_)
    exact checkLabel_ok_iff.2 (hn kv hkv)
  · rintro ⟨kv, hkv, hbad⟩
    obtain ⟨_, ⟨msg, rfl⟩, hmsg⟩ := he.2 fun _ hok => by
      obtain ⟨hkey, hv⟩ := checkLabel_ok_iff.1 ((postInit_withLabels hvalid).1 hok kv hkv)
      exact hbad.elim (· hkey) fun hbad => hbad.2 (hv hbad.1)
    exact ⟨msg, hmsg⟩

def plainDescriptor : BenchmarkDescriptor :=
  { info := {}, hardware := { instance_type := "t2.small" }, env := { docker_image := "ubuntu" } }

/-- Before the last newline of the key the lookahead stops, and the full match fails. -/
theorem labels_refused_newline : (plainDescriptor.withLabels .empty).postInit (fun _ => false) = .ok () ∧
    ∃ msg, (plainDescriptor.withLabels (.ofFields [("task\n", "")])).postInit (fun _ => false) = .error (.descriptorError msg) := by
  have hv : (plainDescriptor.withLabels .empty).postInit (fun _ => false) = .ok () := rfl
  refine ⟨hv, (labels_refused_iff hv _).2.2 ⟨("task\n", ""), mem_singleton_self _, .inl fun hn => ?_⟩⟩
  exact absurd (hn.last '\n' (by decide)) (by decide)

end BenchmarkAi.Transpiler
