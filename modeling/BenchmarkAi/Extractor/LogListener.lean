import BenchmarkAi.Lib.Except
import Mathlib.Data.List.Nodup
/-!
# The log listener

`log_listener.py` of the metrics extractor: the chunks of the log stream are decoded and searched one
by one, in whichever way the stream was cut. We prove for which patterns and logs it does not matter
how the stream was cut: the log has no character of several bytes, and no pattern finds something across
a place where the log could be cut.
-/

open Lib List

namespace BenchmarkAi.Extractor

structure Metric where
  name : String
  pattern : String
  units : String
deriving DecidableEq, Repr

structure LogExtractor where
  metrics : List Metric
  nodup : metrics.Nodup

def LogExtractor.addMetric (x : LogExtractor) (metric : Metric) : LogExtractor :=
  if h : metric ∈ x.metrics then x
  else ⟨x.metrics ++ [metric], nodup_append.2 ⟨x.nodup, nodup_singleton metric, by
    rintro a ha b hb rfl
    exact h (mem_singleton.1 hb ▸ ha)⟩⟩

def LogExtractor.create (metrics : List Metric) : LogExtractor := metrics.foldl .addMetric ⟨[], nodup_nil⟩

abbrev Found := List (List Char)

abbrev Findall := String → List Char → List Found

def decodeUtf8 (chunk : ByteArray) : Option (List Char) := chunk.utf8Decode?.map Array.toList

inductive Outcome
  | returned
  | unicodeDecodeError
deriving DecidableEq, Repr

section Listen
variable (findall : Findall)

def LogExtractor.matches (x : LogExtractor) (line : List Char) : List (Metric × Found) :=
  x.metrics.flatMap fun metric => (findall metric.pattern line).map (metric, ·)

def LogExtractor.consume (x : LogExtractor) : List ByteArray → List (Metric × Found) × Outcome
  | [] => ([], .returned)
  | chunk :: stream =>
    match decodeUtf8 chunk with
    | none => ([], .unicodeDecodeError)
    | some line => (x.matches findall line ++ (x.consume stream).1, (x.consume stream).2)

def LogExtractor.listen (x : LogExtractor) (stream : List ByteArray) : List (Metric × Found) × Outcome :=
  if x.metrics = [] then ([], .returned) else x.consume findall stream

def LogExtractor.values (x : LogExtractor) (stream : List ByteArray) (metric : Metric) : List Found :=
  ((x.listen findall stream).1.filter (·.1 = metric)).map Prod.snd

/-- Both streams are read to their ends and lead to the same values. -/
structure SameValues (x : LogExtractor) (stream stream' : List ByteArray) : Prop where
  returns : (x.listen findall stream).2 = .returned
  returns' : (x.listen findall stream').2 = .returned
  values : ∀ metric ∈ x.metrics, x.values findall stream metric = x.values findall stream' metric

end Listen

/-! ## Cuts -/

def Decodes (stream : List ByteArray) (texts : List (List Char)) : Prop :=
  Forall₂ (fun chunk text => decodeUtf8 chunk = some text) stream texts

def joined (stream : List ByteArray) : ByteArray := stream.foldr (· ++ ·) .empty

def Ascii (text : List Char) : Prop := ∀ c ∈ text, c.utf8Size = 1

/-- Wherever a part of the text is cut, the search of the two pieces finds what the search of the part
does. -/
def Divides (find : List Char → List Found) (text : List Char) : Prop :=
  ∀ before v w after, text = before ++ (v ++ w) ++ after → find (v ++ w) = find v ++ find w

theorem decodeUtf8_utf8Encode (text : List Char) : decodeUtf8 text.utf8Encode = some text := by
  rw [decodeUtf8, utf8Decode?_utf8Encode]
  rfl

theorem utf8Encode_of_decodeUtf8 {chunk} {text : List Char} (h : decodeUtf8 chunk = some text) :
    text.utf8Encode = chunk := by
  obtain ⟨chars, hc, rfl⟩ := Option.map_eq_some_iff.1 h
  have hs : chunk.utf8Decode?.isSome = true := by rw [hc]; rfl
  have hget : chunk.utf8Decode?.get hs = chars := by simp [hc]
  rw [← hget]
  exact ByteArray.utf8Encode_get_utf8Decode?

theorem utf8Encode_injective {text text' : List Char} (h : text.utf8Encode = text'.utf8Encode) : text = text' := by
  have hd := congrArg decodeUtf8 h
  rw [decodeUtf8_utf8Encode, decodeUtf8_utf8Encode] at hd
  exact Option.some.inj hd

theorem size_utf8Encode_cons (c : Char) (text : List Char) :
    (c :: text).utf8Encode.size = c.utf8Size + text.utf8Encode.size := by
  rw [utf8Encode_cons, ByteArray.size_append, utf8Encode_singleton, size_toByteArray, String.length_utf8EncodeChar]

/-- The first bytes of a text that end in a character are not those of a text. -/
theorem utf8Size_of_cut {before after text rest : List Char} {c : Char} (h : text ++ rest = before ++ c :: after)
    (hs : text.utf8Encode.size = before.utf8Encode.size + 1) : c.utf8Size = 1 := by
  rcases append_eq_append_iff.1 h with ⟨left, rfl, -⟩ | ⟨more, rfl, hc⟩
  · rw [utf8Encode_append, ByteArray.size_append] at hs
    omega
  · rw [utf8Encode_append, ByteArray.size_append] at hs
    cases more with
    | nil => simp at hs
    | cons c' more =>
      rw [cons_append] at hc
      have hpos := c.utf8Size_pos
      rw [← (cons.inj hc).1, size_utf8Encode_cons] at hs
      omega

/-! ## Streams -/

section Streams
variable {findall : Findall} {x : LogExtractor} {stream stream' : List ByteArray} {texts texts' : List (List Char)}

theorem joined_decodes (h : Decodes stream texts) : joined stream = texts.flatten.utf8Encode := by
  induction h with
  | nil => rfl
  | cons hc _ ih =>
    rw [flatten_cons, utf8Encode_append, utf8Encode_of_decodeUtf8 hc, ← ih]
    rfl

theorem flatten_of_joined {text : List Char} (h : Decodes stream texts) (hlog : joined stream = text.utf8Encode) :
    texts.flatten = text :=
  utf8Encode_injective ((joined_decodes h).symm.trans hlog)

/-- A log that can be decoded however it is cut has no character of several bytes. -/
theorem ascii_of_decodes {text : List Char}
    (h : ∀ stream, joined stream = text.utf8Encode → ∃ texts, Decodes stream texts) : Ascii text := by
  intro c hc
  obtain ⟨before, after, rfl⟩ := append_of_mem hc
  have hsize : before.utf8Encode.size + 1 ≤ (before ++ c :: after).utf8Encode.size := by
    rw [utf8Encode_append, ByteArray.size_append, size_utf8Encode_cons]
    have hpos := c.utf8Size_pos
    omega
  generalize hb : (before ++ c :: after).utf8Encode = log at h hsize
  have hj : joined [log.extract 0 (before.utf8Encode.size + 1), log.extract (before.utf8Encode.size + 1) log.size] = log := by
    simp [joined, ByteArray.extract_append_extract, Nat.max_eq_right hsize]
  obtain ⟨texts, hd⟩ := h _ hj
  have hf := flatten_of_joined hd (hj.trans hb.symm)
  cases hd with
  | cons hc hd =>
    refine utf8Size_of_cut hf ?_
    rw [utf8Encode_of_decodeUtf8 hc, ByteArray.size_extract]
    omega

theorem utf8Encode_ascii {text : List Char} (h : Ascii text) :
    text.utf8Encode = (text.map fun c => c.val.toUInt8).toByteArray := by
  rw [utf8Encode, map_eq_flatMap]
  exact congrArg _ (flatMap_congr fun c hc => String.utf8EncodeChar_eq_singleton (h c hc))

theorem decodes_of_ascii {text : List Char} (h : Ascii text) (hlog : joined stream = text.utf8Encode) :
    ∃ texts, Decodes stream texts := by
  induction stream generalizing text with
  | nil => exact ⟨[], .nil⟩
  | cons chunk stream ih =>
    have hl := congrArg (fun b => b.data.toList) (hlog.trans (utf8Encode_ascii h))
    change (chunk ++ joined stream).data.toList = _ at hl
    rw [ByteArray.data_append, Array.toList_append, data_toByteArray, append_eq_map_iff] at hl
    obtain ⟨first, rest, rfl, hf, hr⟩ := hl
    have ha : Ascii first := fun c hc => h c (mem_append_left _ hc)
    have ha' : Ascii rest := fun c hc => h c (mem_append_right _ hc)
    obtain ⟨texts, ht⟩ := ih ha' (by rw [utf8Encode_ascii ha', hr]; exact ByteArray.ext (by simp))
    have hc : chunk = first.utf8Encode := by rw [utf8Encode_ascii ha, hf]; exact ByteArray.ext (by simp)
    exact ⟨first :: texts, .cons (hc ▸ decodeUtf8_utf8Encode first) ht⟩

theorem consume_decodes (h : Decodes stream texts) :
    x.consume findall stream = (texts.flatMap (x.matches findall), .returned) := by
  induction h with
  | nil => rfl
  | cons hc _ ih => rw [LogExtractor.consume, hc, ih, flatMap_cons]

theorem decodes_of_consume (h : (x.consume findall stream).2 = .returned) : ∃ texts, Decodes stream texts := by
  induction stream with
  | nil => exact ⟨[], .nil⟩
  | cons chunk stream ih =>
    rw [LogExtractor.consume] at h
    split at h
    · cases h
    · rename_i line hl
      obtain ⟨texts, ht⟩ := ih h
      exact ⟨line :: texts, .cons hl ht⟩

theorem listen_decodes (h : Decodes stream texts) :
    x.listen findall stream = (texts.flatMap (x.matches findall), .returned) := by
  rw [LogExtractor.listen]
  split
  · rename_i hn
    have hm : ∀ text ∈ texts, x.matches findall text = [] := fun text _ => by rw [LogExtractor.matches, hn]; rfl
    rw [flatMap_eq_nil_iff.2 hm]
  · exact consume_decodes h

theorem filter_matches {metric : Metric} (hme : metric ∈ x.metrics) (text : List Char) :
    ((x.matches findall text).filter (·.1 = metric)).map Prod.snd = findall metric.pattern text := by
  rw [LogExtractor.matches]
  have hn := x.nodup
  generalize x.metrics = metrics at hme hn ⊢
  induction metrics with
  | nil => cases hme
  | cons first metrics ih =>
    rw [flatMap_cons, filter_append, map_append]
    obtain ⟨hf, hn⟩ := nodup_cons.1 hn
    by_cases heq : first = metric
    · subst heq
      have hr : (metrics.flatMap fun m => (findall m.pattern text).map (m, ·)).filter (·.1 = first) = [] := by
        rw [filter_eq_nil_iff]
        intro p hp
        obtain ⟨m, hm, hp⟩ := mem_flatMap.1 hp
        obtain ⟨found, -, rfl⟩ := mem_map.1 hp
        simpa using fun heq : m = first => hf (heq ▸ hm)
      rw [hr]
      simp [filter_map, Function.comp_def]
    · rw [ih (mem_of_ne_of_mem (Ne.symm heq) hme) hn]
      simp [filter_map, Function.comp_def, heq]

theorem values_decodes (h : Decodes stream texts) {metric : Metric} (hm : metric ∈ x.metrics) :
    x.values findall stream metric = texts.flatMap (findall metric.pattern) := by
  rw [LogExtractor.values, listen_decodes h, filter_flatMap, map_flatMap]
  exact flatMap_congr fun text _ => filter_matches hm text

/-- For two streams it matters whether their chunks can be decoded and what is found in each of them. -/
theorem sameValues_iff : SameValues findall x stream stream' ↔ x.metrics = [] ∨
    ∃ texts texts', Decodes stream texts ∧ Decodes stream' texts' ∧
      ∀ metric ∈ x.metrics, texts.flatMap (findall metric.pattern) = texts'.flatMap (findall metric.pattern) := by
  by_cases hx : x.metrics = []
  · refine iff_of_true ⟨?_, ?_, ?_⟩ (.inl hx)
    · rw [LogExtractor.listen, if_pos hx]
    · rw [LogExtractor.listen, if_pos hx]
    · simp [hx]
  rw [or_iff_right hx]
  constructor
  · rintro ⟨hr, hr', hv⟩
    rw [LogExtractor.listen, if_neg hx] at hr hr'
    obtain ⟨texts, ht⟩ := decodes_of_consume hr
    obtain ⟨texts', ht'⟩ := decodes_of_consume hr'
    refine ⟨texts, texts', ht, ht', fun metric hm => ?_⟩
    rw [← values_decodes ht hm, ← values_decodes ht' hm, hv metric hm]
  · rintro ⟨texts, texts', ht, ht', hv⟩
    refine ⟨by rw [listen_decodes ht], by rw [listen_decodes ht'], fun metric hm => ?_⟩
    rw [values_decodes ht hm, values_decodes ht' hm, hv metric hm]

theorem flatMap_of_divides {find : List Char → List Found} {before after : List Char} {texts : List (List Char)}
    (h : Divides find (before ++ texts.flatten ++ after)) : texts.flatMap find = find texts.flatten := by
  induction texts generalizing before with
  | nil =>
    have hn := congrArg length (h before [] [] after (by simp))
    rw [append_nil, length_append] at hn
    exact (length_eq_zero_iff.1 (by omega : (find []).length = 0)).symm
  | cons text texts ih =>
    rw [flatten_cons, h before text texts.flatten after rfl, flatMap_cons, @ih (before ++ text) (by simpa using h)]

theorem decodes_utf8Encode (texts : List (List Char)) : Decodes (texts.map utf8Encode) texts := by
  induction texts with
  | nil => exact .nil
  | cons text texts ih => exact .cons (decodeUtf8_utf8Encode text) ih

theorem joined_utf8Encode (texts : List (List Char)) : joined (texts.map utf8Encode) = texts.flatten.utf8Encode :=
  joined_decodes (decodes_utf8Encode texts)

theorem decodes_unique {texts'} (h : Decodes stream texts) (h' : Decodes stream texts') : texts = texts' := by
  induction h generalizing texts' with
  | nil =>
    cases h'
    rfl
  | cons hc _ ih =>
    cases h' with
    | cons hc' h' => rw [Option.some.inj (hc.symm.trans hc'), ih h']

/-- How a log is cut does not matter exactly if it has no character of several bytes and no pattern finds
something across a cut. Two streams lead to the same values exactly if their chunks can be decoded and a
search chunk by chunk finds the same in both. -/
theorem any_cut_iff (findall : Findall) (x : LogExtractor) :
    (∀ text : List Char, (∀ stream stream', joined stream = text.utf8Encode → joined stream' = text.utf8Encode →
        SameValues findall x stream stream') ↔
      x.metrics = [] ∨ Ascii text ∧ ∀ metric ∈ x.metrics, Divides (findall metric.pattern) text) ∧
    ∀ stream stream', SameValues findall x stream stream' ↔ x.metrics = [] ∨
      ∃ texts texts', Decodes stream texts ∧ Decodes stream' texts' ∧
        ∀ metric ∈ x.metrics, texts.flatMap (findall metric.pattern) = texts'.flatMap (findall metric.pattern) := by
  refine ⟨fun text => ?_, fun _ _ => sameValues_iff⟩
  by_cases hx : x.metrics = []
  · exact iff_of_true (fun _ _ _ _ => sameValues_iff.2 (.inl hx)) (.inl hx)
  rw [or_iff_right hx]
  constructor
  · intro h
    refine ⟨ascii_of_decodes fun stream hs => ?_, ?_⟩
    · obtain ⟨texts, -, ht, -⟩ := (sameValues_iff.1 (h stream stream hs hs)).resolve_left hx
      exact ⟨texts, ht⟩
    · rintro metric hm before v w after rfl
      -- one stream has a chunk that the other one has in two
      obtain ⟨texts, texts', ht, ht', hv⟩ := (sameValues_iff.1 (h ([before, v ++ w, after].map utf8Encode)
        ([before, v, w, after].map utf8Encode) (by rw [joined_utf8Encode]; simp) (by rw [joined_utf8Encode]; simp))).resolve_left hx
      obtain rfl := decodes_unique ht (decodes_utf8Encode _)
      obtain rfl := decodes_unique ht' (decodes_utf8Encode _)
      have hf := hv metric hm
      simp only [flatMap_cons, flatMap_nil, append_nil] at hf
      rw [← append_assoc (findall metric.pattern v)] at hf
      exact append_cancel_right (append_cancel_left hf)
  · rintro ⟨ha, hd⟩ stream stream' hs hs'
    obtain ⟨texts, ht⟩ := decodes_of_ascii ha hs
    obtain ⟨texts', ht'⟩ := decodes_of_ascii ha hs'
    have hf {stream texts} (ht : Decodes stream texts) (hs : joined stream = text.utf8Encode) {metric} (hm : metric ∈ x.metrics) :
        texts.flatMap (findall metric.pattern) = findall metric.pattern text := by
      have htext := flatten_of_joined ht hs
      rw [@flatMap_of_divides _ [] [] texts (by simpa [htext] using hd metric hm), htext]
    exact sameValues_iff.2 (.inr ⟨texts, texts', ht, ht', fun metric hm => (hf ht hs hm).trans (hf ht' hs' hm).symm⟩)

end Streams

def lossText : List Char := ['l', 'o', 's', 's', '=', '0', '.', '2', '5', '\n']

def oneMetric (pattern : String) : LogExtractor := ⟨[⟨"line", pattern, ""⟩], nodup_singleton _⟩

/-- What `re.findall` returns for two patterns: `.` and `[^\n]+`. -/
def findCharacters : Findall := fun pattern text =>
  if pattern = "." then (text.filter (· ≠ '\n')).map fun c => [[c]]
  else ((text.splitOn '\n').filter (· ≠ [])).map fun piece => [piece]

theorem any_cut_dot : SameValues findCharacters (oneMetric ".") [lossText.utf8Encode]
    [(lossText.take 7).utf8Encode, (lossText.drop 7).utf8Encode] := by
  have hall : lossText.all (·.utf8Size == 1) = true := by decide
  have ha : Ascii lossText := fun c hc => eq_of_beq (all_eq_true.1 hall c hc)
  refine ((any_cut_iff findCharacters (oneMetric ".")).1 lossText).2 (.inr ⟨ha, fun metric hm => ?_⟩) _ _
    (by decide) (by decide)
  obtain rfl := mem_singleton.1 hm
  intro before v w after _
  simp [findCharacters]

/-- A chunk that ends in a number, and one that ends in a character. -/
theorem cut_in_line :
    (oneMetric "[^\n]+").listen findCharacters [lossText.utf8Encode] =
      ([(⟨"line", "[^\n]+", ""⟩, [lossText.dropLast])], .returned) ∧
    (oneMetric "[^\n]+").listen findCharacters [(lossText.take 7).utf8Encode, (lossText.drop 7).utf8Encode] =
      ([(⟨"line", "[^\n]+", ""⟩, [['l', 'o', 's', 's', '=', '0', '.']]), (⟨"line", "[^\n]+", ""⟩, [['2', '5']])], .returned) ∧
    (oneMetric "[^\n]+").listen findCharacters [⟨#[0xC3, 0xA9]⟩] = ([(⟨"line", "[^\n]+", ""⟩, [['é']])], .returned) ∧
    (oneMetric "[^\n]+").listen findCharacters [⟨#[0xC3]⟩, ⟨#[0xA9]⟩] = ([], .unicodeDecodeError) := by
  refine ⟨?_, ?_, ?_, ?_⟩
  · decide +kernel
  · decide +kernel
  · decide +kernel
  · decide +kernel

end BenchmarkAi.Extractor
