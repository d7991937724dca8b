import BenchmarkAi.Lib.Base64
import BenchmarkAi.Lib.Call
import BenchmarkAi.Lib.Json
import BenchmarkAi.Transpiler.VolumeTheorems
/-!
# Metrics of a benchmark

The executor writes the metrics of an output section as JSON into a variable of the
`metrics-extractor` sidecar, with the patterns in Base64. `log_listener.py` in the sidecar
reads the variable: what it looks for in the logs is what the descriptor asks for, as long
as the text is read from the template as it was written.
-/

open Lib List

namespace BenchmarkAi.Transpiler

deriving instance DecidableEq for MetricDescriptor

/-! ## What the executor writes -/

def encodePattern (pattern : String) : String := String.ofList (Base64.encode pattern.toUTF8.data.toList)

def MetricDescriptor.asdict (m : MetricDescriptor) : Json :=
  .obj [("name", .str m.name), ("units", .str m.units), ("pattern", .str m.pattern)]

def dumpMetrics (ms : List MetricDescriptor) : String := (Json.arr (ms.map (·.asdict))).dumps

structure Outside.WritesMetrics (o : Outside) : Prop where
  base64 : o.base64 = encodePattern
  dumpMetrics : o.dumpMetrics = Transpiler.dumpMetrics

/-! ## The sidecar -/

structure Metric where
  name : Json
  pattern : Json
  units : Json

def Metric.signature : Call.Signature Json where
  params := [{ name := "name" }, { name := "pattern" }, { name := "units" }]

def Metric.ofObject : Json → Option Metric
  | .obj fs =>
    match Metric.signature.bind [] fs with
    | .ok [(_, name), (_, pattern), (_, units)] => some { name, pattern, units }
    | _ => none
  | _ => none

def getMetrics (environment : String) : Option (List Metric) :=
  if environment = "" then some []
  else do
    match ← Json.loads environment with
    | .arr ts => ts.mapM Metric.ofObject
    | t => return [← Metric.ofObject t]

structure MetricKey where
  name : String
  pattern : String
  units : String
deriving DecidableEq, Repr

def Metric.key : Metric → Option MetricKey
  | ⟨.str name, .str pattern, .str units⟩ => some { name, pattern, units }
  | _ => none

/-- `re.compile(base64.b64decode(pattern).decode("utf-8"))`, with its text for the compiled
expression. `compiles` says which texts are regular expressions. -/
def decodePattern (compiles : String → Bool) (pattern : String) : Option String := do
  -- a string has to be ASCII to be decoded
  if pattern.toList.any (128 ≤ ·.toNat) then none
  let text ← String.fromUTF8? ⟨(← Base64.decode pattern.toList).toArray⟩
  if compiles text then some text else none

def setPattern (metrics : List (MetricKey × String)) (key : MetricKey) (pattern : String) : List (MetricKey × String) :=
  if key ∈ metrics.map Prod.fst then metrics.map fun e => if e.1 = key then (key, pattern) else e
  else metrics ++ [(key, pattern)]

def addMetric (compiles : String → Bool) (metrics : List (MetricKey × String)) (metric : Metric) :
    Option (List (MetricKey × String)) := do
  let key ← metric.key
  return setPattern metrics key (← decodePattern compiles key.pattern)

/-- The names, units and patterns that a sidecar with the variable looks for. -/
def extractedMetrics (compiles : String → Bool) (environment : String) : Option (List MetricDescriptor) := do
  let metrics ← (← getMetrics environment).foldlM (addMetric compiles) []
  return metrics.map fun e => ⟨e.1.name, e.1.units, e.2⟩

def metricsVariableOf (h : RootObjectHelper) (replica : Option String) : Option String := do
  let spec ← (getPodSpec h replica).toOption
  let sidecar ← (podContainers spec).find? fun c => nameOf c = some metricsExtractorContainer
  envValue metricsVariable sidecar

/-! ## Patterns -/

theorem ascii_encodePattern (pattern : String) : (encodePattern pattern).toList.any (128 ≤ ·.toNat) = false := by
  have ha : ∀ c, c ∈ Base64.alphabet ∨ c = '=' → ¬128 ≤ c.toNat := by
    have hl : ∀ c ∈ Base64.alphabet, ¬128 ≤ c.toNat := by
      simpa only [all_eq_true, decide_eq_true_eq] using
        (by decide : Base64.alphabet.all (fun c => decide (¬128 ≤ c.toNat)) = true)
    rintro c (hc | rfl)
    · exact hl c hc
    · decide
  rw [any_eq_false]
  intro c hc
  rw [encodePattern, String.toList_ofList] at hc
  simpa using ha c (Base64.mem_encode hc)

theorem fromUTF8?_toUTF8 (s : String) : String.fromUTF8? ⟨s.toUTF8.data.toList.toArray⟩ = some s := by
  exact dif_pos s.isValidUTF8

theorem decodePattern_encodePattern (compiles : String → Bool) (pattern : String) :
    decodePattern compiles (encodePattern pattern) = if compiles pattern then some pattern else none := by
  unfold decodePattern
  rw [ascii_encodePattern, encodePattern, String.toList_ofList, Base64.decode_encode]
  simp only [Bool.false_eq_true, if_false, Option.bind_eq_bind, Option.bind_some, fromUTF8?_toUTF8]

theorem encodePattern_injective {p q} (h : encodePattern p = encodePattern q) : p = q := by
  have hd := congrArg (decodePattern fun _ => true) h
  simpa [decodePattern_encodePattern] using hd

/-! ## The list of metrics -/

def MetricDescriptor.metric (m : MetricDescriptor) : Metric := ⟨.str m.name, .str m.pattern, .str m.units⟩

theorem distinct_asdict (ms : List MetricDescriptor) : (Json.arr (ms.map (·.asdict))).Distinct := by
  have hk : ["name", "units", "pattern"].Nodup := by decide
  have hd (m : MetricDescriptor) : m.asdict.Distinct := ⟨hk, trivial, trivial, trivial, trivial⟩
  induction ms with
  | nil => trivial
  | cons m ms ih => exact ⟨hd m, ih⟩

theorem mapM_ofObject (ms : List MetricDescriptor) :
    (ms.map (·.asdict)).mapM Metric.ofObject = some (ms.map (·.metric)) := by
  induction ms with
  | nil => rfl
  | cons m ms ih =>
    rw [map_cons, mapM_cons, ih]
    rfl

theorem getMetrics_dumpMetrics (ms : List MetricDescriptor) : getMetrics (dumpMetrics ms) = some (ms.map (·.metric)) := by
  have hne : dumpMetrics ms ≠ "" := by
    intro h
    have hc := congrArg String.toList h
    simp [dumpMetrics, Json.dumps, Json.dump] at hc
  rw [getMetrics, if_neg hne, dumpMetrics, Json.loads_dumps (distinct_asdict ms)]
  exact mapM_ofObject ms

/-! ## What is extracted -/

def MetricDescriptor.entry (m : MetricDescriptor) : MetricKey × String :=
  (⟨m.name, encodePattern m.pattern, m.units⟩, m.pattern)

theorem entry_fst_injective {m n : MetricDescriptor} (h : m.entry.1 = n.entry.1) : m = n := by
  obtain ⟨name, units, pattern⟩ := m
  simp only [MetricDescriptor.entry, MetricKey.mk.injEq] at h
  obtain ⟨rfl, hp, rfl⟩ := h
  rw [encodePattern_injective hp]

/-- A metric that comes again is not stored again. -/
def insertMetric (ds : List MetricDescriptor) (m : MetricDescriptor) : List MetricDescriptor :=
  if m ∈ ds then ds else ds ++ [m]

theorem setPattern_entry (ds : List MetricDescriptor) (m : MetricDescriptor) :
    setPattern (ds.map (·.entry)) m.entry.1 m.pattern = (insertMetric ds m).map (·.entry) := by
  have hmem : m.entry.1 ∈ (ds.map (·.entry)).map Prod.fst ↔ m ∈ ds := by
    rw [map_map]
    exact mem_map_of_injective fun _ _ => entry_fst_injective
  have hs : (ds.map (·.entry)).map (fun e => if e.1 = m.entry.1 then (m.entry.1, m.pattern) else e) =
      ds.map (·.entry) := by
    rw [map_map]
    refine map_congr_left fun n _ => ?_
    rw [Function.comp_apply]
    split
    · rename_i heq
      rw [entry_fst_injective heq]
      rfl
    · rfl
  unfold setPattern insertMetric
  by_cases h : m ∈ ds
  · rw [if_pos (hmem.2 h), if_pos h, hs]
  · rw [if_neg fun hin => h (hmem.1 hin), if_neg h, map_append]
    rfl

section Extracting
variable {o : Outside} (ho : o.WritesMetrics) (compiles : String → Bool)
include ho

theorem addMetric_encode (ds : List MetricDescriptor) (m : MetricDescriptor) :
    addMetric compiles (ds.map (·.entry)) (m.encode o).metric =
      if compiles m.pattern then some ((insertMetric ds m).map (·.entry)) else none := by
  have hkey : (m.encode o).metric.key = some m.entry.1 := by
    rw [MetricDescriptor.encode, ho.base64]
    rfl
  have hp : m.entry.1.pattern = encodePattern m.pattern := rfl
  rw [addMetric, hkey, Option.bind_eq_bind, Option.bind_some, hp, decodePattern_encodePattern]
  cases compiles m.pattern with
  | true => exact congrArg some (setPattern_entry ds m)
  | false => rfl

/-- All of the metrics are stored, or one of the patterns is not an expression. -/
theorem foldlM_addMetric (ms ds : List MetricDescriptor) :
    (ms.map fun m => (m.encode o).metric).foldlM (addMetric compiles) (ds.map (·.entry)) =
      if ms.all (compiles ·.pattern) then some ((ms.foldl insertMetric ds).map (·.entry)) else none := by
  induction ms generalizing ds with
  | nil => rfl
  | cons m ms ih =>
    rw [map_cons, foldlM_cons, addMetric_encode ho]
    cases hm : compiles m.pattern with
    | true => simp [hm, ih]
    | false => simp [hm]

theorem extractedMetrics_metricsText (ms : List MetricDescriptor) :
    extractedMetrics compiles (metricsText o (some ms)) =
      if ms.all (compiles ·.pattern) then some (ms.foldl insertMetric []) else none := by
  have hf := foldlM_addMetric ho compiles ms []
  rw [extractedMetrics, metricsText, ho.dumpMetrics, getMetrics_dumpMetrics, Option.getD_some, map_map]
  rw [map_nil] at hf
  simp only [Option.bind_eq_bind, Option.bind_some, Function.comp_def, hf]
  split
  · rw [Option.bind_some, map_map]
    exact congrArg some (map_id _)
  · rfl

end Extracting

variable {ds ms : List MetricDescriptor} {r : Request} {h : RootObjectHelper} {plan : PodPlan}

theorem nodup_foldl_insertMetric (ms : List MetricDescriptor) (h : ds.Nodup) : (ms.foldl insertMetric ds).Nodup := by
  induction ms generalizing ds with
  | nil => exact h
  | cons m ms ih =>
    refine ih ?_
    unfold insertMetric
    split
    · exact h
    · rename_i hm
      exact nodup_append.2 ⟨h, nodup_singleton m, fun _ ha _ hb heq => hm (mem_singleton.1 hb ▸ heq ▸ ha)⟩

theorem foldl_insertMetric (h : (ds ++ ms).Nodup) : ms.foldl insertMetric ds = ds ++ ms := by
  induction ms generalizing ds with
  | nil => simp
  | cons m ms ih =>
    have hm : m ∉ ds := fun hin => (nodup_append.1 h).2.2 m hin m mem_cons_self rfl
    rw [foldl_cons, insertMetric, if_neg hm, ih (by rwa [append_assoc]), append_assoc]
    rfl

/-- The sidecar looks for exactly the metrics of the list if every pattern is an expression
and no metric comes twice. -/
theorem extractedMetrics_iff {o : Outside} (ho : o.WritesMetrics) (compiles : String → Bool) (ms : List MetricDescriptor) :
    extractedMetrics compiles (metricsText o (some ms)) = some ms ↔
      (∀ m ∈ ms, compiles m.pattern = true) ∧ ms.Nodup := by
  rw [extractedMetrics_metricsText ho]
  split
  · rename_i hall
    rw [all_eq_true] at hall
    refine ⟨fun h => ⟨hall, ?_⟩, fun h => congrArg some (foldl_insertMetric h.2)⟩
    exact Option.some.inj h ▸ nodup_foldl_insertMetric ms nodup_nil
  · rename_i hall
    rw [all_eq_true] at hall
    exact ⟨nofun, fun h => absurd h.1 hall⟩

/-! ## The text in the template -/

/-- The characters of a text that can come from elsewhere than from a string of a metric. -/
def keyChars : List Char := Json.escapeChars ++ Json.marks ++ "nameunitspattern".toList

theorem mem_dump_metrics {c} (hc : c ∉ keyChars) (ms : List MetricDescriptor) :
    c ∈ (Json.arr (ms.map (·.asdict))).dump ↔
      ∃ m ∈ ms, (c ∈ m.name.toList ∨ c ∈ m.units.toList ∨ c ∈ m.pattern.toList) ∧ ' ' ≤ c ∧ c ≤ '~' := by
  have hsub {l : List Char} (hl : l ⊆ keyChars) : c ∉ l := fun h => hc (hl h)
  have hm : c ∉ Json.marks := hsub (by decide)
  rw [Json.mem_dump_arr hm]
  simp only [mem_map, exists_exists_and_eq_and]
  refine exists_congr fun m => and_congr_right fun _ => ?_
  rw [MetricDescriptor.asdict, Json.mem_dump_obj hm, or_and_right, or_and_right]
  have hn : c ∉ "name".toList ∧ c ∉ "units".toList ∧ c ∉ "pattern".toList :=
    ⟨hsub (by decide), hsub (by decide), hsub (by decide)⟩
  simp only [mem_cons, not_mem_nil, or_false, exists_eq_or_imp, exists_eq_left, Json.dump,
    Json.mem_quote (hsub (by decide) : c ∉ Json.escapeChars), hn, false_and, false_or]

theorem plainChar_dump_metrics {c} {ms : List MetricDescriptor} (h : c ∈ (Json.arr (ms.map (·.asdict))).dump) :
    Scalar.plainChar c = true := by
  by_cases hc : c ∈ keyChars
  · have hall : keyChars.all Scalar.plainChar = true := by decide
    exact all_eq_true.1 hall c hc
  · obtain ⟨m, -, -, hl, hu⟩ := (mem_dump_metrics hc ms).1 h
    have hl : 0x20 ≤ c.toNat := hl
    have hu : c.toNat ≤ 0x7e := hu
    simp [Scalar.plainChar, hl, hu]

theorem quote_not_mem_encodePattern (pattern : String) : '\'' ∉ (encodePattern pattern).toList := by
  intro h
  rw [encodePattern, String.toList_ofList] at h
  rcases Base64.mem_encode h with h | h
  · revert h
    decide
  · cases h

section Text
variable {o : Outside} (ho : o.WritesMetrics) (ms : List MetricDescriptor)
include ho

theorem toList_metricsText :
    (metricsText o (some ms)).toList = (Json.arr ((ms.map (·.encode o)).map (·.asdict))).dump := by
  rw [metricsText, ho.dumpMetrics, dumpMetrics, Json.dumps, String.toList_ofList, Option.getD_some]

theorem quote_mem_metricsText :
    '\'' ∈ (metricsText o (some ms)).toList ↔ ∃ m ∈ ms, '\'' ∈ m.name.toList ∨ '\'' ∈ m.units.toList := by
  rw [toList_metricsText ho, mem_dump_metrics (by decide)]
  constructor
  · rintro ⟨n, hn, hmem, -⟩
    obtain ⟨m, hm, rfl⟩ := mem_map.1 hn
    rcases hmem with hmem | hmem | hmem
    · exact ⟨m, hm, .inl hmem⟩
    · exact ⟨m, hm, .inr hmem⟩
    · -- the pattern is in Base64
      rw [MetricDescriptor.encode, ho.base64] at hmem
      exact absurd hmem (quote_not_mem_encodePattern _)
  · rintro ⟨m, hm, hmem⟩
    refine ⟨m.encode o, mem_map_of_mem hm, ?_, by decide⟩
    rcases hmem with hmem | hmem
    · exact .inl hmem
    · exact .inr (.inl hmem)

theorem single_metricsText : Scalar.single (metricsText o (some ms)) =
    (Scalar.unquote (metricsText o (some ms)).toList).map String.ofList := by
  refine if_pos (all_eq_true.2 fun c hc => ?_)
  rw [toList_metricsText ho] at hc
  exact plainChar_dump_metrics hc

end Text

/-! ## Quotes in the text -/

def joined (s : String) : String := String.ofList (Scalar.joinQuotes s.toList)

def MetricDescriptor.joined (m : MetricDescriptor) : MetricDescriptor :=
  { m with name := Transpiler.joined m.name, units := Transpiler.joined m.units }

theorem joinQuotes_escape (cs : List Char) :
    Scalar.joinQuotes (cs.flatMap Json.escape) = (Scalar.joinQuotes cs).flatMap Json.escape := by
  have hq : Json.escape '\'' = ['\''] := by decide
  have hno {c : Char} (hc : c ≠ '\'') : '\'' ∉ Json.escape c := by
    rw [Json.mem_escape (by decide)]
    exact fun h => hc h.1.symm
  induction cs using Scalar.joinQuotes.induct with
  | case1 cs ih => simp only [flatMap_cons, hq, singleton_append, Scalar.joinQuotes, ih]
  | case2 c cs hc ih =>
    rw [flatMap_cons, Scalar.joinQuotes, flatMap_cons, ← ih]
    · by_cases heq : c = '\''
      · subst heq
        rw [hq, singleton_append, singleton_append, Scalar.joinQuotes]
        -- the next character is no quote, so that its text does not start with one
        intro ds _ hd
        cases cs with
        | nil => cases hd
        | cons d cs =>
          have hd' : d ≠ '\'' := fun h => hc cs rfl (by rw [h])
          have hh : ((d :: cs).flatMap Json.escape).head? = some '\'' := by rw [hd]; rfl
          rcases Json.head_escape d with he | he
          · rw [flatMap_cons, head?_append, he] at hh
            exact hd' (Option.some.inj hh)
          · rw [flatMap_cons, head?_append, he] at hh
            cases hh
      · exact Scalar.joinQuotes_append_of_not_mem (hno heq) _
    · exact hc
  | case3 => rfl

theorem joinQuotes_quote (s : String) {rest : List Char} (h : rest.head? ≠ some '\'') :
    Scalar.joinQuotes (Json.quote s ++ rest) = Json.quote (joined s) ++ Scalar.joinQuotes rest := by
  rw [Scalar.joinQuotes_append h, Json.quote, Json.quote, joined, String.toList_ofList,
    @Scalar.joinQuotes_append _ ['"'] (by decide), ← joinQuotes_escape]
  simp [Scalar.joinQuotes]

theorem asdict_dump (m : MetricDescriptor) (rest : List Char) : m.asdict.dump ++ rest =
    "\x7b\"name\": ".toList ++ (Json.quote m.name ++ (", \"units\": ".toList ++ (Json.quote m.units ++
      (", \"pattern\": ".toList ++ (Json.quote m.pattern ++ '\x7d' :: rest))))) := by
  have hk : Json.quote "name" = "\"name\"".toList ∧ Json.quote "units" = "\"units\"".toList ∧
      Json.quote "pattern" = "\"pattern\"".toList := by decide
  simp [MetricDescriptor.asdict, Json.dump, Json.dumpFields, hk]

theorem joined_of_not_mem {s : String} (h : '\'' ∉ s.toList) : joined s = s := by
  have hj := Scalar.joinQuotes_append_of_not_mem h []
  rw [append_nil, Scalar.joinQuotes, append_nil] at hj
  rw [joined, hj, String.ofList_toList]

theorem joinQuotes_asdict {m : MetricDescriptor} (hp : '\'' ∉ m.pattern.toList) (rest : List Char) :
    Scalar.joinQuotes (m.asdict.dump ++ rest) = m.joined.asdict.dump ++ Scalar.joinQuotes rest := by
  rw [asdict_dump, asdict_dump, Scalar.joinQuotes_append_of_not_mem (by decide), joinQuotes_quote _ (by simp),
    Scalar.joinQuotes_append_of_not_mem (by decide), joinQuotes_quote _ (by simp),
    Scalar.joinQuotes_append_of_not_mem (by decide), joinQuotes_quote _ (by simp), joined_of_not_mem hp]
  rfl

theorem joinQuotes_dump {ms : List MetricDescriptor} (hp : ∀ m ∈ ms, '\'' ∉ m.pattern.toList) :
    Scalar.joinQuotes (Json.arr (ms.map (·.asdict))).dump = (Json.arr ((ms.map (·.joined)).map (·.asdict))).dump := by
  have hi : Scalar.joinQuotes (Json.dumpItems (ms.map (·.asdict)) ++ [']']) =
      Json.dumpItems ((ms.map (·.joined)).map (·.asdict)) ++ [']'] := by
    induction ms with
    | nil => rfl
    | cons m ms ih =>
      rw [forall_mem_cons] at hp
      rw [map_cons, map_cons, map_cons, Json.dumpItems_cons, Json.dumpItems_cons, joinQuotes_asdict hp.1]
      cases ms with
      | nil => rfl
      | cons n ms =>
        have hs := @Scalar.joinQuotes_append_of_not_mem [',', ' '] (by decide)
          (Json.dumpItems ((n :: ms).map (·.asdict)) ++ [']'])
        rw [ih hp.2] at hs
        exact congrArg (m.joined.asdict.dump ++ ·) hs
  have hd := @Scalar.joinQuotes_append_of_not_mem ['['] (by decide) (Json.dumpItems (ms.map (·.asdict)) ++ [']'])
  rw [hi] at hd
  exact hd

theorem foldl_insertMetric_sublist (ds ms : List MetricDescriptor) : ms.foldl insertMetric ds <+ ds ++ ms := by
  induction ms generalizing ds with
  | nil => simp
  | cons m ms ih =>
    refine (ih (insertMetric ds m)).trans ?_
    unfold insertMetric
    split
    · exact (Sublist.refl ds).append (sublist_cons_self m ms)
    · simp

theorem joinQuotes_metricsText {o : Outside} (ho : o.WritesMetrics) (ms : List MetricDescriptor) :
    Scalar.joinQuotes (metricsText o (some ms)).toList = (metricsText o (some (ms.map (·.joined)))).toList := by
  rw [toList_metricsText ho, toList_metricsText ho, joinQuotes_dump]
  · simp only [map_map, Function.comp_def]
    rfl
  · intro m hm
    obtain ⟨m, -, rfl⟩ := mem_map.1 hm
    rw [MetricDescriptor.encode, ho.base64]
    exact quote_not_mem_encodePattern _

/-- The text is read as JSON to its end, so it is that of the metrics with joined quotes. -/
theorem eq_metricsText_of_extracted {o : Outside} (ho : o.WritesMetrics) {compiles : String → Bool}
    {ms found : List MetricDescriptor} {cs : List Char} (hne : cs ≠ [])
    (hb : cs <+: (metricsText o (some ms)).toList) (h : extractedMetrics compiles (String.ofList cs) = some found) :
    String.ofList cs = metricsText o (some ms) := by
  simp only [extractedMetrics, bind, Option.bind_eq_some_iff] at h
  obtain ⟨metrics, hg, -⟩ := h
  rw [getMetrics, if_neg fun heq => hne (by simpa using congrArg String.toList heq)] at hg
  obtain ⟨j, hj, -⟩ := Option.bind_eq_some_iff.1 hg
  rw [toList_metricsText ho] at hb
  have hl := (Json.eq_of_loads_of_begins (distinct_asdict _) (by rwa [String.toList_ofList]) hj).2
  rw [← String.toList_inj, hl, toList_metricsText ho]

/-- The sidecar reads the metrics out of the quotes exactly if no name and no units have a quote,
every pattern is an expression and no metric comes twice. -/
theorem extractedMetrics_unquoted_iff {o : Outside} (ho : o.WritesMetrics) (compiles : String → Bool)
    {ms : List MetricDescriptor} {text : String} (ht : Scalar.single (metricsText o (some ms)) = some text) :
    extractedMetrics compiles text = some ms ↔
      (∀ m ∈ ms, compiles m.pattern = true ∧ '\'' ∉ m.name.toList ∧ '\'' ∉ m.units.toList) ∧ ms.Nodup := by
  have hq := quote_mem_metricsText ho ms
  rw [single_metricsText ho, Option.map_eq_some_iff] at ht
  obtain ⟨cs, hu, rfl⟩ := ht
  constructor
  · intro h
    by_cases hne : cs = []
    · subst hne
      obtain rfl : [] = ms := Option.some.inj h
      exact ⟨nofun, nodup_nil⟩
    have hb := Scalar.begins_of_unquote hu
    rw [joinQuotes_metricsText ho] at hb
    have ht := eq_metricsText_of_extracted ho hne hb h
    rw [ht, extractedMetrics_metricsText ho] at h
    split at h
    · rename_i hall
      rw [all_eq_true] at hall
      have hf := Option.some.inj h
      -- none of the metrics can have been left out, so that joining has changed none of them
      have hs := foldl_insertMetric_sublist [] (ms.map (·.joined))
      rw [hf, nil_append] at hs
      have hms := hs.eq_of_length (length_map _).symm
      rw [← hms] at ht hall
      have hno := Scalar.not_mem_of_unquote (hu.trans (congrArg some (by rw [← ht, String.toList_ofList])))
      rw [hq] at hno
      exact ⟨fun m hm => ⟨hall m hm, fun hn => hno ⟨m, hm, .inl hn⟩, fun hn => hno ⟨m, hm, .inr hn⟩⟩,
        hf ▸ nodup_foldl_insertMetric _ nodup_nil⟩
    · cases h
  · rintro ⟨hall, hn⟩
    have hno : '\'' ∉ (metricsText o (some ms)).toList := by
      rw [hq]
      rintro ⟨m, hm, hmem | hmem⟩
      · exact (hall m hm).2.1 hmem
      · exact (hall m hm).2.2 hmem
    obtain rfl := Option.some.inj (hu.symm.trans (Scalar.unquote_of_not_mem hno))
    rw [String.ofList_toList, extractedMetrics_iff ho]
    exact ⟨fun m hm => (hall m hm).1, hn⟩

theorem metricsVariableOf_of_fulfils {o} (hf : Fulfils o r h plan) (hout : plan.output = some ms) :
    metricsVariableOf h plan.replica = some (unquoted (metricsText o (some ms))) := by
  obtain ⟨_, -, p, hat, hs⟩ := hf
  obtain ⟨spec, hsp, hsh⟩ := getPodSpec_of_at hat
  have hm := hs.metrics
  rw [hout] at hm
  have hp : some metricsExtractorContainer ∈ (podContainers spec).map nameOf := by
    rw [hsh.names, some_mem_map_some, PodShape.mem_names_iff, ← Option.isSome_map, hm]
    rfl
  obtain ⟨t, ht, hn⟩ := mem_map.1 hp
  rw [metricsVariableOf, hsp]
  cases hfi : (podContainers spec).find? fun c => nameOf c = some metricsExtractorContainer with
  | none => exact absurd (decide_eq_true hn) (find?_eq_none.1 hfi t ht)
  | some sidecar =>
    have hsi := find?_some hfi
    obtain ⟨c, hc, hsn⟩ := hsh.find_of_nameOf (mem_of_find?_eq_some hfi) (of_decide_eq_true hsi)
    rw [hc] at hm
    have hte : c.metrics = some (unquoted (metricsText o (some ms))) := Option.some.inj hm
    rw [← hte, ← hsn.metrics (PodShape.name_of_find hc)]
    exact congrArg (·.bind (envValue metricsVariable)) hfi

/-! ## The round trip -/

def sidecarMetrics (compiles : String → Bool) (h : RootObjectHelper) (replica : Option String) :
    Option (List MetricDescriptor) :=
  (metricsVariableOf h replica).bind (extractedMetrics compiles)

def Values.withoutMetrics (v : Values) : Values := { v with metrics := "", server_metrics := "" }

/-- YAML has no place for text behind the closing quote of a scalar, other than a comment: if the
other values are nodes in their places, what is loaded has metrics that can be read. -/
def Yaml.QuotesEnd (y : Yaml) : Prop :=
  ∀ t v others docs, Doc.readItems y.scalar (t.docs v.withoutMetrics) = some others → y.load t v = .ok docs →
    ∃ docs, Doc.readItems y.scalar (t.docs v) = some docs

theorem quotesEnd_ofScalar (scalar : String → Option Tree) : (Yaml.ofScalar scalar).QuotesEnd :=
  fun _ _ _ docs _ hl => ⟨docs, readItems_of_load hl⟩

/-! ### Texts in quotes -/

mutual
def Doc.quotes : Doc → List String
  | .single s => [s]
  | .arr ds => quotesItems ds
  | .obj fs => quotesFields fs
  | .lit _ | .plain _ | .double _ => []

def Doc.quotesItems : List Doc → List String
  | [] => []
  | d :: ds => d.quotes ++ quotesItems ds

def Doc.quotesFields : List (String × Doc) → List String
  | [] => []
  | (_, d) :: fs => d.quotes ++ quotesFields fs
end

section Quotes
variable {scalar : String → Option Tree} {s : String}

mutual
theorem single_of_read : ∀ {d : Doc} {t}, d.read scalar = some t → s ∈ d.quotes → ∃ text, Scalar.single s = some text
  | .single _, _, h, hs => by
    obtain rfl := mem_singleton.1 hs
    obtain ⟨text, ht, -⟩ := Option.map_eq_some_iff.1 h
    exact ⟨text, ht⟩
  | .arr _, _, h, hs => by
    obtain ⟨_, hr, -⟩ := Option.map_eq_some_iff.1 h
    exact single_of_readItems hr hs
  | .obj _, _, h, hs => by
    obtain ⟨_, hr, -⟩ := Option.map_eq_some_iff.1 h
    exact single_of_readFields hr hs
  | .lit _, _, _, hs | .plain _, _, _, hs | .double _, _, _, hs => by cases hs

theorem single_of_readItems :
    ∀ {ds : List Doc} {ts}, Doc.readItems scalar ds = some ts → s ∈ Doc.quotesItems ds → ∃ text, Scalar.single s = some text
  | [], _, _, hs => by cases hs
  | _ :: _, _, h, hs => by
    simp only [Doc.readItems, bind, Option.bind_eq_some_iff] at h
    obtain ⟨_, ht, _, hr, -⟩ := h
    rcases mem_append.1 hs with hs | hs
    · exact single_of_read ht hs
    · exact single_of_readItems hr hs

theorem single_of_readFields :
    ∀ {fs : List (String × Doc)} {ts}, Doc.readFields scalar fs = some ts → s ∈ Doc.quotesFields fs →
      ∃ text, Scalar.single s = some text
  | [], _, _, hs => by cases hs
  | (_, _) :: _, _, h, hs => by
    simp only [Doc.readFields, bind, Option.bind_eq_some_iff] at h
    obtain ⟨_, ht, _, hr, -⟩ := h
    rcases mem_append.1 hs with hs | hs
    · exact single_of_read ht hs
    · exact single_of_readFields hr hs
end

end Quotes

section RoundTrip
variable {o : Outside}

theorem scalars_of_others (hq : o.yaml.QuotesEnd) {t v labels update} (hok : build o t v labels update = .ok h)
    (hs : Scalars o t (Values.withoutMetrics <$> v)) : Scalars o t v := by
  obtain ⟨vs, docs, rfl, hl⟩ := load_of_build hok
  obtain ⟨_, others, hv, hr⟩ := hs
  cases hv
  obtain ⟨docs, hr⟩ := hq t vs others docs hr hl
  exact ⟨vs, docs, rfl, hr⟩

theorem sidecarMetrics_iff (ho : o.WritesMetrics) (compiles : String → Bool) (hf : Fulfils o r h plan)
    (hout : plan.output = some ms) {text} (ht : Scalar.single (metricsText o (some ms)) = some text) :
    sidecarMetrics compiles h plan.replica = some ms ↔
      (∀ m ∈ ms, compiles m.pattern = true ∧ '\'' ∉ m.name.toList ∧ '\'' ∉ m.units.toList) ∧ ms.Nodup := by
  rw [sidecarMetrics, metricsVariableOf_of_fulfils hf hout, unquoted, ht]
  exact extractedMetrics_unquoted_iff ho compiles ht

theorem single_of_benchmark (hs : Scalars o r.descriptor.hardware.strategy.template (benchmarkValues o r))
    (hp : plan ∈ benchmarkPods r) : ∃ text, Scalar.single (metricsText o plan.output) = some text := by
  obtain ⟨v, docs, hv, hr⟩ := hs
  have hout : plan.output = r.descriptor.output := by
    unfold benchmarkPods at hp
    split at hp <;> simp only [mem_cons, not_mem_nil, or_false] at hp
    · rw [hp]
    · rw [hp]
    · rcases hp with rfl | rfl <;> rfl
  rw [hout, ← metrics_benchmarkValues hv]
  refine single_of_readItems hr ?_
  cases r.descriptor.hardware.strategy <;> exact mem_cons_self

/-- The sidecars of a benchmark and of its inference server look for exactly the metrics of the
descriptor if and only if no name and no units have a single quote, the patterns are regular
expressions and no metric comes twice. -/
theorem metrics_round_trip_iff (o : Outside) (ho : o.WritesMetrics) (hq : o.yaml.QuotesEnd) (compiles : String → Bool)
    (r : Request) (h : RootObjectHelper) :
    (buildBenchmark o r = .ok h →
      Scalars o r.descriptor.hardware.strategy.template (Values.withoutMetrics <$> benchmarkValues o r) →
      ∀ plan ∈ benchmarkPods r, ∀ ms, plan.output = some ms →
        (sidecarMetrics compiles h plan.replica = some ms ↔
          (∀ m ∈ ms, compiles m.pattern = true ∧ '\'' ∉ m.name.toList ∧ '\'' ∉ m.units.toList) ∧ ms.Nodup)) ∧
    ∀ server, buildInferenceServer o r server = .ok h →
      Scalars o .inference_server_job (Values.withoutMetrics <$> serverValues o r server) →
      ∀ plan ∈ serverPods r server, ∀ ms, plan.output = some ms →
        (sidecarMetrics compiles h plan.replica = some ms ↔
          (∀ m ∈ ms, compiles m.pattern = true ∧ '\'' ∉ m.name.toList ∧ '\'' ∉ m.units.toList) ∧ ms.Nodup) := by
  constructor
  · intro hok hs plan hp ms hout
    obtain ⟨_, -, hb⟩ := bind_ok.1 hok
    have hs := scalars_of_others hq hb hs
    obtain ⟨text, ht⟩ := single_of_benchmark hs hp
    exact sidecarMetrics_iff ho compiles (fulfils_benchmark hok hs hp) hout (hout ▸ ht)
  · intro server hok hs plan hp ms hout
    have hs := scalars_of_others hq hok hs
    have hf := fulfils_server hok hs hp
    obtain rfl := mem_singleton.1 hp
    obtain ⟨v, docs, hv, hr⟩ := hs
    obtain ⟨text, ht⟩ := single_of_readItems (s := v.server_metrics) hr (mem_cons_of_mem _ mem_cons_self)
    have hout : server.output = some ms := hout
    rw [metrics_serverValues hv, hout] at ht
    exact sidecarMetrics_iff ho compiles hf hout ht

end RoundTrip

def metricsOutside : Outside := { exampleOutside with base64 := encodePattern, dumpMetrics := dumpMetrics }

def metricsRequest (metrics : List MetricDescriptor) : Request :=
  { exampleRequest trainingLabels with
    descriptor := { (exampleRequest trainingLabels).descriptor with output := some metrics } }

def lossMetrics : List MetricDescriptor := [⟨"loss", "", "(\\d+)"⟩]

theorem metrics_round_trip_loss : ∃ h, buildBenchmark metricsOutside (metricsRequest lossMetrics) = .ok h ∧
    sidecarMetrics (fun _ => true) h none = some lossMetrics := by
  have hb : (buildBenchmark metricsOutside (metricsRequest lossMetrics)).toOption.any (fun _ => true) = true := by
    decide +kernel
  have hs : (benchmarkValues metricsOutside (metricsRequest lossMetrics)).toOption.any
      (fun v => (Doc.readItems exampleScalar (Template.jobSingleNode v.withoutMetrics)).isSome) = true := by decide +kernel
  obtain ⟨h, hok, -⟩ := exists_ok_of_any hb
  obtain ⟨v, hv, hr⟩ := exists_ok_of_any hs
  obtain ⟨docs, hd⟩ := Option.isSome_iff_exists.1 hr
  have hm := (metrics_round_trip_iff metricsOutside ⟨rfl, rfl⟩ (quotesEnd_ofScalar _) (fun _ => true)
    (metricsRequest lossMetrics) h).1 hok ⟨_, docs, by rw [hv]; rfl, hd⟩ _ mem_cons_self lossMetrics rfl
  exact ⟨h, hok, hm.2 (by decide)⟩

def quotedRequest : Request := metricsRequest [⟨"a''b", "", "(\\d+)"⟩]

/-- The specification is accepted, and the sidecar looks for a metric with another name. -/
theorem quotes_in_name_are_joined : ∃ objs h, createJobSpec metricsOutside quotedRequest = .ok objs ∧
    buildBenchmark metricsOutside quotedRequest = .ok h ∧ objs = h.objects ∧
    ∃ plan ∈ benchmarkPods quotedRequest, plan.output = some [⟨"a''b", "", "(\\d+)"⟩] ∧
      sidecarMetrics (fun _ => true) h plan.replica = some [⟨"a'b", "", "(\\d+)"⟩] := by
  have hv : (quotedRequest.descriptor.fromDict metricsOutside.cronValid quotedRequest.config.descriptor_config).toOption.any
      (fun d => d.hardware.strategy ≠ .inference) = true := by decide +kernel
  have hb : (buildBenchmark metricsOutside quotedRequest).toOption.any (fun h =>
      sidecarMetrics (fun _ => true) h none = some [⟨"a'b", "", "(\\d+)"⟩]) = true := by
    decide +kernel
  obtain ⟨h, hok, hs⟩ := exists_ok_of_any hb
  exact ⟨_, h, createJobSpec_of_valid hv hok, hok, rfl, _, mem_cons_self, rfl, of_decide_eq_true hs⟩

end BenchmarkAi.Transpiler
