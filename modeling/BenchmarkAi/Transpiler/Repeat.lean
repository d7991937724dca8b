import BenchmarkAi.Transpiler.Metrics
/-!
# One descriptor for several builds

`get_metrics_from_descriptor` writes the patterns in Base64 back into the metrics of the descriptor.
The next builder that is given the same descriptor finds them there, and encodes them once more.
-/

open Lib List

namespace BenchmarkAi.Transpiler

/-! ## What a build does to its descriptor -/

section Builds
variable (o : Outside)

def encodeMetrics (output : Option (List MetricDescriptor)) : Option (List MetricDescriptor) :=
  output.map fun metrics => metrics.map (·.encode o)

def getMetricsFromDescriptor (d : BenchmarkDescriptor) : String × BenchmarkDescriptor :=
  (metricsText o d.output, { d with output := encodeMetrics o d.output })

def serverOutput (d : BenchmarkDescriptor) : Option (List MetricDescriptor) :=
  if d.isInferenceStrategy then d.server.bind (·.output) else none

def getServerMetricsFromDescriptor (d : BenchmarkDescriptor) : String × BenchmarkDescriptor :=
  (metricsText o (serverOutput d),
    if d.isInferenceStrategy then
      { d with server := d.server.map fun server => { server with output := encodeMetrics o server.output } }
    else d)

inductive Builder
  | client
  | server
deriving DecidableEq, Repr

/-- The builder gets as far as the metrics: scripts and zone are read before. -/
def Builder.feeds (r : Request) : Builder → Bool
  | client => (r.scripts.mapM fun dst => s3Object o "script" (some dst)).isOk && (chooseAvailabilityZone o r).isOk
  | server => (chooseAvailabilityZone o r).isOk

def Builder.objects (r : Request) : Builder → Py (List Tree)
  | client => return (← buildBenchmark o r).objects
  | server =>
    match r.descriptor.server with
    | none => throw .builtin
    | some d =>
      return (← build o .inference_server_job (serverValues o r { d with output := serverOutput r.descriptor })
        r.descriptor.info.labels (inferenceServerUpdate o r d)).objects

def Builder.feed (d : BenchmarkDescriptor) : Builder → BenchmarkDescriptor
  | client => (getMetricsFromDescriptor o d).2
  | server => (getServerMetricsFromDescriptor o (getMetricsFromDescriptor o d).2).2

def Builder.after (r : Request) (b : Builder) : BenchmarkDescriptor :=
  if b.feeds o r then b.feed o r.descriptor else r.descriptor

def builds (r : Request) : List Builder → List (Builder × Py (List Tree)) × BenchmarkDescriptor
  | [] => ([], r.descriptor)
  | b :: bs =>
    ((b, b.objects o r) :: (builds { r with descriptor := b.after o r } bs).1,
      (builds { r with descriptor := b.after o r } bs).2)

/-- Any builds leave the descriptor as it was, and each builder comes to the same result each time. -/
structure Repeatable (r : Request) : Prop where
  descriptor : ∀ bs, (builds o r bs).2 = r.descriptor
  objects : ∀ bs, ∀ x ∈ (builds o r bs).1, ∀ y ∈ (builds o r bs).1, x.1 = y.1 → x.2 = y.2

def Builder.metrics (d : BenchmarkDescriptor) : Builder → List MetricDescriptor
  | client => d.output.getD []
  | server => d.output.getD [] ++ (serverOutput d).getD []

end Builds

/-! ## Patterns -/

theorem length_le_toUTF8 (s : String) : s.toList.length ≤ s.toUTF8.data.toList.length := by
  have hb (cs : List Char) : cs.length ≤ (cs.flatMap String.utf8EncodeChar).length := by
    induction cs with
    | nil => exact Nat.le_refl 0
    | cons c cs ih =>
      have hpos := Char.utf8Size_pos c
      rw [flatMap_cons, length_append, String.length_utf8EncodeChar, length_cons]
      omega
  rw [String.toUTF8_eq_toByteArray, ← String.utf8Encode_toList]
  simpa [utf8Encode] using hb s.toList

/-- Base64 of a text is another text. -/
theorem encodePattern_eq_self {pattern} : encodePattern pattern = pattern ↔ pattern = "" := by
  constructor
  · intro h
    have hlen := congrArg (·.toList.length) h
    have hle := length_le_toUTF8 pattern
    by_contra hne
    have hb : pattern.toUTF8.data.toList ≠ [] := by
      intro hnil
      rw [hnil] at hle
      exact hne (String.toList_inj.1 (length_eq_zero_iff.1 (Nat.le_zero.1 hle)))
    have hlt := Base64.length_lt_encode hb
    simp only [encodePattern, String.toList_ofList] at hlen
    omega
  · rintro rfl
    rfl

section Patterns
variable {o : Outside} {r : Request}

theorem encode_eq_self {m : MetricDescriptor} : m.encode o = m ↔ o.base64 m.pattern = m.pattern := by
  constructor
  · intro h
    exact congrArg MetricDescriptor.pattern h
  · intro h
    rw [MetricDescriptor.encode, h]

theorem encodeMetrics_eq_self {output : Option (List MetricDescriptor)} :
    encodeMetrics o output = output ↔ ∀ m ∈ output.getD [], o.base64 m.pattern = m.pattern := by
  cases output with
  | none => exact iff_of_true rfl nofun
  | some metrics =>
    rw [encodeMetrics, Option.map_some, Option.some.injEq, Option.getD_some]
    induction metrics with
    | nil => exact iff_of_true rfl nofun
    | cons m metrics ih => rw [map_cons, cons.injEq, ih, encode_eq_self, forall_mem_cons]

theorem metrics_after_eq {d : BenchmarkDescriptor} :
    (getMetricsFromDescriptor o d).2 = d ↔ ∀ m ∈ d.output.getD [], o.base64 m.pattern = m.pattern := by
  rw [← encodeMetrics_eq_self]
  constructor
  · intro h
    exact congrArg BenchmarkDescriptor.output h
  · intro h
    rw [getMetricsFromDescriptor, h]

theorem serverMetrics_after_eq {d} :
    (getServerMetricsFromDescriptor o d).2 = d ↔ ∀ m ∈ (serverOutput d).getD [], o.base64 m.pattern = m.pattern := by
  rw [← encodeMetrics_eq_self, getServerMetricsFromDescriptor, serverOutput]
  cases hi : d.isInferenceStrategy with
  | false => exact iff_of_true rfl rfl
  | true =>
    rw [if_pos rfl, if_pos rfl]
    cases hs : d.server with
    | none =>
      refine iff_of_true ?_ rfl
      rw [Option.map_none, ← hs]
    | some server =>
      rw [Option.map_some, Option.bind_some]
      constructor
      · intro h
        have hse := congrArg BenchmarkDescriptor.server h
        rw [hs] at hse
        exact congrArg ServerDescriptor.output (Option.some.inj hse)
      · intro h
        rw [h, ← hs]

theorem after_eq_iff {b : Builder} :
    b.after o r = r.descriptor ↔ (b.feeds o r = true → ∀ m ∈ b.metrics r.descriptor, o.base64 m.pattern = m.pattern) := by
  rw [Builder.after]
  split
  · rename_i hf
    rw [forall_prop_of_true hf]
    cases b with
    | client => exact metrics_after_eq
    | server =>
      rw [Builder.feed, Builder.metrics, forall_mem_append, ← metrics_after_eq]
      constructor
      · intro h
        have ho : (getMetricsFromDescriptor o r.descriptor).2 = r.descriptor := by
          have hout := congrArg BenchmarkDescriptor.output h
          refine metrics_after_eq.2 (encodeMetrics_eq_self.1 (Eq.trans ?_ hout))
          rw [getServerMetricsFromDescriptor]
          split <;> rfl
        rw [ho] at h
        exact ⟨ho, serverMetrics_after_eq.1 h⟩
      · rintro ⟨ho, h⟩
        rw [ho]
        exact serverMetrics_after_eq.2 h
  · rename_i hf
    exact iff_of_true rfl fun h => absurd h hf

theorem builds_eq (h : ∀ b : Builder, b.after o r = r.descriptor) (bs : List Builder) :
    builds o r bs = (bs.map fun b => (b, b.objects o r), r.descriptor) := by
  induction bs with
  | nil => rfl
  | cons b bs ih => rw [builds, h b, ih, map_cons]

/-- Builds can be repeated exactly if they find no pattern that they would change. -/
theorem repeatable_iff (ho : o.base64 = encodePattern) (r : Request) :
    Repeatable o r ↔ ∀ b : Builder, b.feeds o r = true → ∀ m ∈ b.metrics r.descriptor, m.pattern = "" := by
  have hp (b : Builder) : b.after o r = r.descriptor ↔
      (b.feeds o r = true → ∀ m ∈ b.metrics r.descriptor, m.pattern = "") := by
    rw [after_eq_iff]
    simp only [ho, encodePattern_eq_self]
  constructor
  · intro h b
    exact (hp b).1 (h.descriptor [b])
  · intro h
    have heq := builds_eq fun b => (hp b).2 (h b)
    refine ⟨fun bs => by rw [heq], fun bs x hx y hy hxy => ?_⟩
    rw [heq] at hx hy
    obtain ⟨b, -, rfl⟩ := mem_map.1 hx
    obtain ⟨b', -, rfl⟩ := mem_map.1 hy
    obtain rfl : b = b' := hxy
    rfl

end Patterns

theorem repeatable_without_metrics : Repeatable metricsOutside (exampleRequest trainingLabels) := by
  refine (repeatable_iff rfl _).2 fun b _ => ?_
  cases b <;> exact nofun

/-- The second build has a pattern that is encoded twice, and the extractor looks for another text. -/
theorem encoded_twice : ((builds metricsOutside (metricsRequest lossMetrics) [.client, .client]).1.map fun x =>
      x.2.toOption.bind fun objects => objects.getLast?.bind fun root =>
        sidecarMetrics (fun _ => true) ⟨root, [], [], []⟩ none) =
      [some [⟨"loss", "", "(\\d+)"⟩], some [⟨"loss", "", "KFxkKyk="⟩]] ∧
    (builds metricsOutside (metricsRequest lossMetrics) [.client, .client]).2.output = some [⟨"loss", "", "S0Z4a0t5az0="⟩] := by
  decide +kernel

end BenchmarkAi.Transpiler
