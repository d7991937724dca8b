import BenchmarkAi.Lib.Environ
import BenchmarkAi.Lib.Except
/-!
# The input of the metrics pusher

`bai_metrics_pusher/args.py` and `backends/kafka_backend.py`: which backend the environment
names, the arguments of its constructor, and the records that the Kafka backend sends. Custom
labels have variables with a prefix of their own; their names are what follows, in lower case.
-/

open Lib List

namespace BenchmarkAi.Pusher

/-! ## Upper and lower case

`str.lower` and `str.upper` are outside of the model; of texts in ASCII they change the letters.
-/

def asciiLower (s : String) : String := String.ofList (s.toList.map (·.toLower))

def asciiUpper (s : String) : String := String.ofList (s.toList.map (·.toUpper))

def Ascii (s : String) : Prop := ∀ c ∈ s.toList, c.toNat < 128

-- the characters of `s` are looked at, not all characters
instance (s : String) : Decidable (Ascii s) := decidableBAll _ s.toList

structure AsciiCase (lower upper : String → String) : Prop where
  lower_eq : ∀ s, Ascii s → lower s = asciiLower s
  upper_eq : ∀ s, Ascii s → upper s = asciiUpper s

def CaseFree (s : String) : Prop := asciiLower s = s

instance (s : String) : Decidable (CaseFree s) := inferInstanceAs (Decidable (_ = _))

variable {c : Char}

theorem toLower_toUpper (h : c.toNat < 128) : c.toUpper.toLower = c.toLower := by
  have hall : ∀ n < 128, (Char.ofNat n).toUpper.toLower = (Char.ofNat n).toLower := by decide
  have hc := hall c.toNat h
  rw [Char.ofNat_toNat] at hc
  exact hc

theorem toNat_toUpper (h : c.toNat < 128) : c.toUpper.toNat < 128 := by
  have hall : ∀ n < 128, (Char.ofNat n).toUpper.toNat < 128 := by decide
  simpa using hall c.toNat h

theorem toLower_toLower (h : c.toNat < 128) : c.toLower.toLower = c.toLower := by
  have hall : ∀ n < 128, (Char.ofNat n).toLower.toLower = (Char.ofNat n).toLower := by decide
  have hc := hall c.toNat h
  rw [Char.ofNat_toNat] at hc
  exact hc

section Case
variable {s t : String}

theorem Ascii.append (hs : Ascii s) (ht : Ascii t) : Ascii (s ++ t) := by
  intro c hc
  rw [String.toList_append, mem_append] at hc
  exact hc.elim (hs c) (ht c)

theorem Ascii.upper (h : Ascii s) : Ascii (asciiUpper s) := by
  intro c hc
  rw [asciiUpper, String.toList_ofList, mem_map] at hc
  obtain ⟨d, hd, rfl⟩ := hc
  exact toNat_toUpper (h d hd)

theorem asciiLower_append : asciiLower (s ++ t) = asciiLower s ++ asciiLower t := by
  simp [asciiLower]

theorem asciiLower_upper (h : Ascii s) : asciiLower (asciiUpper s) = asciiLower s := by
  rw [asciiLower, asciiUpper, String.toList_ofList, map_map]
  congr 1
  exact map_congr_left fun c hc => toLower_toUpper (h c hc)

theorem caseFree_lower (h : Ascii s) : CaseFree (asciiLower s) := by
  rw [CaseFree, asciiLower, asciiLower, String.toList_ofList, map_map]
  congr 1
  exact map_congr_left fun c hc => toLower_toLower (h c hc)

end Case

/-! ## The arguments of a backend -/

def backendArgPrefix : String := "backend_arg_"
def customLabelPrefix : String := "custom_label_"

/-- The annotations of the parameters: `str`, `int`, `List[str]` and `Dict[str, str]`. -/
inductive ParamType
  | str
  | int
  | strs
  | labels
deriving DecidableEq, Repr

inductive BackendName
  | stdout
  | elasticsearch
  | kafka
deriving DecidableEq, Repr

def BackendName.parameters : BackendName → List (String × ParamType)
  | stdout => [("labels", .labels)]
  | elasticsearch =>
    [("action_id", .str), ("client_id", .str), ("labels", .labels), ("hostname", .str), ("port", .int)]
  | kafka =>
    [("action_id", .str), ("client_id", .str), ("labels", .labels), ("topic", .str), ("bootstrap_servers", .strs),
      ("key", .str)]

inductive InputError
  | keyError
  | valueError
  | typeError
  | systemExit
deriving DecidableEq, Repr

inductive Value
  | text (s : String)
  | labels (d : Dict String)

inductive Arg
  | str (s : String)
  | int (n : Int)
  | strs (ss : List String)
  | labels (d : Dict String)

/-- The conversion by the annotation; a value that is no text is passed as it is. -/
def convert (parseInt : String → Option Int) : ParamType → Value → Except InputError Arg
  | _, .labels d => return .labels d
  | .str, .text s => return .str s
  | .strs, .text s => return .strs ((s.toList.splitOn ',').map String.ofList)
  | .int, .text s =>
    match parseInt s with
    | some n => return .int n
    | none => throw .valueError
  | .labels, .text _ => throw .typeError

def parameterValue (parseInt : String → Option Int) (pre : String) (values : Dict Value) (p : String × ParamType) :
    Except InputError (String × Arg) :=
  match values.get? (pre ++ p.1) with
  | none => throw .valueError
  | some value => return (p.1, ← convert parseInt p.2 value)

def createDictOfParameterValues (parseInt : String → Option Int) (pre : String) (values : Dict Value)
    (parameters : List (String × ParamType)) : Except InputError (List (String × Arg)) := do
  values.entries.forM fun kv =>
    if pre.toList.isPrefixOf kv.1.toList ∧
        String.ofList (kv.1.toList.drop pre.toList.length) ∉ parameters.map Prod.fst then throw .keyError
    else return ()
  parameters.mapM (parameterValue parseInt pre values)

def createDictOfCustomLabels (lower : String → String) (pre : String) (values : Dict String) : Dict String :=
  .ofFields (values.entries.filterMap fun kv =>
    if pre.toList.isPrefixOf (lower kv.1).toList then
      some (lower (String.ofList (kv.1.toList.drop pre.toList.length)), kv.2)
    else none)

structure InputValue where
  backend : BackendName
  pod_name : Option String
  pod_namespace : Option String
  backend_args : List (String × Arg)

def chooseBackend : Option String → Except InputError BackendName
  | none => return .stdout
  | some "stdout" => return .stdout
  | some "elasticsearch" => return .elasticsearch
  | some "kafka" => return .kafka
  | some _ => throw .systemExit

def backendValues (lower : String → String) (environ : Dict String) : Dict Value :=
  (Dict.ofFields (environ.entries.map fun kv => (lower kv.1, .text kv.2))).set (lower backendArgPrefix ++ "labels")
    (.labels (createDictOfCustomLabels lower customLabelPrefix environ))

def getInput (lower : String → String) (parseInt : String → Option Int) (environ : Dict String) :
    Except InputError InputValue := do
  let backend ← chooseBackend (environ.get? "BACKEND")
  let backend_args ← createDictOfParameterValues parseInt backendArgPrefix (backendValues lower environ) backend.parameters
  return { backend, pod_name := environ.get? "POD_NAME", pod_namespace := environ.get? "POD_NAMESPACE", backend_args }

variable {v : Value} {args : List (String × Arg)}

section Values
variable {lower : String → String} {environ : Dict String} {pre key name value : String}

theorem mem_customLabels : (name, value) ∈ environ.entries.filterMap (fun kv =>
    if pre.toList.isPrefixOf (lower kv.1).toList then
      some (lower (String.ofList (kv.1.toList.drop pre.toList.length)), kv.2)
    else none) ↔
    ∃ key, environ.get? key = some value ∧ pre.toList <+: (lower key).toList ∧
      lower (String.ofList (key.toList.drop pre.toList.length)) = name := by
  rw [mem_filterMap]
  constructor
  · rintro ⟨⟨key, w⟩, hmem, heq⟩
    split at heq
    · rename_i hpre
      cases heq
      exact ⟨key, (mem_entries_iff_lookup environ.nodup).1 hmem, isPrefixOf_iff_prefix.1 hpre, rfl⟩
    · cases heq
  · rintro ⟨key, hget, hpre, rfl⟩
    exact ⟨(key, value), mem_of_lookup hget, if_pos ( isPrefixOf_iff_prefix.2 hpre)⟩

theorem customLabels_cases (h : (createDictOfCustomLabels lower pre environ).get? name = some value) :
    ∃ key, environ.get? key = some value ∧ pre.toList <+: (lower key).toList ∧
      lower (String.ofList (key.toList.drop pre.toList.length)) = name := by
  rw [createDictOfCustomLabels, Dict.get?_ofFields] at h
  exact mem_customLabels.1 (mem_reverse.1 (mem_of_lookup h))

/-- A variable leads to a custom label, unless another one leads to the same. -/
theorem customLabels_get? (hget : environ.get? key = some value) (hpre : pre.toList <+: (lower key).toList)
    (hu : ∀ key' value', environ.get? key' = some value' → pre.toList <+: (lower key').toList →
      lower (String.ofList (key'.toList.drop pre.toList.length)) = lower (String.ofList (key.toList.drop pre.toList.length)) →
      value' = value) :
    (createDictOfCustomLabels lower pre environ).get? (lower (String.ofList (key.toList.drop pre.toList.length))) =
      some value := by
  rw [createDictOfCustomLabels, Dict.get?_ofFields]
  apply lookup_of_unique
  · exact mem_reverse.2 (mem_customLabels.2 ⟨key, hget, hpre, rfl⟩)
  · intro w hw
    obtain ⟨key', hget', hpre', hn⟩ := mem_customLabels.1 (mem_reverse.1 hw)
    exact hu key' w hget' hpre' hn

/-- The values have the variables under their names in lower case, and the labels. -/
theorem backendValues_cases (h : (backendValues lower environ).get? name = some v) :
    name = lower backendArgPrefix ++ "labels" ∨ ∃ key value, environ.get? key = some value ∧ lower key = name := by
  by_cases hn : name = lower backendArgPrefix ++ "labels"
  · exact .inl hn
  · rw [backendValues, Dict.get?_set_ne _ hn, Dict.get?_ofFields] at h
    obtain ⟨⟨key, value⟩, hmem, heq⟩ := mem_map.1 (mem_reverse.1 (mem_of_lookup h))
    exact .inr ⟨key, value, (mem_entries_iff_lookup environ.nodup).1 hmem, (Prod.mk.inj heq).1⟩

theorem backendValues_get? (hget : environ.get? key = some value) (hn : lower key ≠ lower backendArgPrefix ++ "labels")
    (hu : ∀ key' value', environ.get? key' = some value' → lower key' = lower key → key' = key) :
    (backendValues lower environ).get? (lower key) = some (.text value) := by
  rw [backendValues, Dict.get?_set_ne _ hn, Dict.get?_ofFields]
  apply lookup_of_unique
  · exact mem_reverse.2 (mem_map.2 ⟨(key, value), mem_of_lookup hget, rfl⟩)
  · intro w hw
    obtain ⟨⟨key', value'⟩, hmem, heq⟩ := mem_map.1 (mem_reverse.1 hw)
    obtain ⟨hl, rfl⟩ := Prod.mk.inj heq
    have hget' := (mem_entries_iff_lookup environ.nodup).1 hmem
    obtain rfl := hu key' value' hget' hl
    exact congrArg Value.text (Option.some.inj (hget'.symm.trans hget))

theorem parameterValue_ok (parseInt : String → Option Int) {values : Dict Value} {type arg}
    (hget : values.get? (pre ++ name) = some v) (hc : convert parseInt type v = .ok arg) :
    parameterValue parseInt pre values (name, type) = .ok (name, arg) := by
  rw [parameterValue, hget]
  exact bind_ok.2 ⟨arg, hc, rfl⟩

theorem createDictOfParameterValues_ok {parseInt} {values : Dict Value} {parameters : List (String × ParamType)}
    (hk : ∀ name v, values.get? name = some v → pre.toList <+: name.toList → String.ofList (name.toList.drop pre.toList.length) ∈ parameters.map Prod.fst)
    (ha : Forall₂ (fun p arg => parameterValue parseInt pre values p = .ok arg) parameters args) :
    createDictOfParameterValues parseInt pre values parameters = .ok args := by
  rw [createDictOfParameterValues, forM_ok.2]
  · exact mapM_of_forall₂ ha
  · intro kv hkv
    apply if_neg
    rintro ⟨hpre, hu⟩
    exact hu (hk kv.1 kv.2 ((mem_entries_iff_lookup values.nodup).1 hkv) ( isPrefixOf_iff_prefix.1 hpre))

theorem getInput_ok {parseInt} {backend : BackendName} (hb : chooseBackend (environ.get? "BACKEND") = .ok backend)
    (ha : createDictOfParameterValues parseInt backendArgPrefix (backendValues lower environ) backend.parameters = .ok args) :
    ∃ input, getInput lower parseInt environ = .ok input ∧ input.backend = backend ∧ input.backend_args = args := by
  refine ⟨⟨backend, environ.get? "POD_NAME", environ.get? "POD_NAMESPACE", args⟩, ?_, rfl, rfl⟩
  exact bind_ok.2 ⟨backend, hb, bind_ok.2 ⟨args, ha, rfl⟩⟩

end Values

/-! ## The Kafka backend -/

structure KafkaBackend where
  labels : Dict String
  bootstrap_servers : List String
  key : String
  topic : String

def KafkaBackend.create (action_id client_id : String) (labels : Dict String) (topic : String)
    (bootstrap_servers : List String) (key : String) : KafkaBackend where
  labels := (Dict.ofFields [("action-id", action_id), ("client-id", client_id)]).update labels.entries
  bootstrap_servers
  key
  topic

/-- A custom label with the name of an id is in its place. -/
theorem KafkaBackend.get?_labels (action_id client_id : String) (labels : Dict String) (topic : String)
    (bootstrap_servers : List String) (key k : String) :
    (KafkaBackend.create action_id client_id labels topic bootstrap_servers key).labels.get? k =
      (labels.get? k).or (if k = "action-id" then some action_id else if k = "client-id" then some client_id else none) := by
  rw [create, Dict.get?_update, Dict.lookup_reverse, Dict.get?_ofFields]
  congr 1
  rw [show [("action-id", action_id), ("client-id", client_id)].reverse = [("client-id", client_id), ("action-id", action_id)]
    from rfl, lookup_cons_if, lookup_cons_if]
  by_cases ha : k = "action-id"
  · simp [ha]
  · simp [ha]

def InputValue.kafkaBackend (input : InputValue) : Option KafkaBackend :=
  match input.backend, input.backend_args.map Prod.snd with
  | .kafka, [.str action_id, .str client_id, .labels labels, .str topic, .strs bootstrap_servers, .str key] =>
    some (.create action_id client_id labels topic bootstrap_servers key)
  | _, _ => none

structure KafkaExporterMetric (β : Type) where
  name : String
  value : β
  timestamp : Int
  labels : Dict String

def KafkaBackend.emit {β : Type} (b : KafkaBackend) (timestamp_in_millis : Int) (metrics : List (String × β)) :
    List (KafkaExporterMetric β) :=
  metrics.map fun m => { name := m.1, value := m.2, timestamp := timestamp_in_millis, labels := b.labels }

theorem KafkaBackend.emit_labels {β : Type} (b : KafkaBackend) (millis : Int) (metrics : List (String × β)) :
    ∀ m ∈ b.emit millis metrics, m.labels = b.labels := by
  intro m hm
  obtain ⟨metric, -, rfl⟩ := mem_map.1 hm
  rfl

end BenchmarkAi.Pusher
