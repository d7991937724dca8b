import BenchmarkAi.Pusher.Args
import BenchmarkAi.Transpiler.VolumeTheorems
import BenchmarkAi.Transpiler.LabelGrammar
import BenchmarkAi.Transpiler.PusherContainer
/-!
# From the labels of a benchmark to those of its metrics

The transpiler gives each custom label a variable of the metrics pusher, with a name in upper
case. The pusher reads the names back in lower case and adds the ids of the action and of the
client. `labels_attached_iff` says for which labels this leads to the labels of the descriptor.
-/

open Lib BenchmarkAi.Transpiler List

namespace BenchmarkAi.Pusher

/-! ## The environment of the pusher -/

structure Ids where
  action_id : String
  client_id : String
  servers : String
  pod_name : String
  pod_namespace : String

def templateVars (ids : Ids) : List (String × Source) :=
  [("BENCHMARK_AI_FIFO_FILEPATH", .text "/tmp/benchmark-ai/fifo"), ("BACKEND", .text "kafka"),
    ("BACKEND_ARG_ACTION_ID", .text ids.action_id), ("BACKEND_ARG_CLIENT_ID", .text ids.client_id),
    ("BACKEND_ARG_BOOTSTRAP_SERVERS", .given ids.servers), ("BACKEND_ARG_KEY", .text ids.client_id),
    ("BACKEND_ARG_TOPIC", .text "BAI_METRICS"), ("POD_NAME", .given ids.pod_name),
    ("POD_NAMESPACE", .given ids.pod_namespace)]

def templateNames : List String :=
  ["BENCHMARK_AI_FIFO_FILEPATH", "BACKEND", "BACKEND_ARG_ACTION_ID", "BACKEND_ARG_CLIENT_ID", "BACKEND_ARG_BOOTSTRAP_SERVERS",
    "BACKEND_ARG_KEY", "BACKEND_ARG_TOPIC", "POD_NAME", "POD_NAMESPACE"]

theorem mem_templateNames {ids} {var : String × Source} (h : var ∈ templateVars ids) : var.1 ∈ templateNames :=
  mem_map_of_mem h

def argNames : List String :=
  ["BACKEND_ARG_ACTION_ID", "BACKEND_ARG_CLIENT_ID", "BACKEND_ARG_BOOTSTRAP_SERVERS", "BACKEND_ARG_KEY", "BACKEND_ARG_TOPIC"]

/-- They have their prefix, and after it the parameters. -/
theorem lower_argNames : ∀ k ∈ argNames, Ascii k ∧ asciiLower k ≠ backendArgPrefix ++ "labels" ∧
    backendArgPrefix.toList <+: (asciiLower k).toList ∧
    String.ofList ((asciiLower k).toList.drop backendArgPrefix.toList.length) ∈ BackendName.kafka.parameters.map Prod.fst := by
  decide +kernel

theorem ascii_templateNames : ∀ k ∈ templateNames, Ascii k := by decide +kernel

/-- No variable of the template has the prefix of the labels, and the arguments have theirs. -/
theorem lower_templateNames : ∀ k ∈ templateNames, ¬ customLabelPrefix.toList <+: (asciiLower k).toList ∧
    (backendArgPrefix.toList <+: (asciiLower k).toList → k ∈ argNames) := by decide +kernel

def labelName (o : Outside) (key : String) : String := o.upper metricsPusherCustomLabelPrefix ++ o.upper key

def labelVars (o : Outside) (labels : Dict String) : List (String × Source) :=
  labels.entries.map fun kv => (labelName o kv.1, .text kv.2)

/-- A text that the loader reads as itself, and in which Kubernetes finds no reference. -/
structure Carried (o : Outside) (s : String) : Prop where
  scalar : o.yaml.scalar s = some (.str s)
  inert : Inert s.toList

/-- The pusher of a pod has these variables and no other ones. -/
theorem containerVars_pusher {o} {v : Values} {labels : Dict String} {c} (refs : Tree → String)
    (hs : PusherShows (PusherEnv o v) (labels.entries.map fun kv => labelVar o kv.1 kv.2) c)
    (ha : Carried o v.action_id) (hc : Carried o v.client_id) :
    ∃ ids : Ids, ids.action_id = v.action_id ∧ ids.client_id = v.client_id ∧
      containerVars refs c = templateVars ids ++ labelVars o labels := by
  obtain ⟨vars, hv, henv⟩ := hs.env
  have hi : Template.pusherEnv v = [
      Template.envValue "BENCHMARK_AI_FIFO_FILEPATH" (Template.text "/tmp/benchmark-ai/fifo"),
      Template.envValue "BACKEND" (Template.text "kafka"), Template.envValue "BACKEND_ARG_ACTION_ID" (.plain v.action_id),
      Template.envValue "BACKEND_ARG_CLIENT_ID" (.plain v.client_id),
      Template.envConfig "BACKEND_ARG_BOOTSTRAP_SERVERS" (Template.text "outputs-infrastructure")
        (Template.text "msk_bootstrap_brokers"),
      Template.envValue "BACKEND_ARG_KEY" (.plain v.client_id), Template.envValue "BACKEND_ARG_TOPIC" (Template.text "BAI_METRICS"),
      Template.envField "POD_NAME" "metadata.name", Template.envField "POD_NAMESPACE" "metadata.namespace"] := rfl
  rw [PusherEnv, hi] at hv
  simp [Doc.readItems, Doc.read, Doc.readFields, Template.envValue, Template.envConfig, Template.envField, Template.text,
    ha.scalar, hc.scalar] at hv
  subst hv
  have hl : (labels.entries.map fun kv => labelVar o kv.1 kv.2).filterMap
      (fun var => (nameOf var).map fun name => (name, varSource refs var)) = labelVars o labels := by
    rw [labelVars, filterMap_map, ← filterMap_eq_map']
    exact filterMap_congr fun kv _ => rfl
  rw [containerVars, listOf_of_get? henv, filterMap_append, hl]
  exact ⟨⟨v.action_id, v.client_id, _, _, _⟩, rfl, rfl, rfl⟩

/-- No variable of the image has a name that the pusher takes for a label or an argument of a backend. -/
def Unrelated (lower : String → String) (base : Dict String) : Prop :=
  ∀ k v, base.get? k = some v → ¬ customLabelPrefix.toList <+: (lower k).toList ∧
    ¬ backendArgPrefix.toList <+: (lower k).toList

section Environ
variable {o : Outside} {base : Dict String} {labels : Dict String} {ids : Ids}
  {k value : String}

def pusherEnviron (o : Outside) (base labels : Dict String) (ids : Ids) :
    Dict String :=
  environ base (templateVars ids ++ labelVars o labels)

def Keys (labels : Dict String) : Prop := ∀ kv ∈ labels.entries, Ascii kv.1 ∧ Inert kv.2.toList

theorem labelName_eq (hc : AsciiCase o.lower o.upper) (hk : Ascii k) : labelName o k = "CUSTOM_LABEL_" ++ asciiUpper k := by
  rw [labelName, hc.upper_eq k hk, hc.upper_eq _ (by decide)]
  rfl

theorem lower_labelName (hc : AsciiCase o.lower o.upper) (hk : Ascii k) :
    o.lower (labelName o k) = customLabelPrefix ++ asciiLower k := by
  have ha : Ascii ("CUSTOM_LABEL_" ++ asciiUpper k) := Ascii.append (by decide) hk.upper
  rw [labelName_eq hc hk, hc.lower_eq _ ha, asciiLower_append, asciiLower_upper hk]
  rfl

theorem labelName_ne (hc : AsciiCase o.lower o.upper) (hk : Ascii k) {name}
    (hn : name ∈ templateNames) : labelName o k ≠ name := by
  have hh : ∀ k ∈ templateNames, k.toList.head? ≠ some 'C' := by decide +kernel
  intro heq
  apply hh name hn
  rw [← heq, labelName_eq hc hk]
  simp

theorem environ_template (hc : AsciiCase o.lower o.upper) (hk : Keys labels) {source : Source}
    (hvar : (k, source) ∈ templateVars ids) :
    ∃ env, (pusherEnviron o base labels ids).get? k = some (source.value env) := by
  apply environ_get?_once
  have hl : (labelVars o labels).filter (·.1 = k) = [] := by
    rw [filter_eq_nil_iff]
    intro var hmem
    obtain ⟨kv, hkv, rfl⟩ := mem_map.1 hmem
    simpa using labelName_ne hc (hk kv hkv).1 (mem_templateNames hvar)
  rw [filter_append, hl]
  simp only [templateVars, mem_cons, not_mem_nil, or_false, Prod.mk.injEq] at hvar
  rcases hvar with ⟨rfl, rfl⟩ | ⟨rfl, rfl⟩ | ⟨rfl, rfl⟩ | ⟨rfl, rfl⟩ | ⟨rfl, rfl⟩ | ⟨rfl, rfl⟩ | ⟨rfl, rfl⟩ | ⟨rfl, rfl⟩ |
    ⟨rfl, rfl⟩ <;> simp [templateVars]

theorem environ_text (hc : AsciiCase o.lower o.upper) (hk : Keys labels)
    (hvar : (k, .text value) ∈ templateVars ids) (hi : Inert value.toList) :
    (pusherEnviron o base labels ids).get? k = some value := by
  obtain ⟨env, henv⟩ := @environ_template o base _ _ _ hc hk _ hvar
  rw [henv]
  exact congrArg some (expand_inert hi)

/-- Only the variables of the labels have the prefix of the labels. -/
theorem environ_label (hc : AsciiCase o.lower o.upper) (hb : Unrelated o.lower base)
    (hget : (pusherEnviron o base labels ids).get? k = some value)
    (hpre : customLabelPrefix.toList <+: (o.lower k).toList) : ∃ kv ∈ labels.entries, labelName o kv.1 = k := by
  rcases environ_get?_cases hget with ⟨var, hvar, rfl⟩ | hget
  · rcases mem_append.1 hvar with hvar | hvar
    · have hn := mem_templateNames hvar
      rw [hc.lower_eq _ (ascii_templateNames _ hn)] at hpre
      exact absurd hpre (lower_templateNames _ hn).1
    · obtain ⟨kv, hkv, rfl⟩ := mem_map.1 hvar
      exact ⟨kv, hkv, rfl⟩
  · exact absurd hpre (hb k value hget).1

/-- Only the arguments have their prefix. -/
theorem environ_arg (hc : AsciiCase o.lower o.upper) (hk : Keys labels) (hb : Unrelated o.lower base)
    (hget : (pusherEnviron o base labels ids).get? k = some value)
    (hpre : backendArgPrefix.toList <+: (o.lower k).toList) : k ∈ argNames := by
  rcases environ_get?_cases hget with ⟨var, hvar, rfl⟩ | hget
  · rcases mem_append.1 hvar with hvar | hvar
    · have hn := mem_templateNames hvar
      rw [hc.lower_eq _ (ascii_templateNames _ hn)] at hpre
      exact (lower_templateNames _ hn).2 hpre
    · obtain ⟨kv, hkv, rfl⟩ := mem_map.1 hvar
      rw [lower_labelName hc (hk kv hkv).1] at hpre
      have hh := hpre.head (by decide)
      simp [backendArgPrefix, customLabelPrefix] at hh
  · exact absurd hpre (hb k value hget).2

theorem labelName_inj (hc : AsciiCase o.lower o.upper) {k'} (hk : Ascii k) (hk' : Ascii k')
    (h : labelName o k = labelName o k') : asciiLower k = asciiLower k' := by
  have hl := congrArg o.lower h
  rw [lower_labelName hc hk, lower_labelName hc hk'] at hl
  exact String.append_right_inj _ |>.1 hl

theorem lower_drop_labelName (hc : AsciiCase o.lower o.upper) (hk : Ascii k) :
    o.lower (String.ofList ((labelName o k).toList.drop customLabelPrefix.toList.length)) = asciiLower k := by
  have hd : String.ofList ((labelName o k).toList.drop customLabelPrefix.toList.length) = asciiUpper k := by
    rw [labelName_eq hc hk, String.toList_append]
    exact String.ofList_toList
  rw [hd, hc.lower_eq _ hk.upper, asciiLower_upper hk]

/-- Without capital letters, no two labels share a variable. -/
theorem environ_label_value (hc : AsciiCase o.lower o.upper) (hk : Keys labels)
    (hf : ∀ kv ∈ labels.entries, CaseFree kv.1) {kv : String × String} (hkv : kv ∈ labels.entries) :
    (pusherEnviron o base labels ids).get? (labelName o kv.1) = some kv.2 := by
  obtain ⟨before, after, he⟩ := append_of_mem hkv
  have hn := labels.nodup
  rw [he, map_append, map_cons, nodup_append, nodup_cons] at hn
  have ha : ∀ var ∈ after.map (fun kv => (labelName o kv.1, Source.text kv.2)), var.1 ≠ labelName o kv.1 := by
    intro var hvar heq
    obtain ⟨kv', hkv', rfl⟩ := mem_map.1 hvar
    have hmem : kv' ∈ labels.entries := by rw [he]; simp [hkv']
    have hl := labelName_inj hc (hk kv' hmem).1 (hk kv hkv).1 heq
    rw [hf kv' hmem, hf kv hkv] at hl
    exact hn.2.1.1 (hl ▸ mem_map_of_mem hkv')
  have hla := @environ_get?_last base _ (templateVars ids ++
    before.map fun kv => (labelName o kv.1, Source.text kv.2)) _ (.text kv.2) ha
  rw [pusherEnviron, labelVars, he, map_append, map_cons, ← append_assoc, hla]
  exact congrArg some (expand_inert (hk kv hkv).2)

theorem customLabels_caseFree (hc : AsciiCase o.lower o.upper) (hk : Keys labels) (hb : Unrelated o.lower base)
    (hget : (createDictOfCustomLabels o.lower customLabelPrefix
      (pusherEnviron o base labels ids)).get? k = some value) :
    CaseFree k := by
  obtain ⟨key, hkey, hpre, rfl⟩ := customLabels_cases hget
  obtain ⟨kv, hkv, rfl⟩ := environ_label hc hb hkey hpre
  rw [lower_drop_labelName hc (hk kv hkv).1]
  exact caseFree_lower (hk kv hkv).1

theorem customLabels_iff (hc : AsciiCase o.lower o.upper) (hke : Keys labels) (hb : Unrelated o.lower base)
    (hf : ∀ kv ∈ labels.entries, CaseFree kv.1) :
    (createDictOfCustomLabels o.lower customLabelPrefix (pusherEnviron o base labels ids)).get? k = some value ↔
      labels.get? k = some value := by
  -- a variable with the prefix stands for one label
  have hone (key w : String) (hkey : (pusherEnviron o base labels ids).get? key =
      some w) (hpre : customLabelPrefix.toList <+: (o.lower key).toList) : ∃ kv ∈ labels.entries, labelName o kv.1 = key ∧
      o.lower (String.ofList (key.toList.drop customLabelPrefix.toList.length)) = kv.1 ∧ kv.2 = w := by
    obtain ⟨kv, hkv, rfl⟩ := environ_label hc hb hkey hpre
    rw [environ_label_value hc hke hf hkv] at hkey
    exact ⟨kv, hkv, rfl, (lower_drop_labelName hc (hke kv hkv).1).trans (hf kv hkv), Option.some.inj hkey⟩
  constructor
  · intro hget
    obtain ⟨key, hkey, hpre, rfl⟩ := customLabels_cases hget
    obtain ⟨kv, hkv, rfl, hn, rfl⟩ := hone key value hkey hpre
    rw [hn]
    exact (mem_entries_iff_lookup labels.nodup).1 hkv
  · intro hget
    have hkv : (k, value) ∈ labels.entries := mem_of_lookup hget
    have hk := (hke _ hkv).1
    have hn := (lower_drop_labelName hc hk).trans (hf _ hkv)
    have hpre : customLabelPrefix.toList <+: (o.lower (labelName o k)).toList := by
      rw [lower_labelName hc hk, String.toList_append]
      exact prefix_append _ _
    have hl := customLabels_get? (environ_label_value hc hke hf hkv) hpre fun key' w hkey' hpre' hs => by
      obtain ⟨kv, hkv', rfl, hn', rfl⟩ := hone key' w hkey' hpre'
      rw [hn', hn] at hs
      have hget' := (mem_entries_iff_lookup labels.nodup).1 hkv'
      rw [hs] at hget'
      exact Option.some.inj (hget'.symm.trans hget)
    rwa [hn] at hl

theorem backendValues_arg (hc : AsciiCase o.lower o.upper) (hke : Keys labels) (hb : Unrelated o.lower base)
    (hget : (pusherEnviron o base labels ids).get? k = some value)
    (hk : k ∈ argNames) :
    (backendValues o.lower (pusherEnviron o base labels ids)).get? (asciiLower k) = some (.text value) := by
  obtain ⟨ha, hl, hpre, -⟩ := lower_argNames k hk
  have hinj : ∀ k ∈ argNames, ∀ k' ∈ argNames, asciiLower k' = asciiLower k → k' = k := by decide +kernel
  have hlo := hc.lower_eq k ha
  rw [← hlo]
  apply backendValues_get? hget
  · rw [hlo, hc.lower_eq backendArgPrefix (by decide)]
    exact hl
  · intro k' value' hget' heq
    rw [hlo] at heq
    have hk' := environ_arg hc hke hb hget' (by rw [heq]; exact hpre)
    rw [hc.lower_eq k' (lower_argNames k' hk').1] at heq
    exact hinj k hk k' hk' heq

theorem backendValues_known (hc : AsciiCase o.lower o.upper) (hk : Keys labels) (hb : Unrelated o.lower base)
    {v} (hget : (backendValues o.lower (pusherEnviron o base labels ids)).get? k = some v)
    (hpre : backendArgPrefix.toList <+: k.toList) :
    String.ofList (k.toList.drop backendArgPrefix.toList.length) ∈ BackendName.kafka.parameters.map Prod.fst := by
  rcases backendValues_cases hget with rfl | ⟨key, value, hkey, rfl⟩
  · rw [hc.lower_eq backendArgPrefix (by decide)]
    decide
  · obtain ⟨ha, -, -, hn⟩ := lower_argNames key (environ_arg hc hk hb hkey hpre)
    rw [hc.lower_eq key ha]
    exact hn

theorem environ_given (hc : AsciiCase o.lower o.upper) (hk : Keys labels)
    (hvar : (k, .given value) ∈ templateVars ids) : (pusherEnviron o base labels ids).get? k = some value := by
  obtain ⟨env, henv⟩ := @environ_template o base _ _ _ hc hk _ hvar
  exact henv

theorem getInput_pusher (hca : AsciiCase o.lower o.upper) (hke : Keys labels) (hba : Unrelated o.lower base)
    (ha : Inert ids.action_id.toList) (hc : Inert ids.client_id.toList) (parseInt : String → Option Int) :
    ∃ input bootstrap_servers, getInput o.lower parseInt (pusherEnviron o base labels ids) = .ok input ∧
      input.kafkaBackend = some (.create ids.action_id ids.client_id
        (createDictOfCustomLabels o.lower customLabelPrefix (pusherEnviron o base labels ids)) "BAI_METRICS" bootstrap_servers
        ids.client_id) := by
  have harg (k name value : String) (hget : (pusherEnviron o base labels ids).get? k = some value) (hk : k ∈ argNames)
      (hn : asciiLower k = backendArgPrefix ++ name) :
      (backendValues o.lower (pusherEnviron o base labels ids)).get? (backendArgPrefix ++ name) = some (.text value) := by
    rw [← hn]
    exact backendValues_arg hca hke hba hget hk
  have ha' := harg "BACKEND_ARG_ACTION_ID" "action_id" ids.action_id
    (environ_text hca hke (by simp [templateVars]) ha) (by decide) (by decide)
  have hc' := harg "BACKEND_ARG_CLIENT_ID" "client_id" ids.client_id
    (environ_text hca hke (by simp [templateVars]) hc) (by decide) (by decide)
  have ht := harg "BACKEND_ARG_TOPIC" "topic" "BAI_METRICS"
    (environ_text hca hke (by simp [templateVars]) (by decide)) (by decide) (by decide)
  have hs := harg "BACKEND_ARG_BOOTSTRAP_SERVERS" "bootstrap_servers" ids.servers
    (environ_given hca hke (by simp [templateVars])) (by decide) (by decide)
  have hkey := harg "BACKEND_ARG_KEY" "key" ids.client_id
    (environ_text hca hke (by simp [templateVars]) hc) (by decide) (by decide)
  have hl : (backendValues o.lower (pusherEnviron o base labels ids)).get? (backendArgPrefix ++ "labels") =
      some (.labels (createDictOfCustomLabels o.lower customLabelPrefix (pusherEnviron o base labels ids))) := by
    rw [backendValues, hca.lower_eq backendArgPrefix (by decide)]
    exact Dict.get?_set_self _ _ _
  have har := createDictOfParameterValues_ok (fun name v => @backendValues_known o base labels ids name hca hke hba v)
    (.cons (parameterValue_ok parseInt ha' rfl) (.cons (parameterValue_ok parseInt hc' rfl)
      (.cons (parameterValue_ok parseInt hl rfl) (.cons (parameterValue_ok parseInt ht rfl)
        (.cons (parameterValue_ok parseInt hs rfl) (.cons (parameterValue_ok parseInt hkey rfl) .nil))))))
  have hb := @environ_text o base labels ids "BACKEND" "kafka" hca hke (by simp [templateVars]) (by decide)
  obtain ⟨input, hi, hn, hv⟩ := getInput_ok (by rw [hb]; rfl) har
  refine ⟨input, (ids.servers.toList.splitOn ',').map String.ofList, hi, ?_⟩
  rw [InputValue.kafkaBackend, hn, hv]
  rfl

end Environ

/-! ## Labels that are accepted -/

theorem toNat_of_isAlphanum {c : Char} (h : c.isAlphanum = true) : c.toNat < 128 := by
  have hb (d : Char) (hd : d.toNat < 128) (hc : c.val ≤ d.val) : c.toNat < 128 :=
    Nat.lt_of_le_of_lt (UInt32.le_iff_toNat_le.1 hc) hd
  rcases (Bool.or_eq_true _ _).mp h with h | h
  · rcases (Bool.or_eq_true _ _).mp h with h | h
    · exact hb 'Z' (by decide) (of_decide_eq_true h).2
    · exact hb 'z' (by decide) (of_decide_eq_true ((Bool.and_eq_true _ _).mp h).2)
  · exact hb '9' (by decide) (of_decide_eq_true ((Bool.and_eq_true _ _).mp h).2)

theorem of_labelChar {c : Char} (h : labelChar c = true) : c.toNat < 128 ∧ c ≠ '$' := by
  constructor
  · simp only [labelChar, Bool.or_eq_true, beq_iff_eq] at h
    rcases h with ((h | rfl) | rfl) | rfl
    · exact toNat_of_isAlphanum h
    all_goals decide
  · rintro rfl
    exact absurd h (by decide)

theorem keys_of_valid {labels : Dict String} (hv : ∀ kv ∈ labels.entries, checkLabel kv.1 kv.2 = .ok ()) : Keys labels := by
  intro kv hkv
  obtain ⟨hkey, hva⟩ := checkLabel_ok_iff.1 (hv kv hkv)
  refine ⟨fun c hc => (of_labelChar (labelChar_of_name hkey c hc)).1, ?_⟩
  apply inert_of_noDollar
  intro c hc
  by_cases he : kv.2 = ""
  · rw [he] at hc
    cases hc
  · exact (of_labelChar (labelChar_of_name (hva he) c hc)).2

/-! ## The labels of the metrics -/

structure Attached (labels : Dict String) (action_id client_id : String) (attached : Dict String) : Prop where
  kept : ∀ k v, labels.get? k = some v → attached.get? k = some v
  action_id : attached.get? "action-id" = some action_id
  client_id : attached.get? "client-id" = some client_id
  only : ∀ k v, attached.get? k = some v → labels.get? k = some v ∨ k = "action-id" ∨ k = "client-id"

def Attachable (labels : Dict String) (action_id client_id : String) : Prop :=
  ∀ kv ∈ labels.entries, CaseFree kv.1 ∧ (kv.1 = "action-id" → kv.2 = action_id) ∧ (kv.1 = "client-id" → kv.2 = client_id)

section Attached
variable {labels custom attached : Dict String} {action_id client_id : String}

theorem attachable_of_attached (hget : ∀ k, attached.get? k =
      (custom.get? k).or (if k = "action-id" then some action_id else if k = "client-id" then some client_id else none))
    (hf : ∀ k v, custom.get? k = some v → CaseFree k) (h : Attached labels action_id client_id attached) :
    Attachable labels action_id client_id := by
  intro kv hkv
  have hk := h.kept kv.1 kv.2 ((mem_entries_iff_lookup labels.nodup).1 hkv)
  refine ⟨?_, fun hid => ?_, fun hid => ?_⟩
  · rw [hget] at hk
    cases hc : custom.get? kv.1 with
    | some v => exact hf kv.1 v hc
    | none =>
      rw [hc] at hk
      split at hk
      · rename_i hid
        rw [hid]
        decide
      · split at hk
        · rename_i hid
          rw [hid]
          decide
        · cases hk
  · rw [hid, h.action_id] at hk
    exact (Option.some.inj hk).symm
  · rw [hid, h.client_id] at hk
    exact (Option.some.inj hk).symm

theorem attached_of_attachable (hget : ∀ k, attached.get? k =
      (labels.get? k).or (if k = "action-id" then some action_id else if k = "client-id" then some client_id else none))
    (h : Attachable labels action_id client_id) : Attached labels action_id client_id attached where
  kept := by
    intro k v hk
    rw [hget, hk]
    rfl
  action_id := by
    rw [hget]
    cases hk : labels.get? "action-id" with
    | none => rfl
    | some v => exact congrArg some ((h _ (mem_of_lookup hk)).2.1 rfl)
  client_id := by
    rw [hget]
    cases hk : labels.get? "client-id" with
    | none => rfl
    | some v => exact congrArg some ((h _ (mem_of_lookup hk)).2.2 rfl)
  only := by
    intro k v hk
    rw [hget] at hk
    cases hl : labels.get? k with
    | some w =>
      rw [hl] at hk
      exact .inl hk
    | none =>
      rw [hl] at hk
      split at hk
      · exact .inr (.inl ‹_›)
      · split at hk
        · exact .inr (.inr ‹_›)
        · cases hk

end Attached

/-- The pusher of the pod starts with the Kafka backend, and `P` holds of the labels of all metrics. -/
def Attaches (o : Outside) (parseInt : String → Option Int) (refs : Tree → String) (base : Dict String) (spec : Tree)
    (P : Dict String → Prop) : Prop :=
  ∃ c input backend, containersNamed metricsPusherContainer spec = [(.main, c)] ∧
    getInput o.lower parseInt (containerEnviron refs base c) = .ok input ∧ input.kafkaBackend = some backend ∧
    (∀ (β : Type) (millis : Int) (metrics : List (String × β)), ∀ m ∈ backend.emit millis metrics, m.labels = backend.labels) ∧
    P backend.labels

theorem attaches_of_pusher {o : Outside} (hca : AsciiCase o.lower o.upper) {v : Values} {labels : Dict String} {spec}
    (ho : Only [.main] (PusherShows (PusherEnv o v) (labels.entries.map fun kv => labelVar o kv.1 kv.2))
      (containersNamed metricsPusherContainer spec))
    (hke : Keys labels) (ha : Carried o v.action_id) (hcl : Carried o v.client_id)
    (parseInt : String → Option Int) (refs : Tree → String) {base} (hba : Unrelated o.lower base) :
    Attaches o parseInt refs base spec fun attached =>
      Attached labels v.action_id v.client_id attached ↔ Attachable labels v.action_id v.client_id := by
  obtain ⟨c, hc, hs⟩ := only_one.1 ho
  obtain ⟨ids, hids, hids', hv⟩ := containerVars_pusher refs hs ha hcl
  rw [← hids] at ha
  rw [← hids'] at hcl
  obtain ⟨input, servers, hi, hb⟩ :=
    @getInput_pusher o base labels ids hca hke hba ha.inert hcl.inert parseInt
  refine ⟨c, input, _, hc, ?_, hb, fun _ => KafkaBackend.emit_labels _, ?_⟩
  · rw [containerEnviron, hv]
    exact hi
  · rw [← hids, ← hids']
    constructor
    · exact attachable_of_attached (KafkaBackend.get?_labels _ _ _ _ _ _)
        fun k w hk => customLabels_caseFree hca hke hba hk
    · intro hat
      refine attached_of_attachable (fun k => ?_) hat
      rw [KafkaBackend.get?_labels]
      congr 1
      apply Option.ext
      intro w
      exact customLabels_iff hca hke hba fun kv hkv => (hat kv hkv).1

theorem metricsVars_eq {o} {d : BenchmarkDescriptor} (hd : truthy (d.custom_params.bind (·.dashboard)) = false)
    (hr : truthy (d.custom_params.bind (·.region)) = false) :
    metricsVars o d = d.info.labels.entries.map fun kv => labelVar o kv.1 kv.2 := by
  rw [metricsVars, customVars, hd, hr]
  exact append_nil _

/-- With output, and without dashboard, region and parent action: the metrics have exactly the labels
of the descriptor, and the ids, if no label has a capital letter and none is another id. This
is so in every pod of the benchmark, and in the pod of an inference server. -/
theorem labels_attached_iff (o : Outside) (hcase : AsciiCase o.lower o.upper) (r : Request) (h : RootObjectHelper)
    (hdashboard : truthy (r.descriptor.custom_params.bind (·.dashboard)) = false)
    (hregion : truthy (r.descriptor.custom_params.bind (·.region)) = false)
    (hvalid : ∀ kv ∈ r.descriptor.info.labels.entries, checkLabel kv.1 kv.2 = .ok ())
    (haction : Carried o r.event.action_id) (hclient : Carried o r.event.client_id)
    (parseInt : String → Option Int) (refs : Tree → String) (base : Dict String) (hbase : Unrelated o.lower base) :
    (buildBenchmark o r = .ok h → Scalars o r.descriptor.hardware.strategy.template (benchmarkValues o r) →
      r.descriptor.output.isSome = true → truthy r.event.parent_action_id = false →
      ∀ plan ∈ benchmarkPods r, ∃ spec, getPodSpec h plan.replica = .ok spec ∧
        Attaches o parseInt refs base spec fun attached =>
          Attached r.descriptor.info.labels r.event.action_id r.event.client_id attached ↔
            Attachable r.descriptor.info.labels r.event.action_id r.event.client_id) ∧
    ∀ server, buildInferenceServer o r server = .ok h → Scalars o .inference_server_job (serverValues o r server) →
      server.output.isSome = true →
      ∀ plan ∈ serverPods r server, ∃ spec, getPodSpec h plan.replica = .ok spec ∧
        Attaches o parseInt refs base spec fun attached =>
          Attached r.descriptor.info.labels r.event.action_id r.event.client_id attached ↔
            Attachable r.descriptor.info.labels r.event.action_id r.event.client_id := by
  have hk := keys_of_valid hvalid
  constructor
  · intro hok hs ho hp plan hpl
    obtain ⟨v, -, hv, -⟩ := id hs
    obtain ⟨-, hclient', haction'⟩ := feedsIds_benchmarkValues hv
    have hf := pusher_container hok hs hv hpl
    rw [ho, metricsVars_eq hdashboard hregion, parentVars, if_neg (by simp [hp]), append_nil] at hf
    obtain ⟨spec, c, hsp, -⟩ := finds_getPodSpec hf
    refine ⟨spec, hsp, ?_⟩
    rw [← haction'] at haction ⊢
    rw [← hclient'] at hclient ⊢
    exact attaches_of_pusher hcase (hf.of_getPodSpec hsp) hk haction hclient parseInt refs hbase
  · intro server hok hs ho plan hpl
    obtain ⟨v, -, hv, -⟩ := id hs
    obtain ⟨-, hclient', haction'⟩ := feedsIds_serverValues hv
    have hf := server_pusher_container hok hs hv
    rw [ho, metricsVars_eq hdashboard hregion] at hf
    obtain ⟨spec, c, hsp, -⟩ := finds_getPodSpec hf
    obtain rfl := mem_singleton.1 hpl
    refine ⟨spec, hsp, ?_⟩
    rw [← haction'] at haction ⊢
    rw [← hclient'] at hclient ⊢
    exact attaches_of_pusher hcase (hf.of_getPodSpec hsp) hk haction hclient parseInt refs hbase

def caseOutside : Outside := { plainOutside with lower := asciiLower, upper := asciiUpper }

def labelRequest (labels : Dict String) : Request :=
  { exampleRequest labels with event := { (exampleRequest labels).event with parent_action_id := none } }

theorem labels_attached_training : ∃ h spec, buildBenchmark caseOutside (labelRequest trainingLabels) = .ok h ∧
    getPodSpec h none = .ok spec ∧ Attaches caseOutside (fun _ => none) (fun _ => "broker:9092") .empty spec
      (Attached trainingLabels "action-1" "client-1") := by
  have hb : (buildBenchmark caseOutside (labelRequest trainingLabels)).toOption.any (fun _ => true) = true := by
    decide +kernel
  obtain ⟨h, hok, -⟩ := exists_ok_of_any hb
  have hca (s : String) (hp : Scalar.PlainText s) (hi : Inert s.toList) : Carried caseOutside s :=
    ⟨Scalar.read_eq_str_iff.2 hp, hi⟩
  have ha := hca "action-1" (by decide +kernel) (by decide)
  have hcl := hca "client-1" (by decide +kernel) (by decide)
  have hat := labels_attached_iff caseOutside ⟨fun _ _ => rfl, fun _ _ => rfl⟩ (labelRequest trainingLabels) h rfl rfl
    (forall_mem_singleton.2 rfl) ha hcl (fun _ => none) (fun _ => "broker:9092") .empty (fun _ _ => nofun)
  obtain ⟨spec, hs, c, input, backend, hc, hin, hba, he, hiff⟩ :=
    hat.1 hok (scalars_of_buildBenchmark rfl hok) rfl rfl _ mem_cons_self
  refine ⟨h, spec, hok, hs, c, input, backend, hc, hin, hba, he, hiff.2 ?_⟩
  exact forall_mem_singleton.2 (by decide)

def capitalLabels : Dict String := ⟨[("Task", "training")], by decide⟩

/-- The descriptor is accepted, and its metrics have a label with another key. -/
theorem capital_label_lost : ∃ h spec, createJobSpec caseOutside (labelRequest capitalLabels) = .ok h.objects ∧
    buildBenchmark caseOutside (labelRequest capitalLabels) = .ok h ∧ getPodSpec h none = .ok spec ∧
    Attaches caseOutside (fun _ => none) (fun _ => "broker:9092") .empty spec fun attached =>
      attached.get? "Task" = none ∧ attached.get? "task" = some "training" := by
  have hva : ((labelRequest capitalLabels).descriptor.fromDict caseOutside.cronValid
      (labelRequest capitalLabels).config.descriptor_config).toOption.any (fun d => d.hardware.strategy ≠ .inference) = true := by
    decide +kernel
  have hb : (buildBenchmark caseOutside (labelRequest capitalLabels)).toOption.any (fun h =>
      (getPodSpec h none).toOption.any fun spec => (containersNamed metricsPusherContainer spec).all fun x =>
        (getInput asciiLower (fun _ => none) (containerEnviron (fun _ => "broker:9092") .empty x.2)).toOption.any fun input =>
          input.kafkaBackend.any fun b => b.labels.get? "Task" = none && b.labels.get? "task" = some "training") = true := by
    decide +kernel
  obtain ⟨h, hok, hsp⟩ := exists_ok_of_any hb
  obtain ⟨spec, hsp, hall⟩ := exists_ok_of_any hsp
  have hs := scalars_of_buildBenchmark rfl hok
  obtain ⟨v, -, hv, -⟩ := id hs
  obtain ⟨c, hc, -⟩ := only_one.1 ((pusher_container hok hs hv mem_cons_self).of_getPodSpec hsp)
  rw [hc, all_cons, all_nil, Bool.and_true] at hall
  obtain ⟨input, hi, hall⟩ := exists_ok_of_any hall
  obtain ⟨backend, hba, hall⟩ := (Option.any_eq_true _ _).1 hall
  rw [Bool.and_eq_true, decide_eq_true_iff, decide_eq_true_iff] at hall
  exact ⟨h, spec, createJobSpec_of_valid hva hok, hok, hsp, c, input, backend, hc, hi, hba,
    fun _ => backend.emit_labels, hall⟩

end BenchmarkAi.Pusher
