import BenchmarkAi.Events
import BenchmarkAi.Lib.DocumentText
/-!
# Events of a fetcher as JSON

`FetcherBenchmarkEvent` of `bai_kafka_utils/events.py`, the document that its `to_json` writes, and
how `dacite.from_dict` without any hooks reads such a document. The two disagree on enumerations:
they are written as their values, and a value is not read as an enumeration.
-/

open Lib Lib.Dacite

namespace BenchmarkAi.CronJob

structure BenchmarkDoc where
  contents : Fields
  doc : String
  sha1 : String
  descriptor_filename : Option String := none
  verified : Option Bool := some false

structure FileSystemObject where
  dst : String

structure FetcherPayload where
  toml : BenchmarkDoc
  datasets : List DownloadableContent
  models : List DownloadableContent := []
  scripts : List FileSystemObject := []

abbrev FetcherBenchmarkEvent := BenchmarkEvent FetcherPayload

/-! ## Writing -/

def fetchedTypeValue : FetchedType → String
  | .file => "FILE"
  | .directory => "DIRECTORY"

def optionalStr : Option String → Data := .ofOption .str

def sizeInfoFields (s : ContentSizeInfo) : Fields :=
  [("total_size", .int s.total_size), ("file_count", .int s.file_count), ("max_size", .int s.max_size)]

def contentFields (c : DownloadableContent) : Fields :=
  [("src", .str c.src), ("path", .str c.path), ("id", optionalStr c.id), ("md5", optionalStr c.md5),
    ("dst", optionalStr c.dst), ("type", .ofOption (.str ∘ fetchedTypeValue) c.type),
    ("status", .ofOption (.str ∘ FetcherStatus.str) c.status), ("message", optionalStr c.message),
    ("size_info", .ofOption (.obj ∘ sizeInfoFields) c.size_info)]

def docFields (d : BenchmarkDoc) : Fields :=
  [("contents", .obj d.contents), ("doc", .str d.doc), ("sha1", .str d.sha1),
    ("descriptor_filename", optionalStr d.descriptor_filename), ("verified", .ofOption .bool d.verified)]

def fileFields (f : FileSystemObject) : Fields := [("dst", .str f.dst)]

def payloadFields (p : FetcherPayload) : Fields :=
  [("toml", .obj (docFields p.toml)), ("datasets", .arr (p.datasets.map (.obj ∘ contentFields))),
    ("models", .arr (p.models.map (.obj ∘ contentFields))), ("scripts", .arr (p.scripts.map (.obj ∘ fileFields)))]

def visitedFields (v : VisitedService) : Fields :=
  [("svc", .str v.svc), ("tstamp", .int v.tstamp), ("version", .str v.version), ("node", optionalStr v.node)]

/-- The fields in the order of the class; `payload` keeps the place it has in `BenchmarkEvent`. -/
def eventFields (e : FetcherBenchmarkEvent) : Fields :=
  [("action_id", .str e.action_id), ("parent_action_id", optionalStr e.parent_action_id), ("message_id", .str e.message_id),
    ("client_id", .str e.client_id), ("client_version", .str e.client_version), ("client_username", .str e.client_username),
    ("authenticated", .bool e.authenticated), ("tstamp", .int e.tstamp),
    ("visited", .arr (e.visited.map (.obj ∘ visitedFields))), ("type", .str e.type), ("payload", .obj (payloadFields e.payload))]

def toJson (e : FetcherBenchmarkEvent) : String := (Data.obj (eventFields e)).dumps

/-! ## Reading -/

inductive TypeError
  | missingArgument (field : String)
  | notADict
deriving DecidableEq, Repr

abbrev Reading (α : Type) := Except (Error TypeError) α

def size : Build TypeError Nat
  | .int (.ofNat n) => return some n
  | _ => return none

/-- Without a hook no value of a document is an instance of an enumeration. -/
def enum {α : Type} : Build TypeError α := fun _ => return none

def readSizeInfo (fs : Fields) : Reading ContentSizeInfo := do
  return {
    total_size := ← field "total_size" size none fs
    file_count := ← field "file_count" size none fs
    max_size := ← field "max_size" size none fs }

def readContent (fs : Fields) : Reading DownloadableContent := do
  return {
    src := ← field "src" str none fs
    path := ← field "path" str none fs
    id := ← field "id" (optional str) (some none) fs
    md5 := ← field "md5" (optional str) (some none) fs
    dst := ← field "dst" (optional str) (some none) fs
    type := ← field "type" (optional enum) (some none) fs
    status := ← field "status" (optional enum) (some none) fs
    message := ← field "message" (optional str) (some none) fs
    size_info := ← field "size_info" (optional (dataclass readSizeInfo)) (some none) fs }

def readDoc (fs : Fields) : Reading BenchmarkDoc := do
  return {
    contents := ← field "contents" (dict any) none fs
    doc := ← field "doc" str none fs
    sha1 := ← field "sha1" str none fs
    descriptor_filename := ← field "descriptor_filename" (optional str) (some none) fs
    verified := ← field "verified" (optional bool) (some (some false)) fs }

def readFile (fs : Fields) : Reading FileSystemObject := do
  return { dst := ← field "dst" str none fs }

def readPayload (fs : Fields) : Reading FetcherPayload := do
  return {
    toml := ← field "toml" (dataclass readDoc) none fs
    datasets := ← field "datasets" (list (dataclass readContent)) none fs
    models := ← field "models" (list (dataclass readContent)) (some []) fs
    scripts := ← field "scripts" (list (dataclass readFile)) (some []) fs }

def declared {α : Type} (name : String) (build : Build TypeError α) (fs : Fields) : Reading (Option α) :=
  field name (fun d => return (← build d).map some) (some none) fs

def required {α : Type} (name : String) : Option α → Reading α
  | some a => return a
  | none => throw (.raised (.missingArgument name))

/-- `dacite.from_dict`, with `__post_init__` once all fields are read. -/
def readEvent (fs : Fields) : Reading FetcherBenchmarkEvent := do
  let action_id ← declared "action_id" str fs
  let parent_action_id ← field "parent_action_id" (optional str) (some none) fs
  let message_id ← declared "message_id" str fs
  let client_id ← declared "client_id" str fs
  let client_version ← declared "client_version" str fs
  let client_username ← declared "client_username" str fs
  let authenticated ← declared "authenticated" bool fs
  let tstamp ← declared "tstamp" int fs
  let visited ← declared "visited" (list (dataclass readVisited)) fs
  let type ← declared "type" str fs
  let payload ← declared "payload" (dataclass readPayload) fs
  return {
    action_id := ← required "action_id" action_id
    parent_action_id
    message_id := ← required "message_id" message_id
    client_id := ← required "client_id" client_id
    client_version := ← required "client_version" client_version
    client_username := ← required "client_username" client_username
    authenticated := ← required "authenticated" authenticated
    tstamp := ← required "tstamp" tstamp
    visited := ← required "visited" visited
    type := ← required "type" type
    payload := ← required "payload" payload }

def fromDict : Data → Reading FetcherBenchmarkEvent
  | .obj fs => readEvent fs
  | _ => throw (.raised .notADict)

/-! ## Reading back -/

theorem optional_optionalStr (o : Option String) : (optional str (optionalStr o) : Reading _) = .ok (some o) :=
  optional_ofOption fun _ _ => ⟨rfl, nofun⟩

theorem readSizeInfo_sizeInfoFields (s : ContentSizeInfo) : readSizeInfo (sizeInfoFields s) = .ok s := rfl

theorem readVisited_visitedFields (v : VisitedService) : (readVisited (visitedFields v) : Reading _) = .ok v := by
  have hn : field "node" (optional str) (some none) (visitedFields v) = .ok v.node :=
    field_of_lookup rfl (optional_optionalStr v.node)
  unfold readVisited
  rw [hn]
  rfl

variable {α : Type} {a : α} {c : DownloadableContent} {cs : List DownloadableContent} {p : FetcherPayload}
  {e : FetcherBenchmarkEvent}

theorem dataclass_reads {read : Fields → Reading α} {fields} (h : read (fields a) = .ok a) :
    dataclass read ((Data.obj ∘ fields) a) = .ok (some a) := by
  rw [Function.comp_apply, dataclass, h]
  rfl

def Unset (c : DownloadableContent) : Prop := c.type = none ∧ c.status = none

theorem readContent_contentFields (h : Unset c) : readContent (contentFields c) = .ok c := by
  have hstr (name : String) (o : Option String) (hn : (contentFields c).lookup name = some (optionalStr o)) :
      field name (optional str) (some none) (contentFields c) = .ok o := field_of_lookup hn (optional_optionalStr o)
  have ht : field "type" (optional enum) (some none) (contentFields c) = .ok c.type :=
    field_of_lookup rfl (optional_ofOption fun a ha => nomatch h.1.symm.trans ha)
  have hs : field "status" (optional enum) (some none) (contentFields c) = .ok c.status :=
    field_of_lookup rfl (optional_ofOption fun a ha => nomatch h.2.symm.trans ha)
  have hsi : field "size_info" (optional (dataclass readSizeInfo)) (some none) (contentFields c) = .ok c.size_info :=
    field_of_lookup rfl (optional_ofOption fun a _ => ⟨dataclass_reads (readSizeInfo_sizeInfoFields a), nofun⟩)
  unfold readContent
  rw [hstr "id" c.id rfl, hstr "md5" c.md5 rfl, hstr "dst" c.dst rfl, ht, hs, hstr "message" c.message rfl, hsi]
  rfl

theorem unset_of_readContent {c'} (h : readContent (contentFields c) = .ok c') : Unset c := by
  have hn {α : Type} {d : Data} {o : Option α} {fs : Fields} {name : String} (hd : fs.lookup name = some d)
      (hf : field name (optional enum) (some none) fs = .ok o) : d = .null := by
    rcases field_ok hf with ⟨d', hd', hb⟩ | ⟨hno, -⟩
    · obtain rfl := Option.some.inj (hd.symm.trans hd')
      cases d with
      | null => rfl
      | _ => cases hb
    · cases hd.symm.trans hno
  iterate 5 obtain ⟨_, -, h⟩ := bind_ok.1 h
  obtain ⟨_, hty, h⟩ := bind_ok.1 h
  obtain ⟨_, hst, -⟩ := bind_ok.1 h
  have hty := hn (d := .ofOption (.str ∘ fetchedTypeValue) c.type) rfl hty
  have hst := hn (d := .ofOption (.str ∘ FetcherStatus.str) c.status) rfl hst
  constructor
  · cases ht : c.type with
    | none => rfl
    | some t =>
      rw [ht] at hty
      cases hty
  · cases hs : c.status with
    | none => rfl
    | some s =>
      rw [hs] at hst
      cases hst

theorem readDoc_docFields (d : BenchmarkDoc) : readDoc (docFields d) = .ok d := by
  have hc : (field "contents" (dict any) none (docFields d) : Reading Fields) = .ok d.contents :=
    field_of_lookup rfl (dict_any d.contents)
  have hf : field "descriptor_filename" (optional str) (some none) (docFields d) = .ok d.descriptor_filename :=
    field_of_lookup rfl (optional_optionalStr d.descriptor_filename)
  have hv : (field "verified" (optional bool) (some (some false)) (docFields d) : Reading _) = .ok d.verified :=
    field_of_lookup rfl (optional_ofOption fun _ _ => ⟨rfl, nofun⟩)
  unfold readDoc
  rw [hc, hf, hv]
  rfl

def Unfetched (p : FetcherPayload) : Prop := ∀ c ∈ p.datasets ++ p.models, Unset c

theorem list_contents (h : ∀ c ∈ cs, Unset c) :
    list (dataclass readContent) (.arr (cs.map (.obj ∘ contentFields))) = .ok (some cs) :=
  list_reads fun c hc => dataclass_reads (readContent_contentFields (h c hc))

theorem unset_of_list {cs'}
    (h : list (dataclass readContent) (.arr (cs.map (.obj ∘ contentFields))) = .ok (some cs')) : ∀ c ∈ cs, Unset c := by
  intro c hc
  obtain ⟨c', hr⟩ := list_ok h _ (List.mem_map_of_mem hc)
  obtain ⟨fs, hfs, hr⟩ := dataclass_ok hr
  obtain rfl := Data.obj.inj hfs
  exact unset_of_readContent hr

theorem readPayload_payloadFields (h : Unfetched p) : readPayload (payloadFields p) = .ok p := by
  have ht : field "toml" (dataclass readDoc) none (payloadFields p) = .ok p.toml :=
    field_of_lookup rfl (dataclass_reads (readDoc_docFields p.toml))
  have hd : field "datasets" (list (dataclass readContent)) none (payloadFields p) = .ok p.datasets :=
    field_of_lookup rfl (list_contents fun c hc => h c (List.mem_append_left _ hc))
  have hm : field "models" (list (dataclass readContent)) (some []) (payloadFields p) = .ok p.models :=
    field_of_lookup rfl (list_contents fun c hc => h c (List.mem_append_right _ hc))
  have hs : field "scripts" (list (dataclass readFile)) (some []) (payloadFields p) = .ok p.scripts :=
    field_of_lookup rfl (list_reads fun f _ => dataclass_reads rfl)
  unfold readPayload
  rw [ht, hd, hm, hs]
  rfl

theorem unfetched_of_readPayload {p'} (h : readPayload (payloadFields p) = .ok p') : Unfetched p := by
  have hu {name : String} {default : Option (List DownloadableContent)} {fs : Fields} {cs as : List DownloadableContent}
      (hl : fs.lookup name = some (.arr (cs.map (.obj ∘ contentFields))))
      (hf : field name (list (dataclass readContent)) default fs = .ok as) : ∀ c ∈ cs, Unset c := by
    rcases field_ok hf with ⟨d, hd, hb⟩ | ⟨hn, -⟩
    · obtain rfl := Option.some.inj (hl.symm.trans hd)
      exact unset_of_list hb
    · cases hl.symm.trans hn
  obtain ⟨_, -, h⟩ := bind_ok.1 h
  obtain ⟨_, hda, h⟩ := bind_ok.1 h
  obtain ⟨_, hm, -⟩ := bind_ok.1 h
  intro c hc
  rcases List.mem_append.1 hc with hc | hc
  · exact hu rfl hda c hc
  · exact hu rfl hm c hc

theorem declared_of_lookup {name build} {fs : Fields} {d} (hd : fs.lookup name = some d)
    (hb : build d = .ok (some a)) : declared name build fs = .ok (some a) := by
  refine field_of_lookup hd ?_
  rw [hb]
  rfl

theorem readEvent_eventFields (h : Unfetched e.payload) : readEvent (eventFields e) = .ok e := by
  have hp : field "parent_action_id" (optional str) (some none) (eventFields e) = .ok e.parent_action_id :=
    field_of_lookup rfl (optional_optionalStr e.parent_action_id)
  have hv : declared "visited" (list (dataclass readVisited)) (eventFields e) = .ok (some e.visited) :=
    declared_of_lookup rfl (list_reads fun v _ => dataclass_reads (readVisited_visitedFields v))
  have hpa : declared "payload" (dataclass readPayload) (eventFields e) = .ok (some e.payload) :=
    declared_of_lookup rfl (dataclass_reads (readPayload_payloadFields h))
  unfold readEvent
  rw [hp, hv, hpa]
  rfl

/-- An event is read back exactly if no content has a type or a status. -/
theorem fromDict_eventFields_iff {e'} : fromDict (.obj (eventFields e)) = .ok e' ↔ Unfetched e.payload ∧ e' = e := by
  constructor
  · intro h
    have hu : Unfetched e.payload := by
      iterate 10 obtain ⟨_, -, h⟩ := bind_ok.1 h
      obtain ⟨payload, hpa, -⟩ := bind_ok.1 h
      rcases field_ok hpa with ⟨d, hd, hb⟩ | ⟨hn, -⟩
      · obtain rfl := Option.some.inj ((show (eventFields e).lookup "payload" = some (.obj (payloadFields e.payload)) from rfl).symm.trans hd)
        obtain ⟨p, hp, -⟩ := bind_ok.1 hb
        obtain ⟨p', hp', -⟩ := bind_ok.1 hp
        exact unfetched_of_readPayload hp'
      · cases hn
    refine ⟨hu, ?_⟩
    have hr : fromDict (.obj (eventFields e)) = .ok e := readEvent_eventFields hu
    exact Except.ok.inj (h.symm.trans hr)
  · rintro ⟨h, rfl⟩
    exact readEvent_eventFields h

/-! ## Events are documents -/

theorem proper_optionalStr (o : Option String) : (optionalStr o).proper = true := by
  cases o <;> rfl

theorem proper_ofOption {data} (h : ∀ a, (data a).proper = true) (o : Option α) :
    (Data.ofOption data o).proper = true := by
  cases o with
  | none => rfl
  | some a => exact h a

theorem proper_sizeInfoFields (s : ContentSizeInfo) : (Data.obj (sizeInfoFields s)).proper = true := by
  refine Data.proper_obj ["total_size", "file_count", "max_size"] rfl (by decide) ?_
  simp [sizeInfoFields]

theorem proper_contentFields (c : DownloadableContent) : (Data.obj (contentFields c)).proper = true := by
  refine Data.proper_obj ["src", "path", "id", "md5", "dst", "type", "status", "message", "size_info"] rfl (by decide) ?_
  have ht : (Data.ofOption (.str ∘ fetchedTypeValue) c.type).proper = true := proper_ofOption (fun _ => rfl) _
  have hs : (Data.ofOption (.str ∘ FetcherStatus.str) c.status).proper = true := proper_ofOption (fun _ => rfl) _
  have hsi : (Data.ofOption (.obj ∘ sizeInfoFields) c.size_info).proper = true := proper_ofOption proper_sizeInfoFields _
  simp [contentFields, proper_optionalStr, ht, hs, hsi]

theorem proper_eventFields (h : (Data.obj e.payload.toml.contents).proper = true) : (Data.obj (eventFields e)).proper = true := by
  have hdoc : (Data.obj (docFields e.payload.toml)).proper = true := by
    refine Data.proper_obj ["contents", "doc", "sha1", "descriptor_filename", "verified"] rfl (by decide) ?_
    have hv : (Data.ofOption .bool e.payload.toml.verified).proper = true := proper_ofOption (fun _ => rfl) _
    simp [docFields, proper_optionalStr, hv, h]
  have hs (f : FileSystemObject) : (Data.obj (fileFields f)).proper = true := by
    refine Data.proper_obj ["dst"] rfl (by decide) ?_
    simp [fileFields]
  have hvi (v : VisitedService) : (Data.obj (visitedFields v)).proper = true := by
    refine Data.proper_obj ["svc", "tstamp", "version", "node"] rfl (by decide) ?_
    simp [visitedFields, proper_optionalStr]
  have hp : (Data.obj (payloadFields e.payload)).proper = true := by
    refine Data.proper_obj ["toml", "datasets", "models", "scripts"] rfl (by decide) ?_
    simp [payloadFields, hdoc, hs, Data.proper_map, proper_contentFields]
  refine Data.proper_obj ["action_id", "parent_action_id", "message_id", "client_id", "client_version", "client_username",
    "authenticated", "tstamp", "visited", "type", "payload"] rfl (by decide) ?_
  simp [eventFields, proper_optionalStr, Data.proper_map, hvi, hp]

end BenchmarkAi.CronJob
