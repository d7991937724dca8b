import BenchmarkAi.Events
import BenchmarkAi.Lib.Call
/-!
# Command objects

The objects that a `KafkaCommandCallback` calls: `ExecutorCommandObject` and
`DownloadCmdObject`. A command is the name of an attribute, and Python finds more
attributes on an object than its class declares. The model has all attributes of an
instance in Python 3.7: the ones of its `__dict__`, the ones of its class, and the ones
of `object`.
-/

open Lib Lib.Call
open Lib.Dacite (Data Fields Error)

namespace BenchmarkAi.Commands

/-! ## Events -/

/-- `Union[Dict[str, str], List[str]]`, or nothing. -/
inductive CommandArgs
  | none
  | dict (args : Dict String)
  | list (args : List String)

def CommandArgs.positionals : CommandArgs → List String
  | list args => args
  | _ => []

def CommandArgs.keywords : CommandArgs → List (String × String)
  | dict args => args.entries
  | _ => []

structure CommandRequestPayload where
  command : String
  args : CommandArgs := .none

/-- An entry of `visited` as `from_json` leaves it. The schema of the BFF asks for a stamp that
is a number, not for a whole one, and does not mention the node. -/
structure VisitedEntry where
  svc : String
  tstamp : Data
  version : String
  node : Data := .null

def VisitedEntry.asdict (v : VisitedEntry) : Fields :=
  [("svc", .str v.svc), ("tstamp", v.tstamp), ("version", .str v.version), ("node", v.node)]

/-- Where the payload is no `CommandRequestPayload` there is none. -/
abbrev CommandRequestEvent := BenchmarkEvent (Option CommandRequestPayload) VisitedEntry

/-- `create_from_object(CommandResponseEvent, event, payload=...)`, as far as it can fail: the
payload is new, and the other fields of the event are of their types. -/
def createFromObject (e : CommandRequestEvent) : Except (Error Empty) (BenchmarkEvent Unit) := do
  return { e with visited := ← e.visited.mapM fun v => readVisited v.asdict, payload := () }

/-- The entry is read as a `VisitedService`. A truth value is an instance of `int`. -/
def VisitedEntry.typed (v : VisitedEntry) : Bool :=
  (match v.tstamp with
    | .int _ | .bool _ => true
    | _ => false) &&
  (match v.node with
    | .null | .str _ => true
    | _ => false)

theorem readVisited_asdict (v : VisitedEntry) :
    (∃ r, (readVisited v.asdict : Except (Error Empty) _) = .ok r) ↔ v.typed = true := by
  obtain ⟨svc, tstamp, version, node⟩ := v
  cases tstamp with
  | int | bool =>
    cases node with
    | null | str => exact iff_of_true ⟨_, rfl⟩ rfl
    | bool | int | float | arr | obj => exact iff_of_false (fun ⟨_, h⟩ => nomatch h) (by simp [VisitedEntry.typed])
  | null | float | str | arr | obj => exact iff_of_false (fun ⟨_, h⟩ => nomatch h) (by simp [VisitedEntry.typed])

/-- A response can be made of an event exactly if each entry of `visited` is of its types. -/
theorem createFromObject_iff {e : CommandRequestEvent} :
    (∃ r, createFromObject e = .ok r) ↔ ∀ v ∈ e.visited, v.typed = true := by
  have hm : (∃ rs, (e.visited.mapM fun v => readVisited v.asdict : Except (Error Empty) _) = .ok rs) ↔
      ∀ v ∈ e.visited, v.typed = true := by
    simp only [← readVisited_asdict, ← exists_forall₂_iff]
    exact exists_congr fun rs => ⟨forall₂_of_mapM, mapM_of_forall₂⟩
  rw [← hm]
  simp only [createFromObject, bind_ok, pure_ok]
  exact ⟨fun ⟨_, rs, hrs, _⟩ => ⟨rs, hrs⟩, fun ⟨rs, hrs⟩ => ⟨_, rs, hrs, rfl⟩⟩

/-- What an argument of a command or an attribute of a command object can be: a string
of the client, a field of the event, the event, the service, or the object that the
command object was created with. -/
inductive Value
  | str (s : String)
  | optional (s : Option String)
  | bool (b : Bool)
  | num (n : Int)
  | visited
  | payload
  | event
  | kafkaService
  | reference
deriving DecidableEq, Repr

def Value.truthy : Value → Bool
  | str s => s != ""
  | optional s => BenchmarkAi.truthy s
  | bool b => b
  | num n => n != 0
  | _ => true

def eventFields (e : CommandRequestEvent) : List (String × Value) :=
  [("action_id", .str e.action_id), ("parent_action_id", .optional e.parent_action_id),
   ("message_id", .str e.message_id), ("client_id", .str e.client_id), ("client_version", .str e.client_version),
   ("client_username", .str e.client_username), ("authenticated", .bool e.authenticated), ("tstamp", .num e.tstamp),
   ("visited", .visited), ("type", .str e.type), ("payload", .payload)]

def eventFieldNames : List String :=
  ["action_id", "parent_action_id", "message_id", "client_id", "client_version", "client_username", "authenticated",
   "tstamp", "visited", "type", "payload"]

theorem keys_eventFields (e : CommandRequestEvent) : (eventFields e).map Prod.fst = eventFieldNames := rfl

/-! ## Attributes -/

inductive PyException
  | typeError (msg : String)
  | other (msg : String)
deriving DecidableEq, Repr

/-- What calling a method comes to. `None` is returned as `none`. -/
abbrev Outcome (ρ : Type) := Except PyException (Option ρ)

/-- The attributes of an instance that can be called. The class itself is one of them.
The methods of `object` that leave the instance as it is are `other`; for some of them
`signature` finds no signature. -/
inductive Method
  | cancel
  | init
  | construct
  | setattr
  | delattr
  | other (name : String) (sig : Option (Signature Value))

/-- An attribute is a value or can be called. -/
inductive Member (μ : Type)
  | value
  | method (m : μ)

def positional (names : List String) : Signature Value := ⟨names.map fun n => ⟨n, .positionalOnly, none⟩, none, none⟩

def objectMethods : List (String × Option (Signature Value)) :=
  (["__dir__", "__hash__", "__reduce__", "__repr__", "__sizeof__", "__str__"].map fun n => (n, some (positional []))) ++
  (["__eq__", "__ge__", "__gt__", "__le__", "__lt__", "__ne__"].map fun n => (n, some (positional ["value"]))) ++
  [("__format__", some (positional ["format_spec"])),
   ("__getattribute__", some (positional ["name"])),
   ("__reduce_ex__", some (positional ["protocol"])),
   ("__new__", some ⟨[], some "args", some "kwargs"⟩),
   ("__init_subclass__", none), ("__subclasshook__", none)]

def classAttr (name : String) : Option (Member Method) :=
  match name with
  | "cancel" => some (.method .cancel)
  | "__init__" => some (.method .init)
  | "__class__" => some (.method .construct)
  | "__setattr__" => some (.method .setattr)
  | "__delattr__" => some (.method .delattr)
  | "__dict__" | "__doc__" | "__module__" | "__weakref__" => some .value
  | name => (objectMethods.lookup name).map fun sig => .method (.other name sig)

def dataDescriptors : List String := ["__class__", "__dict__", "__weakref__"]

structure PyObject where
  attrs : List (String × Value)
deriving DecidableEq, Repr

def PyObject.getattr (o : PyObject) (name : String) : Option (Member Method) :=
  if dataDescriptors.contains name then classAttr name
  else
    match o.attrs.lookup name with
    | some _ => some .value
    | none => classAttr name

inductive AttrError
  | typeError
  | attributeError
deriving DecidableEq, Repr

/-- `object.__setattr__` with a string: it is no class and no dict, and
`__weakref__` can not be written. -/
def PyObject.setattr (o : PyObject) (name : String) (value : String) : Except AttrError PyObject :=
  if name = "__class__" ∨ name = "__dict__" then throw .typeError
  else if name = "__weakref__" then throw .attributeError
  else return ⟨assign name (.str value) o.attrs⟩

/-- `object.__delattr__`. The `__dict__` can be deleted, and all attributes with it. -/
def PyObject.delattr (o : PyObject) (name : String) : Except AttrError PyObject :=
  if name = "__class__" then throw .typeError
  else if name = "__dict__" then return ⟨[]⟩
  else if name = "__weakref__" then throw .attributeError
  else if (o.attrs.lookup name).isSome then return ⟨remove name o.attrs⟩
  else throw .attributeError

/-! ## The classes -/

structure StatusMessage where
  status : Status
  msg : String
  target_action_id : String
deriving DecidableEq, Repr

/-- What a command can act on: the environment of the engines or of the download
manager, and the status messages that have been sent. -/
structure World (ω : Type) where
  env : ω
  statuses : List StatusMessage := []

def World.send {ω : Type} (w : World ω) (status : Status) (msg target : String) : World ω :=
  { w with statuses := w.statuses ++ [⟨status, msg, target⟩] }

structure CancelCall where
  client_id : String
  target_action_id : String
  cascade : Bool
deriving DecidableEq, Repr

def reservedNames : List String := ["event", "kafka_service", "cancel"] ++ eventFieldNames ++ dataDescriptors

/-- A class of command objects: the attribute that its constructor sets, and the body of
its `cancel`, with what that attribute is when the body reads it. -/
structure CmdClass (ω ρ : Type) where
  reference : String
  not_reserved : reference ∉ reservedNames := by decide
  cancel : CommandRequestEvent → CancelCall → Option Value → World ω → Outcome ρ × World ω

variable {ω ρ : Type}

def cancelSignature : Signature Value :=
  ⟨[⟨"kafka_service", .positionalOrKeyword, none⟩, ⟨"event", .positionalOrKeyword, none⟩,
    ⟨"client_id", .positionalOrKeyword, none⟩, ⟨"target_action_id", .positionalOrKeyword, none⟩,
    ⟨"cascade", .positionalOrKeyword, some (.bool false)⟩], none, none⟩

def CmdClass.initSignature (cls : CmdClass ω ρ) : Signature Value :=
  ⟨[⟨cls.reference, .positionalOrKeyword, none⟩], none, none⟩

def CmdClass.signature (cls : CmdClass ω ρ) : Method → Option (Signature Value)
  | .cancel => some cancelSignature
  | .init | .construct => some cls.initSignature
  | .setattr => some (positional ["name", "value"])
  | .delattr => some (positional ["name"])
  | .other _ sig => sig

def CmdClass.create (cls : CmdClass ω ρ) : PyObject := ⟨[(cls.reference, .reference)]⟩

def deletionFailedMessage (event : CommandRequestEvent) (target_action_id : String) : String :=
  "An error occurred when attempting to delete resources related to " ++ target_action_id ++ ". " ++
  "Please check the status of the deletion command (" ++ event.action_id ++ " " ++
  "for additional information."

/-! ### `ExecutorCommandObject` -/

inductive EngineRaise
  | noResourcesFound (msg : String)
  | executionEngine (msg : String)
  | other (e : PyException)

abbrev CancelEngine (ω ρ : Type) := (client_id action_id : String) → (cascade : Bool) → ω → Except EngineRaise ρ × ω

def EngineRaise.exception : EngineRaise → PyException
  | noResourcesFound msg | executionEngine msg => .other msg
  | other e => e

/-- The loop over the engines. It returns or raises for the first one. -/
def cancelLoop (event : CommandRequestEvent) (c : CancelCall) (w : World ω) :
    List (CancelEngine ω ρ) → Except EngineRaise (Option ρ) × World ω
  | [] => (.ok none, w)
  | engine :: _ =>
    match engine c.client_id c.target_action_id c.cascade w.env with
    | (.ok result, env) =>
      (.ok (some result),
        World.send { w with env } .succeeded "Execution successfully cancelled..." c.target_action_id)
    | (.error (.executionEngine msg), env) =>
      (.error (.executionEngine msg),
        World.send { w with env } .failed (deletionFailedMessage event c.target_action_id) c.target_action_id)
    | (.error raised, env) => (.error raised, { w with env })

/-- To the callback an exception of an engine is one like any other. -/
def cancelEngines (event : CommandRequestEvent) (c : CancelCall) (w : World ω) (engines : List (CancelEngine ω ρ)) :
    Outcome ρ × World ω :=
  ((cancelLoop event c w engines).1.mapError EngineRaise.exception, (cancelLoop event c w engines).2)

/-- `ExecutorCommandObject` with its engines in the order of the set. If the attribute is
not the dict of the engines any more, reading its values raises. -/
def executorCommandObject (engines : List (CancelEngine ω ρ)) : CmdClass ω ρ where
  reference := "execution_engines"
  cancel := fun event c execution_engines w =>
    match execution_engines with
    | some .reference => cancelEngines event c w engines
    | some _ => (.error (.other "'str' object has no attribute 'values'"), w)
    | none => (.error (.other "'ExecutorCommandObject' object has no attribute 'execution_engines'"), w)

/-! ### `DownloadCmdObject` -/

abbrev CancelDownloads (ω ρ : Type) := (client_id action_id : String) → ω → Except PyException (ρ × Nat) × ω

def downloadCmdObject (download_mgr : CancelDownloads ω ρ) : CmdClass ω (ρ × Nat) where
  reference := "download_mgr"
  cancel := fun event c mgr w =>
    let w := w.send .pending "Canceling downloads..." c.target_action_id
    let failed := fun e (w : World ω) =>
      (.error e, w.send .failed (deletionFailedMessage event c.target_action_id) c.target_action_id)
    match mgr with
    | some .reference =>
      match download_mgr c.client_id c.target_action_id w.env with
      | (.error e, env) => failed e { w with env }
      | (.ok (results, num_zk_nodes_updated), env) =>
        let w := { w with env }
        (.ok (some (results, num_zk_nodes_updated)),
          if num_zk_nodes_updated = 0 then w.send .succeeded "No downloads to cancel..." c.target_action_id else w)
    | some _ => failed (.other "'str' object has no attribute 'cancel'") w
    | none => failed (.other "'DownloadCmdObject' object has no attribute 'download_mgr'") w

end BenchmarkAi.Commands
