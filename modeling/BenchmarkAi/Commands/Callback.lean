import BenchmarkAi.Commands.Objects
/-!
# The command callback

`KafkaCommandCallback.handle_event`: looks up the command as an attribute of the
command object, makes up its arguments from those of the client and from the event,
calls it, and answers with a response event.
-/

open Lib Lib.Call

namespace BenchmarkAi.Commands

variable {ω ρ : Type}

def codeSuccess : Int := 0
def codeCommandError : Int := 1
def codeClientError : Int := 2

/-- What Python brings along: `str.capitalize`, the texts of its exceptions, and what the
methods of `object` answer that leave the instance as it is (calling the class is one of
these). -/
structure Python (ρ : Type) where
  capitalize : String → String
  bindErrorText : (command : String) → BindError → String
  attrErrorText : (command name : String) → AttrError → String
  answer : (command : String) → (pos : List Value) → (kw : List (String × Value)) → Outcome ρ

structure Response (ρ : Type) where
  return_code : Int
  message : String
  cmd_submit : CommandRequestEvent
  return_value : Option ρ
  topic : String

/-- The callback at work: its command object, the world of the commands, and the
responses that have been sent. -/
structure CmdState (ω ρ : Type) where
  obj : PyObject
  world : World ω
  responses : List (Response ρ) := []

/-! ## Arguments -/

/-- The arguments that the method is called with. A name that is given neither by place
nor by the client is taken from the event. -/
def callArgs (sig : Signature Value) (e : CommandRequestEvent) (args : CommandArgs) :
    List Value × List (String × Value) :=
  let pos_args := args.positionals.map .str
  let kw_args := args.keywords.map fun kv => (kv.1, .str kv.2)
  let kw_args := if sig.names.contains "event" then assign "event" .event kw_args else kw_args
  let kw_args := if sig.names.contains "kafka_service" then assign "kafka_service" .kafkaService kw_args else kw_args
  -- without the positionals and without the named
  let params := (sig.names.drop pos_args.length).filter fun n => (kw_args.lookup n).isNone
  (pos_args, kw_args ++ (eventFields e).filter fun kv => params.contains kv.1)

/-- The arguments of `cancel`. Those that the client gives are strings, as is the client
id of the event. -/
def CancelCall.ofArgs (args : List (String × Value)) : Option CancelCall :=
  match args.lookup "client_id", args.lookup "target_action_id", args.lookup "cascade" with
  | some (.str client_id), some (.str target_action_id), some cascade =>
    some { client_id, target_action_id, cascade := cascade.truthy }
  | _, _, _ => none

/-! ## Calling -/

def attrOutcome (py : Python ρ) (command name : String) (s : CmdState ω ρ) :
    Except AttrError PyObject → Outcome ρ × CmdState ω ρ
  | .ok obj => (.ok none, { s with obj })
  | .error .typeError => (.error (.typeError (py.attrErrorText command name .typeError)), s)
  | .error .attributeError => (.error (.other (py.attrErrorText command name .attributeError)), s)

/-- The body of a method; `args` are the values of its parameters. The last case of
each of the first four is not reached: their parameters are bound, to strings. -/
def runMethod (py : Python ρ) (cls : CmdClass ω ρ) (e : CommandRequestEvent) (command : String) (pos : List Value)
    (kw args : List (String × Value)) (s : CmdState ω ρ) : Method → Outcome ρ × CmdState ω ρ
  | .cancel =>
    match CancelCall.ofArgs args with
    | some c =>
      let (outcome, world) := cls.cancel e c (s.obj.attrs.lookup cls.reference) s.world
      (outcome, { s with world })
    | none => (.ok none, s)
  | .init =>
    match args.lookup cls.reference with
    | some v => (.ok none, { s with obj := ⟨assign cls.reference v s.obj.attrs⟩ })
    | none => (.ok none, s)
  | .setattr =>
    match args.lookup "name", args.lookup "value" with
    | some (.str name), some (.str value) => attrOutcome py command name s (s.obj.setattr name value)
    | _, _ => (.ok none, s)
  | .delattr =>
    match args.lookup "name" with
    | some (.str name) => attrOutcome py command name s (s.obj.delattr name)
    | _ => (.ok none, s)
  | .construct | .other _ _ => (py.answer command pos kw, s)

def callMethod (py : Python ρ) (cls : CmdClass ω ρ) (e : CommandRequestEvent) (command : String) (m : Method)
    (sig : Signature Value) (args : List Value × List (String × Value)) (s : CmdState ω ρ) :
    Outcome ρ × CmdState ω ρ :=
  match sig.bind args.1 args.2 with
  | .error err => (.error (.typeError (py.bindErrorText command err)), s)
  | .ok values => runMethod py cls e command args.1 args.2 values s m

def respond (py : Python ρ) (e : CommandRequestEvent) (command topic : String) : Outcome ρ → Response ρ
  | .ok result => ⟨codeSuccess, py.capitalize command ++ " command processed successfully", e, result, topic⟩
  | .error (.typeError msg) =>
    ⟨codeClientError, py.capitalize command ++ " command failed: Invalid args " ++ msg, e, none, topic⟩
  | .error (.other msg) => ⟨codeCommandError, py.capitalize command ++ " command failed: " ++ msg, e, none, topic⟩

/-- `handle_event`, for any way to find an attribute of the command object, to call it and to
send the response. Where `signature` finds no signature (`call` is `none`) it raises before
anything is called. Where `create_from_object` raises, the method has been called, and no
response is sent. -/
def handle {σ μ : Type} (py : Python ρ) (cmd_return_topic : String) (getattr : String → Option (Member μ))
    (call : μ → CommandRequestPayload → Option (Outcome ρ × σ)) (send : Response ρ → σ → σ)
    (e : CommandRequestEvent) (s : σ) : σ :=
  match e.payload with
  | none => s
  | some p =>
    match getattr p.command with
    | none | some .value => s
    | some (.method m) =>
      match call m p with
      | none => s
      | some (outcome, s) =>
        match createFromObject e with
        | .ok _ => send (respond py e p.command cmd_return_topic outcome) s
        | .error _ => s

section Handle
variable {σ μ α : Type} {py : Python ρ} {topic : String} {getattr : String → Option (Member μ)} {m : μ}
  {call : μ → CommandRequestPayload → Option (Outcome ρ × σ)} {send : Response ρ → σ → σ}
  {e : CommandRequestEvent} {p : CommandRequestPayload} {s : σ}

theorem handle_other (h : ∀ p m, e.payload = some p → getattr p.command ≠ some (.method m)) :
    handle py topic getattr call send e s = s := by
  unfold handle
  split
  · rfl
  · rename_i p hp
    split
    · rfl
    · rfl
    · rename_i m hm
      exact absurd hm (h p m hp)

theorem handle_method (hp : e.payload = some p) (hm : getattr p.command = some (.method m)) :
    handle py topic getattr call send e s =
      match call m p with
      | none => s
      | some (outcome, s) =>
        match createFromObject e with
        | .ok _ => send (respond py e p.command topic outcome) s
        | .error _ => s := by
  rw [handle, hp]
  dsimp only
  rw [hm]

/-- What sending a response leaves as it is, is as the call has left it. -/
theorem handle_keeps {f : σ → α} (hf : ∀ r s, f (send r s) = f s) (hp : e.payload = some p)
    (hm : getattr p.command = some (.method m)) :
    f (handle py topic getattr call send e s) = ((call m p).map fun called => f called.2).getD (f s) := by
  rw [handle_method hp hm]
  cases call m p with
  | none => rfl
  | some called =>
    dsimp only
    split
    · exact hf _ _
    · rfl

end Handle

/-- `handle_event` with an object of one of the two classes. -/
def handleEvent (py : Python ρ) (cls : CmdClass ω ρ) (cmd_return_topic : String) (s : CmdState ω ρ)
    (e : CommandRequestEvent) : CmdState ω ρ :=
  handle py cmd_return_topic s.obj.getattr
    (fun m p => (cls.signature m).map fun sig => callMethod py cls e p.command m sig (callArgs sig e p.args) s)
    (fun response s => { s with responses := s.responses ++ [response] }) e s

def handleEvents (py : Python ρ) (cls : CmdClass ω ρ) (cmd_return_topic : String) (s : CmdState ω ρ)
    (events : List CommandRequestEvent) : CmdState ω ρ :=
  events.foldl (handleEvent py cls cmd_return_topic) s

end BenchmarkAi.Commands
