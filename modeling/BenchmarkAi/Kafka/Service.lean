import BenchmarkAi.Events
import BenchmarkAi.Lib.Runs
import BenchmarkAi.Lib.Tree
import Mathlib.Data.List.Dedup
/-!
# The service loop

`bai_kafka_utils/kafka_service.py`: a service polls its topics and passes each message to
the callbacks that are registered for its topic, one after the other, until it is stopped.

The loop is a machine that takes one step at a time. What comes from outside is the label of
the step: the records of a poll, and what the callback at work does next, which may be to call
the service or to end with an exception. So every list of labels is a behaviour of the
callbacks, and a theorem about every run holds for all of them. What is only logged as
information is left out.
-/

open Lib

namespace BenchmarkAi.Kafka

inductive Failure
  | callbackException (msg : String)
  | loopAlreadyRunning (msg : String)
  | loopNotRunning (msg : String)
  | keyError (topic : String)
  | valueError (msg : String)
  | typeError (msg : String)
  | other (text : String)
deriving DecidableEq, Repr

def loopIsAlreadyRunning : String := "Loop is already running"
def isNotRunning : String := "Loop is not running"
def cannotUpdateCallbacks : String := "Cannot update callbacks with running loop"
def emptyMessage : String := "Empty message received (no event found)"

structure TopicPartition where
  topic : String
  partition : Nat
deriving DecidableEq, Repr

structure Message (π : Type) where
  value : Option (BenchmarkEvent π)
deriving DecidableEq, Repr

abbrev Records (π : Type) := List (TopicPartition × List (Message π))

/-! ## The emitter -/

section Emitter
variable {π : Type}

structure Uuid where
  text : String
  chars : text.toList.all ("0123456789abcdef-".toList.contains ·) = true

structure EventEmitter where
  name : String
  version : String
  pod_name : String

def EventEmitter.addSelfToVisited (emitter : EventEmitter) (src_event : BenchmarkEvent π) (current_time_ms : Int) :
    List VisitedService :=
  src_event.visited ++ [⟨emitter.name, current_time_ms, emitter.version, some emitter.pod_name⟩]

/-- The event that `send_event` sends to the topic, with the values of `now_milliseconds` in the order
of its calls. -/
def EventEmitter.sendEvent (emitter : EventEmitter) (event : BenchmarkEvent π) (topic : String) (message_id : Uuid)
    (clock : Nat → Int) : BenchmarkEvent π :=
  { event with
    message_id := message_id.text
    type := topic
    visited := emitter.addSelfToVisited event (clock 0)
    tstamp := clock 1 }

end Emitter

/-! ## The callbacks of a service

Callbacks are compared as objects are, by identity, so any type with decidable equality
stands for them. -/

structure KafkaService (κ : Type) where
  running : Bool
  callbacks : Dict (List κ)

inductive Op (κ : Type)
  | stop_loop
  | add_callback (callback : κ) (topic : String)
  | remove_callback (callback : κ) (topic : Option String)
deriving DecidableEq, Repr

namespace KafkaService
variable {κ : Type} [DecidableEq κ]

def stopLoop (s : KafkaService κ) : Except Failure (KafkaService κ) :=
  if s.running then .ok { s with running := false } else .error (.loopNotRunning isNotRunning)

def addCallback (s : KafkaService κ) (callback : κ) (topic : String) : Except Failure (KafkaService κ) :=
  if s.running then .error (.loopAlreadyRunning cannotUpdateCallbacks)
  else
    match s.callbacks.get? topic with
    | some cbs => .ok { s with callbacks := s.callbacks.set topic (cbs ++ [callback]) }
    | none => .ok { s with callbacks := s.callbacks.set topic [callback] }

/-- `remove_callback`. An empty topic is none; `list.remove` takes the first one out. -/
def removeCallback (s : KafkaService κ) (callback : κ) (topic : Option String) : Except Failure (KafkaService κ) :=
  if s.running then .error (.loopAlreadyRunning cannotUpdateCallbacks)
  else if truthy topic then
    match s.callbacks.get? (topic.getD "") with
    | some cbs =>
      if callback ∈ cbs then .ok { s with callbacks := s.callbacks.set (topic.getD "") (cbs.erase callback) }
      else .error (.valueError "list.remove(x): x not in list")
    | none => .error (.keyError (topic.getD ""))
  else .ok { s with callbacks := s.callbacks.mapValues fun cbs => cbs.erase callback }

def perform (s : KafkaService κ) : Op κ → Except Failure (KafkaService κ)
  | .stop_loop => s.stopLoop
  | .add_callback callback topic => s.addCallback callback topic
  | .remove_callback callback topic => s.removeCallback callback topic

/-- `distinct_callbacks`. A set has no order; the callbacks are cleaned up in any. -/
def distinctCallbacks (s : KafkaService κ) : List κ := s.callbacks.values.flatten.dedup

end KafkaService

/-! ## The loop -/

inductive Control (κ π : Type)
  | test
  | batch (todo : List (String × Message π))
  /-- Before the next callback; `next` is the place of the list iterator. -/
  | callbacks (topic : String) (msg : Message π) (next : Nat) (todo : List (String × Message π))
  /-- In the `try` of `safe_handle_msg`, before the callback is called. -/
  | trying (callback : κ) (topic : String) (msg : Message π) (next : Nat) (todo : List (String × Message π))
  | inside (callback : κ) (topic : String) (msg : Message π) (next : Nat) (todo : List (String × Message π))
  /-- After the `while`, with the callbacks that still have to be cleaned up. -/
  | cleanup (pending : List κ)
  | ended
deriving DecidableEq, Repr

/-- What a run leaves behind: the calls of callbacks, and what is logged as a warning or
as an exception. -/
inductive Entry (κ π : Type)
  | unexpectedType (type topic : String)
  | notProcessed (topic : String) (msg : Message π)
  | passed (callback : κ) (event : BenchmarkEvent π)
  | failed (msg : Message π) (error : Failure)
deriving DecidableEq, Repr

structure Loop (κ π : Type) where
  service : KafkaService κ
  control : Control κ π
  polled : List (String × Message π) := []
  trace : List (Entry κ π) := []
  cleaned : List κ := []

/-- What happens next: a poll returns, the loop goes on, the callback at work calls the
service or ends, a callback is cleaned up. -/
inductive Label (κ π : Type)
  | poll (records : Records π)
  | next
  | call (op : Op κ)
  | finish (outcome : Option Failure)
  | cleanup (callback : κ)
deriving DecidableEq, Repr

variable {κ π : Type} [DecidableEq κ]

def Records.messages (records : Records π) : List (String × Message π) :=
  records.flatMap fun r => r.2.map fun msg => (r.1.topic, msg)

def checkMessageBelongsToTopic (msg : Message π) (topic : String) : List (Entry κ π) :=
  match msg.value with
  | some event => if event.type = topic then [] else [.unexpectedType event.type topic]
  | none => []

/-- Both `except` clauses of `safe_handle_msg` log the exception and go on. -/
def logged (msg : Message π) : Option Failure → List (Entry κ π)
  | none => []
  | some e => [.failed msg e]

namespace Loop

def start (s : KafkaService κ) : Except Failure (Loop κ π) :=
  if s.running then .error (.loopAlreadyRunning loopIsAlreadyRunning)
  else .ok { service := { s with running := true }, control := .test }

def advance (s : Loop κ π) : Option (Loop κ π) :=
  match s.control with
  | .test => if s.service.running then none else some { s with control := .cleanup s.service.distinctCallbacks }
  | .batch [] => some { s with control := .test }
  | .batch ((topic, msg) :: todo) =>
    let trace := s.trace ++ checkMessageBelongsToTopic msg topic
    match s.service.callbacks.get? topic with
    | none => some { s with control := .batch todo, trace := trace ++ [.notProcessed topic msg] }
    | some _ => some { s with control := .callbacks topic msg 0 todo, trace }
  | .callbacks topic msg next todo =>
    -- the iterator looks at the list as it is now
    match ((s.service.callbacks.get? topic).getD [])[next]? with
    | none => some { s with control := .batch todo }
    | some callback => some { s with control := .trying callback topic msg (next + 1) todo }
  | .trying callback topic msg next todo =>
    match msg.value with
    | none =>
      some { s with
        control := .callbacks topic msg next todo
        trace := s.trace ++ logged msg (some (.callbackException emptyMessage)) }
    | some event =>
      some { s with control := .inside callback topic msg next todo, trace := s.trace ++ [.passed callback event] }
  | .inside .. => none
  | .cleanup [] => some { s with control := .ended }
  | .cleanup (_ :: _) => none
  | .ended => none

def step (s : Loop κ π) : Label κ π → Option (Loop κ π)
  | .poll records =>
    match s.control with
    | .test =>
      if s.service.running then
        some { s with control := .batch (Records.messages records), polled := s.polled ++ Records.messages records }
      else none
    | _ => none
  | .next => s.advance
  | .call op =>
    match s.control with
    | .inside .. =>
      -- a call that raises leaves the service as it is; the callback may go on
      match s.service.perform op with
      | .ok service => some { s with service }
      | .error _ => some s
    | _ => none
  | .finish outcome =>
    match s.control with
    | .inside _ topic msg next todo =>
      some { s with control := .callbacks topic msg next todo, trace := s.trace ++ logged msg outcome }
    | _ => none
  | .cleanup callback =>
    match s.control with
    | .cleanup pending =>
      if callback ∈ pending then
        some { s with control := .cleanup (pending.erase callback), cleaned := s.cleaned ++ [callback] }
      else none
    | _ => none

end Loop

def started (table : Dict (List κ)) : Loop κ π := { service := ⟨true, table⟩, control := .test }

end BenchmarkAi.Kafka
