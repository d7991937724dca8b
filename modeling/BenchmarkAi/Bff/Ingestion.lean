import BenchmarkAi.Lib.Runs
import BenchmarkAi.Lib.Tree
/-!
# Ingestion of events

The consumer thread of the BFF, `services/sources/kafka_source.clj`, and the handlers of its
topics, `services/eventbus.clj`. A poll brings records for the configured topics. The thread
maps the topics to what their handlers return, lazily, and asks whether each of them is `true`:
the first topic whose handler returns something else is the last one that is looked at. An
exception of a handler ends the thread.
-/

open Lib List

namespace BenchmarkAi.Bff

/-! ## Records -/

/-- What `json/decode` returns. An array at the top is read lazily, after the `try`: it has the
elements that can be read, and the message of the exception if its rest can not. -/
inductive Event
  | value (t : Tree)
  | array (items : List Tree) (broken : Option String)

variable {ρ : Type} (decode : ρ → Except String Event)

/-- `records->events`: what can not be decoded is logged, and `nil` is removed. -/
def recordsToEvents (records : List ρ) : List Event :=
  records.filterMap fun record =>
    match decode record with
    | .error _ => none
    | .ok (.value .null) => none
    | .ok event => some event

/-! ## Handlers -/

inductive Thrown
  | couldNotInsert
  | noValueSupplied
  | parseError (msg : String)
deriving DecidableEq, Repr

structure Saved where
  client_key : String
  action_key : String
  event : Tree

abbrev Store := List Saved

/-- `keyword` of a JSON value is `nil` unless it is a string. -/
def keyword : Option Tree → Option String
  | some (.str s) => some s
  | _ => none

def Event.saved : Event → Option Saved
  | .value t =>
    match keyword (t.get? "client_id"), keyword (t.get? "action_id") with
    | some client_key, some action_key => some ⟨client_key, action_key, t⟩
    | _, _ => none
  | .array _ _ => none

/-- Why an event can not be stored. An array is taken apart as the keys and values of a map, and
none of its elements is a keyword. -/
def Event.thrown : Event → Thrown
  | .array _ (some msg) => .parseError msg
  | .array items none => if items.length % 2 = 1 then .noValueSupplied else .couldNotInsert
  | .value _ => .couldNotInsert

def updateStatusStore (event : Event) (store : Store) : Except Thrown Store :=
  match event.saved with
  | some saved => .ok (store ++ [saved])
  | none => .error event.thrown

def processRecords : List Event → Store → Store × Except Thrown (Option Bool)
  | [], store => (store, .ok (some true))
  | event :: events, store =>
    match updateStatusStore event store with
    | .ok store => processRecords events store
    | .error thrown => (store, .error thrown)

def processStatusRecords : List Event → Store → Store × Except Thrown (Option Bool) := processRecords

def processCmdReturnRecords : List Event → Store → Store × Except Thrown (Option Bool) := processRecords

inductive Handler
  | status | cmd_return
deriving DecidableEq, Repr

def Handler.process : Handler → List Event → Store → Store × Except Thrown (Option Bool)
  | .status => processStatusRecords
  | .cmd_return => processCmdReturnRecords

theorem Handler.process_eq (h : Handler) : h.process = processRecords := by
  cases h <;> rfl

def appHandlers : Dict Handler := ⟨[("BAI_APP_STATUS", .status), ("CMD_RETURN", .cmd_return)], by decide⟩

/-! ## The consumer -/

variable (handlers : Dict Handler)

/-- The function of a topic in `topic->process-fn-map`. Without a handler it logs a warning,
which returns `nil`. -/
def processTopic (topic : String) (events : List Event) (store : Store) : Store × Except Thrown (Option Bool) :=
  match handlers.get? topic with
  | some handler => handler.process events store
  | none => (store, .ok none)

/-- `(every? true? (map … topics))` over the records of a poll. -/
def everyTopic (records : String → List ρ) : List String → Store → Store × Except Thrown Bool
  | [], store => (store, .ok true)
  | topic :: topics, store =>
    match processTopic handlers topic (recordsToEvents decode (records topic)) store with
    | (store, .ok (some true)) => everyTopic records topics store
    | (store, .ok _) => (store, .ok false)
    | (store, .error thrown) => (store, .error thrown)

structure Consumer where
  store : Store := []
  commits : Nat := 0
  stopped : Option Thrown := none

def Consumer.turn (topics : List String) (c : Consumer) (records : String → List ρ) : Consumer :=
  if c.stopped.isSome then c
  else
    match everyTopic decode handlers records topics c.store with
    | (store, .ok true) => { c with store, commits := c.commits + 1 }
    | (store, .ok false) => { c with store }
    | (store, .error thrown) => { c with store, stopped := some thrown }

def Consumer.run (topics : List String) (polls : List (String → List ρ)) : Consumer :=
  polls.foldl (Consumer.turn decode handlers topics) {}

/-! ## What a poll stores -/

def storable (records : String → List ρ) (topic : String) : Store :=
  (recordsToEvents decode (records topic)).filterMap Event.saved

def handled (topic : String) : Bool := (handlers.get? topic).isSome

/-- What a poll has to store: the records of the handled topics that have both ids. -/
def owed (topics : List String) (records : String → List ρ) : Store :=
  (topics.filter (handled handlers)).flatMap (storable decode records)

/-- The topics before the first one without a handler have only events with both ids, and the
handled topics after it have none. -/
def Orderly (topics : List String) (records : String → List ρ) : Prop :=
  (∀ topic ∈ topics.takeWhile (handled handlers), ∀ event ∈ recordsToEvents decode (records topic),
    event.saved.isSome = true) ∧
  ∀ topic ∈ topics.dropWhile (handled handlers), handled handlers topic = true → storable decode records topic = []

variable {decode handlers}

variable {events : List Event} {handler : Handler}

theorem processRecords_all (h : ∀ event ∈ events, event.saved.isSome = true) (store : Store) :
    processRecords events store = (store ++ events.filterMap Event.saved, .ok (some true)) := by
  induction events generalizing store with
  | nil => simp [processRecords]
  | cons event events ih =>
    obtain ⟨hf, hr⟩ := forall_mem_cons.1 h
    obtain ⟨saved, hs⟩ := Option.isSome_iff_exists.1 hf
    simp only [processRecords, updateStatusStore, hs, filterMap_cons, ih hr, append_assoc]
    rfl

theorem processRecords_error (h : ¬ ∀ event ∈ events, event.saved.isSome = true) (store : Store) :
    ∃ store' thrown, processRecords events store = (store', .error thrown) := by
  induction events generalizing store with
  | nil => exact absurd (fun _ hmem => absurd hmem not_mem_nil) h
  | cons event events ih =>
    cases hs : event.saved with
    | none => exact ⟨store, event.thrown, by simp only [processRecords, updateStatusStore, hs]⟩
    | some saved =>
      have hr : ¬ ∀ event ∈ events, event.saved.isSome = true := by
        intro hall
        exact h (forall_mem_cons.2 ⟨by rw [hs]; rfl, hall⟩)
      obtain ⟨store', thrown, heq⟩ := ih hr (store ++ [saved])
      exact ⟨store', thrown, by simp only [processRecords, updateStatusStore, hs, heq]⟩

section Poll
variable {records : String → List ρ} {topic : String} {topics : List String} {store : Store}

theorem handled_of_get (h : handlers.get? topic = some handler) : handled handlers topic = true := by
  rw [handled, h]
  rfl

theorem not_handled_of_get (h : handlers.get? topic = none) : handled handlers topic = false := by
  rw [handled, h]
  rfl

/-- A topic without a handler is the last one that is looked at. -/
theorem everyTopic_unhandled (h : handlers.get? topic = none) :
    everyTopic decode handlers records (topic :: topics) store = (store, .ok false) := by
  simp only [everyTopic, processTopic, h]

theorem everyTopic_handled (h : handlers.get? topic = some handler)
    (hall : ∀ event ∈ recordsToEvents decode (records topic), event.saved.isSome = true) :
    everyTopic decode handlers records (topic :: topics) store =
      everyTopic decode handlers records topics (store ++ storable decode records topic) := by
  simp only [everyTopic, processTopic, h, Handler.process_eq, processRecords_all hall]
  rfl

/-- An event without both ids ends the thread. -/
theorem everyTopic_error (h : handlers.get? topic = some handler)
    (hall : ¬ ∀ event ∈ recordsToEvents decode (records topic), event.saved.isSome = true) (topics : List String) (store : Store) :
    ∃ store' thrown, everyTopic decode handlers records (topic :: topics) store = (store', .error thrown) := by
  obtain ⟨store', thrown, heq⟩ := processRecords_error hall store
  exact ⟨store', thrown, by simp only [everyTopic, processTopic, h, Handler.process_eq, heq]⟩

theorem owed_handled (h : handled handlers topic = true) :
    owed decode handlers (topic :: topics) records = storable decode records topic ++ owed decode handlers topics records := by
  rw [owed, filter_cons_of_pos h, flatMap_cons, owed]

theorem owed_eq_nil_iff : owed decode handlers topics records = [] ↔
      ∀ topic ∈ topics, handled handlers topic = true → storable decode records topic = [] := by
  rw [owed, flatMap_eq_nil_iff]
  simp only [mem_filter, and_imp]

theorem orderly_handled (h : handled handlers topic = true) : Orderly decode handlers (topic :: topics) records ↔
      (∀ event ∈ recordsToEvents decode (records topic), event.saved.isSome = true) ∧
        Orderly decode handlers topics records := by
  rw [Orderly, Orderly, takeWhile_cons_of_pos h, dropWhile_cons_of_pos h, forall_mem_cons, and_assoc]

theorem orderly_unhandled (h : handled handlers topic = false) :
    Orderly decode handlers (topic :: topics) records ↔ owed decode handlers (topic :: topics) records = [] := by
  rw [Orderly, takeWhile_cons_of_neg (by simp [h]), dropWhile_cons_of_neg (by simp [h]), owed_eq_nil_iff]
  exact ⟨And.right, fun hn => ⟨fun _ hmem => absurd hmem not_mem_nil, hn⟩⟩

/-- The topics of a poll are gone through without an exception, with everything stored, exactly
if the poll is orderly. -/
theorem everyTopic_complete_iff (store : Store) : (∃ all, everyTopic decode handlers records topics store =
      (store ++ owed decode handlers topics records, .ok all)) ↔ Orderly decode handlers topics records := by
  induction topics generalizing store with
  | nil =>
    refine ⟨fun _ => ⟨fun _ hmem => absurd hmem not_mem_nil, fun _ hmem => absurd hmem not_mem_nil⟩,
      fun _ => ⟨true, ?_⟩⟩
    simp [everyTopic, owed]
  | cons topic topics ih =>
    cases h : handlers.get? topic with
    | none =>
      rw [everyTopic_unhandled h, orderly_unhandled (not_handled_of_get h)]
      constructor
      · rintro ⟨all, heq⟩
        exact append_right_eq_self.1 (Prod.mk.inj heq).1.symm
      · intro hn
        exact ⟨false, by rw [hn, append_nil]⟩
    | some handler =>
      have hh := handled_of_get h
      rw [orderly_handled hh, owed_handled hh, ← append_assoc]
      by_cases hall : ∀ event ∈ recordsToEvents decode (records topic), event.saved.isSome = true
      · rw [everyTopic_handled h hall, ih]
        exact ⟨fun ho => ⟨hall, ho⟩, And.right⟩
      · obtain ⟨store', thrown, heq⟩ := everyTopic_error h hall topics store
        rw [heq]
        constructor
        · rintro ⟨all, hbad⟩
          cases (Prod.mk.inj hbad).2
        · exact fun ho => absurd ho.1 hall

end Poll

/-! ## Whole runs -/

def Consumer.tally (decode : ρ → Except String Event) (handlers : Dict Handler) (topics : List String)
    (s : Consumer × Store) (records : String → List ρ) : Consumer × Store :=
  (s.1.turn decode handlers topics records, s.2 ++ owed decode handlers topics records)

theorem foldl_tally (topics : List String) (polls : List (String → List ρ)) (s : Consumer × Store) :
    polls.foldl (Consumer.tally decode handlers topics) s =
      (polls.foldl (Consumer.turn decode handlers topics) s.1, s.2 ++ polls.flatMap (owed decode handlers topics)) := by
  induction polls generalizing s with
  | nil => simp
  | cons records polls ih =>
    rw [foldl_cons, ih, flatMap_cons, ← append_assoc]
    rfl

theorem turn_complete_iff {topics records} {c : Consumer} (h : c.stopped = none) :
    ((c.turn decode handlers topics records).stopped = none ∧
      (c.turn decode handlers topics records).store = c.store ++ owed decode handlers topics records) ↔
      Orderly decode handlers topics records := by
  rw [← everyTopic_complete_iff c.store, Consumer.turn, if_neg (by simp [h])]
  rcases heq : everyTopic decode handlers records topics c.store with ⟨store, result⟩
  cases result with
  | error thrown => simp
  | ok all => cases all <;> simp [h]

/-- The thread never stops, and before each poll everything that the polls so far brought for
handled topics, with both ids, has been stored, exactly if every poll is orderly. -/
theorem ingestion_iff (decode : ρ → Except String Event) (handlers : Dict Handler) (topics : List String)
    (polls : List (String → List ρ)) :
    (∀ pre, pre <+: polls → (Consumer.run decode handlers topics pre).stopped = none ∧
      (Consumer.run decode handlers topics pre).store = pre.flatMap (owed decode handlers topics)) ↔
    ∀ records ∈ polls, Orderly decode handlers topics records := by
  -- the run carries along what it had to store
  have hst : ∀ (s : Consumer × Store) (records : String → List ρ), (s.1.stopped = none ∧ s.1.store = s.2) →
      (((Consumer.tally decode handlers topics s records).1.stopped = none ∧
        (Consumer.tally decode handlers topics s records).1.store = (Consumer.tally decode handlers topics s records).2) ↔
        Orderly decode handlers topics records) := by
    rintro ⟨c, tally⟩ records ⟨hsp, hs⟩
    dsimp only at hsp hs
    subst hs
    exact turn_complete_iff hsp
  have hall := forall_prefix_iff_along (fun s : Consumer × Store => s.1.stopped = none ∧ s.1.store = s.2) hst
    (s := ({}, [])) ⟨rfl, rfl⟩ polls
  rw [along_total_iff] at hall
  rw [← hall]
  refine forall₂_congr fun pre _ => ?_
  rw [foldl_tally]
  rfl

def statusEvent : Event := .value (.obj [("client_id", .str "client"), ("action_id", .str "action")])

def readAs (event : Option Event) : Except String Event :=
  match event with
  | some event => .ok event
  | none => .error "Unrecognized token"

def statusPoll (event : Event) (topic : String) : List (Option Event) :=
  if topic = "BAI_APP_STATUS" then [none, some event] else []

/-- A topic without a handler before the topic of the status messages: the message is lost. And
an event without ids ends the thread. -/
theorem status_lost :
    (Consumer.run readAs appHandlers ["BAI_APP_FETCHER", "BAI_APP_STATUS"] [statusPoll statusEvent]).store = [] ∧
    (Consumer.run readAs appHandlers ["BAI_APP_STATUS", "BAI_APP_FETCHER"] [statusPoll statusEvent]).store =
      [⟨"client", "action", .obj [("client_id", .str "client"), ("action_id", .str "action")]⟩] ∧
    (Consumer.run readAs appHandlers ["BAI_APP_STATUS"] [statusPoll (.value (.obj []))]).stopped = some .couldNotInsert :=
  ⟨rfl, rfl, rfl⟩

end BenchmarkAi.Bff
