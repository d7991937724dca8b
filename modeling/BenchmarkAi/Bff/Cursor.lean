import BenchmarkAi.Bff.Paging
import BenchmarkAi.Kafka.Service
/-!
# The cursor of the client

Where a client has come to is computed three times: `EventEmitter.send_event` of
`bai_kafka_utils/kafka_service.py` stamps an event, the BFF makes its sort key of the time of the
event, and `anubis` saves the time of the last service that the event has visited. The emitter
reads the clock once for each of the two.
-/

open Lib BenchmarkAi.Kafka

namespace BenchmarkAi.Bff

variable {π : Type}

/-! ## The client -/

/-- `.visited[-1].tstamp`, as `jq` writes it. -/
def lastVisited (event : BenchmarkEvent π) : String :=
  match event.visited.getLast? with
  | some entry => toString entry.tstamp
  | none => "null"

def quoted (text : String) : String := "\"" ++ text ++ "\""

/-- The line that `_as_status_line` writes to the file. -/
def latestTstamp (event : BenchmarkEvent π) : String := lastVisited event ++ ":" ++ quoted event.message_id

/-- What `eval` of the command makes of a word that has no other special characters than quotes. -/
def evalWord (word : String) : String := String.ofList (word.toList.filter (· ≠ '"'))

def clientCursor (event : BenchmarkEvent π) : String := evalWord (latestTstamp event)

/-- The client asks for the events behind the key of the event, and does not get it again. -/
structure CursorAgrees (event : BenchmarkEvent π) : Prop where
  cursor_eq : clientCursor event = sortKey event
  not_again : ∀ client_id action_id (table : Table π),
    event ∉ getClientJobStatusForAction client_id action_id (some (clientCursor event)) table

theorem filter_quotes {cs : List Char} (h : '"' ∉ cs) : cs.filter (· ≠ '"') = cs := by
  refine List.filter_eq_self.2 fun c hc => decide_eq_true ?_
  rintro rfl
  exact h hc

theorem clientCursor_sendEvent (emitter : EventEmitter) (event : BenchmarkEvent π) (topic : String) (message_id : Uuid)
    (clock : Nat → Int) :
    (clientCursor (emitter.sendEvent event topic message_id clock)).toList =
      (toString (clock 0)).toList ++ ':' :: message_id.text.toList := by
  have ht : '"' ∉ (toString (clock 0)).toList := fun h => absurd (of_mem_toString h) (by decide)
  have hid : '"' ∉ message_id.text.toList := fun h => absurd (List.all_eq_true.1 message_id.chars _ h) (by decide)
  have hl : lastVisited (emitter.sendEvent event topic message_id clock) = toString (clock 0) := by
    simp [lastVisited, EventEmitter.sendEvent, EventEmitter.addSelfToVisited]
  rw [clientCursor, evalWord, latestTstamp, hl, String.toList_ofList, quoted]
  simp only [String.toList_append, List.filter_append, filter_quotes ht]
  change _ ++ [':'] ++ ([] ++ (message_id.text.toList.filter (· ≠ '"')) ++ []) = _
  rw [filter_quotes hid]
  simp

/-- A query never returns the event whose key it starts from. -/
theorem notMem_getClientJobStatus (client_id action_id : String) (table : Table π) (event : BenchmarkEvent π) :
    event ∉ getClientJobStatus client_id action_id (sortKey event) table := by
  rw [getClientJobStatus_eq]
  intro h
  obtain ⟨item, hi, rfl⟩ := List.mem_map.1 h
  obtain ⟨hmem, hlt⟩ := mem_of_mem_page (List.mem_filter.1 hi).1
  rw [table.keyed action_id item hmem] at hlt
  exact lt_irrefl _ hlt

theorem toString_int_inj {i j : Int} (h : toString i = toString j) : i = j := by
  have hsign (n m : Nat) : toString (Int.ofNat n) ≠ toString (Int.negSucc m) := by
    intro he
    -- only the text of a negative number has a sign
    have hm : '-' ∈ ("-" ++ m.succ.repr).toList := by
      rw [String.toList_append]
      exact List.mem_append_left _ (by decide)
    rw [show "-" ++ m.succ.repr = n.repr from he.symm, Nat.repr, String.toList_ofList] at hm
    exact absurd (Nat.isDigit_of_mem_toDigits (by decide) (by decide) hm) (by decide)
  cases i with
  | ofNat n =>
    cases j with
    | ofNat m => rw [Words.toString_inj h]
    | negSucc m => exact absurd h (hsign n m)
  | negSucc n =>
    cases j with
    | ofNat m => exact absurd h.symm (hsign m n)
    | negSucc m =>
      have he : toString (n + 1) = toString (m + 1) := (String.append_right_inj "-").1 h
      rw [Nat.succ.inj (Words.toString_inj he)]

/-- The cursor of the client is the key of the event exactly if the clock shows the same time twice. -/
theorem cursor_agrees_iff (emitter : EventEmitter) (event : BenchmarkEvent π) (topic : String) (message_id : Uuid)
    (clock : Nat → Int) : CursorAgrees (emitter.sendEvent event topic message_id clock) ↔ clock 0 = clock 1 := by
  have hc := clientCursor_sendEvent emitter event topic message_id clock
  have hkey := toList_sortKey (emitter.sendEvent event topic message_id clock)
  constructor
  · rintro ⟨heq, -⟩
    rw [heq, hkey] at hc
    have ht := (Words.append_sep_inj (colon_notMem_toString _) (colon_notMem_toString _) hc).1
    exact (toString_int_inj (String.toList_inj.1 ht)).symm
  · intro hcl
    have heq : clientCursor (emitter.sendEvent event topic message_id clock) =
        sortKey (emitter.sendEvent event topic message_id clock) := by
      rw [← String.toList_inj, hc, hkey, hcl]
      rfl
    refine ⟨heq, fun client_id action_id table => ?_⟩
    rw [heq]
    exact notMem_getClientJobStatus client_id action_id table _

/-- The clock goes on between the two reads. -/
theorem event_returned_again : let emitter : EventEmitter := ⟨"fetcher-dispatcher", "0.1.0", "pod-1"⟩
    let event := emitter.sendEvent (stampedEvent 0 "m0") "BAI_APP_STATUS" ⟨"728ff542-b332-4520-bb2e-51d5e32cfc0a", rfl⟩
      fun read => if read = 0 then 1556814924121 else 1556814924122
    clientCursor event = "1556814924121:728ff542-b332-4520-bb2e-51d5e32cfc0a" ∧ sortKey event = "1556814924122:728ff542-b332-4520-bb2e-51d5e32cfc0a" ∧
      getClientJobStatusForAction "client-1" "action-1" (some (clientCursor event))
        (saveClientJobStatus "client-1" "action-1" event .empty) = [event] := by
  decide +kernel

end BenchmarkAi.Bff
