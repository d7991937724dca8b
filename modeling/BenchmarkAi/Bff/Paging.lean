import BenchmarkAi.Events
import BenchmarkAi.Lib.Pages
import BenchmarkAi.Lib.Words
import Mathlib.Data.List.Induction
import Mathlib.Data.String.Basic
/-!
# Paging through the status of an action

The BFF stores the status events of an action under their time and message id,
`utils/persistence.clj`, and a client asks for those behind the last one that it has. The keys
are strings, and the time in a key is that of the service that sent the event, so an event can
arrive when the client has come past its key. We prove that no event is returned twice, and
exactly when each of them is returned.
-/

open Lib List

namespace BenchmarkAi.Bff

variable {π : Type}

/-! ## The table -/

def sortKey (event : BenchmarkEvent π) : String := toString event.tstamp ++ ":" ++ event.message_id

structure Item (π : Type) where
  actionId : String
  timestampMessageId : String
  clientId : String
  event : BenchmarkEvent π

structure Table (π : Type) where
  items : String → List (Item π)
  ordered : ∀ action_id, Ordered Item.timestampMessageId (items action_id)
  keyed : ∀ action_id, ∀ item ∈ items action_id, item.timestampMessageId = sortKey item.event

def Table.empty : Table π where
  items _ := []
  ordered _ := List.Pairwise.nil
  keyed _ _ h := absurd h not_mem_nil

def statusItem (client_id action_id : String) (event : BenchmarkEvent π) : Item π :=
  ⟨action_id, sortKey event, client_id, event⟩

/-- `save-client-job-status`, where `put-item` does not fail; if it does, nothing is stored and
the exception is logged. -/
def saveClientJobStatus (client_id action_id : String) (event : BenchmarkEvent π) (table : Table π) : Table π where
  items := Function.update table.items action_id
    (upsert Item.timestampMessageId (statusItem client_id action_id event) (table.items action_id))
  ordered other := by
    by_cases h : other = action_id
    · subst h
      rw [Function.update_self]
      exact ordered_upsert _ (table.ordered other)
    · rw [Function.update_of_ne h]
      exact table.ordered other
  keyed other item hitem := by
    by_cases h : other = action_id
    · subst h
      rw [Function.update_self, mem_upsert (table.ordered other)] at hitem
      rcases hitem with rfl | ⟨hitem, -⟩
      · rfl
      · exact table.keyed other item hitem
    · rw [Function.update_of_ne h] at hitem
      exact table.keyed other item hitem

def queryLimit : Nat := 100

/-- `get-client-job-status`. The limit is on the items that the key conditions select, before the
filter on the client. -/
def getClientJobStatus (client_id action_id from_sort_key : String) (table : Table π) : List (BenchmarkEvent π) :=
  let selected := (table.items action_id).filter fun item => from_sort_key ≤ item.timestampMessageId
  let selected :=
    if from_sort_key = "0" then selected
    -- `:exclusive-start-key`
    else selected.filter fun item => from_sort_key < item.timestampMessageId
  ((selected.take queryLimit).filter fun item => item.clientId = client_id).map (·.event)

def getClientJobStatusForAction (client_id action_id : String) (since : Option String) (table : Table π) :
    List (BenchmarkEvent π) :=
  getClientJobStatus client_id action_id (since.getD "0") table

/-! ## A client that polls -/

structure Session (π : Type) where
  table : Table π
  since : String
  received : List (BenchmarkEvent π)

def Session.start : Session π := ⟨.empty, "0", []⟩

inductive Step (π : Type)
  | save (event : BenchmarkEvent π)
  | poll

variable (client_id action_id : String)

def Session.answer (s : Session π) : List (BenchmarkEvent π) :=
  getClientJobStatusForAction client_id action_id (some s.since) s.table

def Session.step (s : Session π) : Step π → Session π
  | .save event => { s with table := saveClientJobStatus client_id action_id event s.table }
  | .poll =>
    let events := s.answer client_id action_id
    { s with
      since := (events.getLast?.map sortKey).getD s.since
      received := s.received ++ events }

def session (steps : List (Step π)) : Session π := steps.foldl (Session.step client_id action_id) .start

def arrivals (steps : List (Step π)) : List (BenchmarkEvent π) :=
  steps.filterMap fun
    | .save event => some event
    | .poll => none

/-- Each event is returned by a poll, and none by two or twice by one. -/
structure MissesNothing (steps : List (Step π)) : Prop where
  complete : ∀ event ∈ arrivals steps, event ∈ (session client_id action_id steps).received
  once : (session client_id action_id steps).received.Nodup

/-- The event arrives at some point of the run, and there the client has not come to its key. -/
def ArrivesAhead (steps : List (Step π)) (event : BenchmarkEvent π) : Prop :=
  ∃ before, before ++ [.save event] <+: steps ∧ (session client_id action_id before).since < sortKey event

/-! ## Keys -/

theorem of_mem_toString {t : Int} {c : Char} (h : c ∈ (toString t).toList) : c = '-' ∨ c.isDigit = true := by
  have hd {n : Nat} (hc : c ∈ n.repr.toList) : c.isDigit = true := by
    rw [Nat.repr, String.toList_ofList] at hc
    exact Nat.isDigit_of_mem_toDigits (by decide) (by decide) hc
  cases t with
  | ofNat n => exact .inr (hd h)
  | negSucc n =>
    change c ∈ ("-" ++ n.succ.repr).toList at h
    rw [String.toList_append, mem_append] at h
    exact h.imp mem_singleton.1 hd

theorem colon_notMem_toString (t : Int) : ':' ∉ (toString t).toList :=
  fun h => absurd (of_mem_toString h) (by decide)

theorem toList_sortKey (event : BenchmarkEvent π) :
    (sortKey event).toList = (toString event.tstamp).toList ++ ':' :: event.message_id.toList := by
  simp [sortKey]

theorem message_id_of_sortKey {event other : BenchmarkEvent π} (h : sortKey event = sortKey other) :
    event.message_id = other.message_id := by
  have hl := congrArg String.toList h
  rw [toList_sortKey, toList_sortKey] at hl
  exact String.toList_inj.1 (Words.append_sep_inj (colon_notMem_toString _) (colon_notMem_toString _) hl).2

theorem sortKey_ne_zero (event : BenchmarkEvent π) : sortKey event ≠ "0" := by
  intro h
  have hmem : ':' ∈ (sortKey event).toList := by simp [toList_sortKey]
  rw [h] at hmem
  exact absurd hmem (by decide)

/-! ## Queries -/

/-- The items behind the start key; without one the least key is `"0"`, which is no item's. -/
theorem selected_eq (table : Table π) (action_id from_sort_key : String) : (if from_sort_key = "0" then
        (table.items action_id).filter fun item => from_sort_key ≤ item.timestampMessageId
      else
        ((table.items action_id).filter fun item => from_sort_key ≤ item.timestampMessageId).filter fun item =>
          from_sort_key < item.timestampMessageId) =
      (table.items action_id).filter fun item => from_sort_key < item.timestampMessageId := by
  split
  · rename_i hz
    refine filter_congr fun item hi => ?_
    have hne : item.timestampMessageId ≠ "0" := by
      rw [table.keyed action_id item hi]
      exact sortKey_ne_zero item.event
    simp [hz, le_iff_lt_or_eq, hne.symm]
  · rw [filter_filter]
    refine filter_congr fun item _ => ?_
    rw [Bool.and_eq_left_iff_imp]
    intro hlt
    exact decide_eq_true (le_of_lt (of_decide_eq_true hlt))

/-- A poll returns a page of the items, less those of other clients. -/
theorem getClientJobStatus_eq (client_id action_id from_sort_key : String) (table : Table π) :
    getClientJobStatus client_id action_id from_sort_key table =
      ((page Item.timestampMessageId queryLimit from_sort_key (table.items action_id)).filter fun item =>
        item.clientId = client_id).map (·.event) := by
  rw [getClientJobStatus, selected_eq, page]

/-! ## Runs -/

section Runs

variable {client_id action_id} {steps : List (Step π)} {step : Step π} {event : BenchmarkEvent π} {item : Item π}

theorem session_concat : session client_id action_id (steps ++ [step]) =
    (session client_id action_id steps).step client_id action_id step :=
  foldl_concat _ _ _ _

theorem arrivals_save : arrivals (steps ++ [.save event]) = arrivals steps ++ [event] := by simp [arrivals]

theorem arrivals_poll : arrivals (steps ++ [.poll]) = arrivals steps := by simp [arrivals]

theorem mem_arrivals_iff : event ∈ arrivals steps ↔ ∃ before, before ++ [.save event] <+: steps := by
  rw [arrivals, mem_filterMap]
  constructor
  · rintro ⟨step, hs, heq⟩
    obtain ⟨before, after, rfl⟩ := append_of_mem hs
    cases step with
    | poll => cases heq
    | save other =>
      cases heq
      exact ⟨before, after, by simp⟩
  · rintro ⟨before, after, rfl⟩
    exact ⟨.save event, by simp, rfl⟩

theorem items_save : (session client_id action_id (steps ++ [.save event])).table.items action_id =
    upsert Item.timestampMessageId (statusItem client_id action_id event)
      ((session client_id action_id steps).table.items action_id) := by
  rw [session_concat]
  exact Function.update_self _ _ _

theorem of_mem_items (h : item ∈ (session client_id action_id steps).table.items action_id) :
    ∃ event ∈ arrivals steps, item = statusItem client_id action_id event := by
  induction steps using reverseRecOn with
  | nil => exact absurd h not_mem_nil
  | append_singleton steps step ih =>
    cases step with
    | poll =>
      rw [session_concat] at h
      rw [arrivals_poll]
      exact ih h
    | save event =>
      rw [items_save, mem_upsert (Table.ordered _ action_id)] at h
      rw [arrivals_save]
      rcases h with rfl | ⟨h, -⟩
      · exact ⟨event, by simp, rfl⟩
      · obtain ⟨event, he, rfl⟩ := ih h
        exact ⟨event, mem_append_left _ he, rfl⟩

/-- Events with other message ids do not replace one that has arrived. -/
theorem mem_items (hids : ((arrivals steps).map (·.message_id)).Nodup) (h : event ∈ arrivals steps) :
    statusItem client_id action_id event ∈ (session client_id action_id steps).table.items action_id := by
  induction steps using reverseRecOn with
  | nil => exact absurd h not_mem_nil
  | append_singleton steps step ih =>
    cases step with
    | poll =>
      rw [arrivals_poll] at hids h
      rw [session_concat]
      exact ih hids h
    | save last =>
      rw [arrivals_save] at hids h
      rw [items_save, mem_upsert (Table.ordered _ action_id)]
      rw [map_append, nodup_append] at hids
      rcases mem_append.1 h with h | h
      · refine .inr ⟨ih hids.1 h, fun hkey => ?_⟩
        exact hids.2.2 _ (mem_map_of_mem h) _ (mem_singleton_self _) (message_id_of_sortKey hkey)
      · rw [mem_singleton.1 h]
        exact .inl rfl

def Session.page (s : Session π) (action_id : String) : List (Item π) :=
  Lib.page Item.timestampMessageId queryLimit s.since (s.table.items action_id)

theorem answer_eq : (session client_id action_id steps).answer client_id action_id =
    ((session client_id action_id steps).page action_id).map (·.event) := by
  rw [Session.answer, getClientJobStatusForAction, Option.getD_some, getClientJobStatus_eq, Session.page,
    filter_eq_self.2]
  intro item hi
  obtain ⟨event, -, rfl⟩ := of_mem_items (mem_of_mem_page hi).1
  exact decide_eq_true rfl

theorem since_poll : (session client_id action_id (steps ++ [.poll])).since =
    reached Item.timestampMessageId (session client_id action_id steps).since
      ((session client_id action_id steps).page action_id) := by
  rw [session_concat]
  change (((session client_id action_id steps).answer client_id action_id).getLast?.map sortKey).getD _ = _
  rw [answer_eq, getLast?_map, Option.map_map]
  congr 1
  refine Option.map_congr fun item hi => ?_
  exact ((session client_id action_id steps).table.keyed action_id item (mem_of_mem_page (mem_of_getLast? hi)).1).symm

theorem received_poll : (session client_id action_id (steps ++ [.poll])).received =
    (session client_id action_id steps).received ++ ((session client_id action_id steps).page action_id).map (·.event) := by
  rw [session_concat, ← answer_eq]
  rfl

theorem since_mono {steps'} (h : steps <+: steps') :
    (session client_id action_id steps).since ≤ (session client_id action_id steps').since := by
  obtain ⟨rest, rfl⟩ := h
  induction rest using reverseRecOn with
  | nil => rw [append_nil]
  | append_singleton rest step ih =>
    rw [← append_assoc]
    cases step with
    | save event =>
      rw [session_concat]
      exact ih
    | poll =>
      rw [since_poll]
      exact ih.trans (since_le_reached _ _ _)

theorem of_mem_page (h : item ∈ (session client_id action_id steps).page action_id) :
    item.event ∈ arrivals steps ∧ item.timestampMessageId = sortKey item.event := by
  obtain ⟨event, he, rfl⟩ := of_mem_items (mem_of_mem_page h).1
  exact ⟨he, rfl⟩

theorem arrivesAhead_of_mem {steps'} (h : ArrivesAhead client_id action_id steps event)
    (hpre : steps <+: steps') : ArrivesAhead client_id action_id steps' event := by
  obtain ⟨before, hb, hlt⟩ := h
  exact ⟨before, hb.trans hpre, hlt⟩

/-- The client has exactly the events that arrived ahead of it and that it has come past. -/
theorem mem_received_iff (hids : ((arrivals steps).map (·.message_id)).Nodup) :
    event ∈ (session client_id action_id steps).received ↔
      ArrivesAhead client_id action_id steps event ∧ sortKey event ≤ (session client_id action_id steps).since := by
  induction steps using reverseRecOn with
  | nil =>
    refine ⟨fun h => absurd h not_mem_nil, ?_⟩
    rintro ⟨⟨before, hb, -⟩, -⟩
    exact absurd (prefix_nil.1 hb) (by simp)
  | append_singleton steps step ih =>
    have hpre : steps <+: steps ++ [step] := prefix_append _ _
    cases step with
    | save last =>
      rw [arrivals_save, map_append, nodup_append] at hids
      have hs : (session client_id action_id (steps ++ [.save last])).since =
          (session client_id action_id steps).since := by rw [session_concat]; rfl
      rw [hs]
      have hr : (session client_id action_id (steps ++ [.save last])).received =
          (session client_id action_id steps).received := by rw [session_concat]; rfl
      rw [hr, ih hids.1]
      constructor
      · rintro ⟨ha, hle⟩
        exact ⟨arrivesAhead_of_mem ha hpre, hle⟩
      · rintro ⟨⟨before, hb, hlt⟩, hle⟩
        refine ⟨⟨before, ?_, hlt⟩, hle⟩
        rcases prefix_concat_iff.1 hb with heq | hb
        · -- the last arrival is ahead of the client, which can not have come past it
          obtain rfl := (append_inj' heq rfl).1
          exact absurd hle (not_le.2 hlt)
        · exact hb
    | poll =>
      rw [arrivals_poll] at hids
      rw [received_poll, mem_append, ih hids, since_poll]
      constructor
      · rintro (⟨ha, hle⟩ | hp)
        · exact ⟨arrivesAhead_of_mem ha hpre, hle.trans (since_le_reached _ _ _)⟩
        · obtain ⟨item, hi, rfl⟩ := mem_map.1 hp
          obtain ⟨har, hkey⟩ := of_mem_page hi
          obtain ⟨before, hb⟩ := mem_arrivals_iff.1 har
          obtain ⟨-, hlt, hle⟩ := (mem_page_iff (Table.ordered _ action_id)).1 hi
          rw [hkey] at hlt hle
          have hm := @since_mono _ client_id action_id _ _ ((prefix_append before _).trans hb)
          exact ⟨⟨before, hb.trans hpre, hm.trans_lt hlt⟩, hle⟩
      · rintro ⟨⟨before, hb, hlt⟩, hle⟩
        have hb : before ++ [.save event] <+: steps := by
          rcases prefix_concat_iff.1 hb with heq | hb
          · exact absurd (append_inj' heq rfl).2 (by simp)
          · exact hb
        by_cases hse : sortKey event ≤ (session client_id action_id steps).since
        · exact .inl ⟨⟨before, hb, hlt⟩, hse⟩
        · refine .inr (mem_map.2 ⟨statusItem client_id action_id event, ?_, rfl⟩)
          refine (mem_page_iff (Table.ordered _ action_id)).2 ⟨?_, not_le.1 hse, hle⟩
          exact mem_items hids (mem_arrivals_iff.2 ⟨before, hb⟩)

theorem received_ordered (steps : List (Step π)) : Ordered sortKey (session client_id action_id steps).received ∧
      ∀ event ∈ (session client_id action_id steps).received,
        sortKey event ≤ (session client_id action_id steps).since := by
  induction steps using reverseRecOn with
  | nil => exact ⟨List.Pairwise.nil, fun _ h => absurd h not_mem_nil⟩
  | append_singleton steps step ih =>
    cases step with
    | save event =>
      rw [session_concat]
      exact ih
    | poll =>
      rw [received_poll, since_poll]
      constructor
      · refine pairwise_append.2 ⟨ih.1, ?_, fun event he other ho => ?_⟩
        · refine pairwise_map.2 ((ordered_page (Table.ordered _ action_id)).imp_of_mem ?_)
          intro item item' hi hi' hlt
          rwa [(of_mem_page hi).2, (of_mem_page hi').2] at hlt
        · obtain ⟨item, hi, rfl⟩ := mem_map.1 ho
          refine (ih.2 event he).trans_lt ?_
          rw [← (of_mem_page hi).2]
          exact (mem_of_mem_page hi).2
      · intro event he
        rcases mem_append.1 he with he | he
        · exact (ih.2 event he).trans (since_le_reached _ _ _)
        · obtain ⟨item, hi, rfl⟩ := mem_map.1 he
          rw [← (of_mem_page hi).2]
          exact le_reached (ordered_page (Table.ordered _ action_id)) hi

end Runs

theorem of_mem_answer {s : Session π} {event : BenchmarkEvent π} (h : event ∈ s.answer client_id action_id) :
    ∃ item ∈ s.table.items action_id, item.timestampMessageId = sortKey event ∧ s.since < item.timestampMessageId := by
  rw [Session.answer, getClientJobStatusForAction, Option.getD_some, getClientJobStatus_eq] at h
  obtain ⟨item, hi, rfl⟩ := mem_map.1 h
  obtain ⟨hmem, hlt⟩ := mem_of_mem_page (mem_filter.1 hi).1
  exact ⟨item, hmem, s.table.keyed action_id item hmem, hlt⟩

/-- Whatever is stored, for this and for other clients and actions, a client that keeps polling comes
to a poll that returns nothing. -/
theorem polls_end (s : Session π) :
    ∃ polls, ((replicate polls .poll).foldl (Session.step client_id action_id) s).answer client_id action_id = [] := by
  -- a poll that returns something leaves fewer items behind the client
  induction hn : ((s.table.items action_id).filter fun item => s.since < item.timestampMessageId).length
      using Nat.strongRecOn generalizing s with
  | ind n ih =>
    rcases eq_nil_or_concat' (s.answer client_id action_id) with hnil | ⟨events, last, hlast⟩
    · exact ⟨0, hnil⟩
    · have hs : (s.step client_id action_id .poll).since = sortKey last := by simp [Session.step, hlast]
      obtain ⟨item, hi, hkey, hlt⟩ := of_mem_answer client_id action_id (hlast ▸ mem_append_right events (mem_singleton_self last))
      obtain ⟨polls, hp⟩ := ih _ (hn ▸ remaining_lt hi hlt) (s.step client_id action_id .poll) (by rw [hs, ← hkey]; rfl)
      exact ⟨polls + 1, hp⟩

/-- A client that polls until a poll returns nothing misses nothing exactly if each event arrives before
the client has come to its key. -/
theorem misses_nothing_iff {client_id action_id : String} {steps : List (Step π)}
    (hids : ((arrivals steps).map (·.message_id)).Nodup)
    (hend : (session client_id action_id steps).answer client_id action_id = []) :
    MissesNothing client_id action_id steps ↔ ∀ event ∈ arrivals steps, ArrivesAhead client_id action_id steps event := by
  have hp : ∀ event ∈ arrivals steps, sortKey event ≤ (session client_id action_id steps).since := by
    rw [answer_eq, map_eq_nil_iff, Session.page, page_eq_nil_iff (by decide)] at hend
    exact fun event he => hend _ (mem_items hids he)
  constructor
  · rintro ⟨hc, -⟩ event he
    exact ((mem_received_iff hids).1 (hc event he)).1
  · intro ha
    refine ⟨fun event he => (mem_received_iff hids).2 ⟨ha event he, hp event he⟩, ?_⟩
    exact (received_ordered steps).1.imp fun hlt heq => hlt.ne (congrArg sortKey heq)

def stampedEvent (tstamp : Int) (message_id : String) : BenchmarkEvent Unit where
  action_id := "action-1"
  message_id := message_id
  client_id := "client-1"
  client_version := "0.1.0"
  client_username := "user"
  authenticated := false
  tstamp := tstamp
  visited := []
  type := "BAI_APP_STATUS"
  payload := ()

theorem misses_nothing_in_order :
    let steps := [.save (stampedEvent 1000 "m1"), .poll, .save (stampedEvent 2000 "m2"), .poll]
    ((arrivals steps).map (·.message_id)).Nodup ∧
      (session "client-1" "action-1" steps).answer "client-1" "action-1" = [] ∧
      MissesNothing "client-1" "action-1" steps := by
  have hids : ((arrivals [.save (stampedEvent 1000 "m1"), .poll, .save (stampedEvent 2000 "m2"), .poll]).map
      (·.message_id)).Nodup := by decide
  have hend : (session "client-1" "action-1" [.save (stampedEvent 1000 "m1"), .poll, .save (stampedEvent 2000 "m2"),
      .poll]).answer "client-1" "action-1" = [] := by decide +kernel
  refine ⟨hids, hend, (misses_nothing_iff hids hend).2 fun event he => ?_⟩
  rcases mem_cons.1 he with rfl | he
  · exact ⟨[], ⟨_, rfl⟩, by decide +kernel⟩
  · rw [mem_singleton.1 he]
    exact ⟨[.save (stampedEvent 1000 "m1"), .poll], ⟨_, rfl⟩, by decide +kernel⟩

/-- The second event was sent before the first one and is stored after the client has polled: no
poll returns it. -/
theorem late_event_missed :
    let steps := [.save (stampedEvent 2000 "m1"), .poll, .save (stampedEvent 1000 "m2"), .poll]
    (session "client-1" "action-1" steps).answer "client-1" "action-1" = [] ∧
      (session "client-1" "action-1" steps).received = [stampedEvent 2000 "m1"] ∧
      arrivals steps = [stampedEvent 2000 "m1", stampedEvent 1000 "m2"] := by
  decide +kernel

end BenchmarkAi.Bff
