import BenchmarkAi.Fetcher.Gate
import Mathlib.Data.List.Nodup
import Mathlib.Data.List.Range
import Mathlib.Data.Set.Function
/-!
# Theorems about the fetch gate

`Inv` says what holds between two steps of a run: the pending list holds the
downloads that have not completed, these have no status yet, and no call has
decided about the event. A completion therefore removes its own task, and the
last one decides from the data sets as they are then.
-/
open Lib List
namespace BenchmarkAi.Gate

def statusAt (objs : List DownloadableContent) (i : Nat) : Option FetcherStatus := objs[i]?.bind (·.status)

theorem requested_nodup (p : FetcherPayload) : (requested p).Nodup := nodup_range.filter _

variable {p : FetcherPayload} {i : Nat} {objs : List DownloadableContent} {h : Handler} {fin : Nat → FetcherStatus} {t s : St}
  {pre : List Call}

theorem requested_lt (h : i ∈ requested p) : i < (p.datasets ++ p.models).length := by
  simp only [requested, mem_filter, mem_range] at h
  exact h.1

theorem statusAt_set_self (h : i < objs.length) (c : DownloadableContent) : statusAt (objs.set i c) i = c.status := by
  simp [statusAt, h]

theorem statusAt_set_ne {j} (h : i ≠ j) (c : DownloadableContent) : statusAt (objs.set i c) j = statusAt objs j := by
  simp [statusAt, h]

/-! ## Removing a completed task -/

/-- A task whose status differs from that of every other pending task is removed
itself, whatever other contents look like. -/
theorem removePending_eq {l : List Nat} (hn : l.Nodup) (hi : i ∈ l) (hs : ∀ j ∈ l, j ≠ i → statusAt objs j ≠ statusAt objs i) :
    removePending objs i l = some (l.filter (· ≠ i)) := by
  induction l with
  | nil => cases hi
  | cons j js ih =>
    rw [nodup_cons] at hn
    by_cases hj : j = i
    · subst hj
      have hk : js.filter (· ≠ j) = js := filter_eq_self.2 fun k hk => by
        simpa using fun e : k = j => hn.1 (e ▸ hk)
      rw [removePending, if_pos rfl, filter_cons_of_neg (by simp), hk]
    · have hne : objs[j]? ≠ objs[i]? := fun e =>
        hs j mem_cons_self hj (by simp only [statusAt, e])
      have hi' : i ∈ js := (mem_cons.1 hi).resolve_left (Ne.symm hj)
      rw [removePending, if_neg hne, ih hn.2 hi' fun k hk => hs k (mem_cons_of_mem _ hk)]
      simp [hj]

/-! ## Calls that neither send the event nor abort -/

def Quiet (h : Handler) (calls : List Call) : Prop := eventsSent h calls = [] ∧ aborts calls = []

theorem quiet_append {a b} (ha : Quiet h a) (hb : Quiet h b) : Quiet h (a ++ b) := by
  simp only [Quiet, eventsSent, aborts, filterMap_append] at *
  simp [ha, hb]

theorem quiet_status {st msg} (hm : msg ≠ "Aborting execution") : Quiet h [.sendStatus st msg] := by
  simp [Quiet, eventsSent, aborts, hm]

/-- A text that does not end like `Aborting execution` is another text. -/
theorem ne_of_suffix (s : String) {t : String} (ht : t.toList.getLast? = some '.') : s ++ t ≠ "Aborting execution" := by
  intro e
  have e' := congrArg (fun u : String => u.toList.getLast?) e
  simp [getLast?_append, ht] at e'

theorem quiet_doneMessage (h : Handler) (c : DownloadableContent) : Quiet h [doneMessage c] := by
  unfold doneMessage
  split <;> apply quiet_status
  on_goal 6 =>
    intro e
    have e' := congrArg (fun u : String => u.toList.head?) e
    simp at e'
  all_goals exact ne_of_suffix _ (by decide)

/-! ## The invariant of a run -/

def Fresh (p : FetcherPayload) : Prop := ∀ i ∈ requested p, statusAt (p.datasets ++ p.models) i = none

def Completes (fin : Nat → FetcherStatus) : Label → Prop
  | .execute => True
  | .complete i _ result => result.status = fin i

structure Inv (h : Handler) (p : FetcherPayload) (fin : Nat → FetcherStatus) (s : St) : Prop where
  data : s.nData = p.datasets.length
  len : s.objs.length = (p.datasets ++ p.models).length
  asked : ∀ i ∈ s.pending, i ∈ requested p
  nodup : s.pending.Nodup
  queued : s.queue.Nodup
  split : ∀ i, i ∈ s.pending ↔ i ∈ s.queue ∨ i ∈ s.running
  apart : ∀ i ∈ s.queue, i ∉ s.running
  unset : ∀ i ∈ s.pending, statusAt s.objs i = none
  settled : ∀ i ∈ requested p, i ∉ s.pending → statusAt s.objs i = some (fin i)
  rest : ∀ i, i ∉ requested p → s.objs[i]? = (p.datasets ++ p.models)[i]?
  calls : ∃ pre, Quiet h pre ∧ s.sent = pre ++ if s.pending = [] then onAllDone h s.payload else []

theorem inv_start (hf : Fresh p) (hne : requested p ≠ []) : Inv h p fin (handleEvent h p) where
  data := rfl
  len := rfl
  asked _ hi := hi
  nodup := requested_nodup p
  queued := requested_nodup p
  split i := by simp [handleEvent]
  apart i _ := by simp [handleEvent]
  unset i hi := hf i hi
  settled i hi hn := absurd hi hn
  rest _ _ := rfl
  calls := ⟨[.sendStatus .pending "Initiating downloads..."], quiet_status (by decide), by
    simp [handleEvent, hne]⟩

theorem inv_execute (hi : Inv h p fin s) (ht : step h s .execute = some t) : Inv h p fin t := by
  cases hq : s.queue with
  | nil => simp [step, hq] at ht
  | cons i queue =>
    have hqn := hi.queued
    rw [hq, nodup_cons] at hqn
    have hip : i ∈ s.pending := (hi.split i).2 (.inl (by simp [hq]))
    have hlt : i < s.objs.length := hi.len ▸ requested_lt (hi.asked i hip)
    have hnp : s.pending ≠ [] := ne_nil_of_mem hip
    simp only [step, hq, getElem?_eq_getElem hlt, Option.bind_eq_bind, Option.bind_some, Option.some.injEq] at ht
    -- `execute` only sets the destination, so no status changes
    have hst : ∀ j, statusAt t.objs j = statusAt s.objs j := by
      intro j
      rw [← ht]
      by_cases hj : i = j
      · subst hj; rw [statusAt_set_self hlt]; simp [statusAt, hlt]
      · exact statusAt_set_ne hj _
    obtain ⟨pre, hpre, hs⟩ := hi.calls
    rw [if_neg hnp, append_nil] at hs
    subst ht
    refine ⟨hi.data, by simpa using hi.len, hi.asked, hi.nodup, hqn.2, ?_, ?_, ?_, ?_, ?_, ?_⟩
    · intro j
      rw [hi.split j, hq]
      simp only [mem_cons, mem_append, not_mem_nil, or_false]
      tauto
    · intro j hj hr
      simp only [mem_append, mem_singleton] at hr
      rcases hr with hr | rfl
      · exact hi.apart j (by simp [hq, hj]) hr
      · exact hqn.1 hj
    · intro j hj; rw [hst]; exact hi.unset j hj
    · intro j hj hn; rw [hst]; exact hi.settled j hj hn
    · intro j hj
      have hne : i ≠ j := fun e => hj (e ▸ hi.asked i hip)
      rw [getElem?_set_ne hne]
      exact hi.rest j hj
    · refine ⟨s.sent ++ [.sendStatus .pending ("Preparing " ++ s.objs[i].src ++ " for download...")], ?_, ?_⟩
      · rw [hs]
        exact quiet_append hpre (quiet_status (ne_of_suffix _ (by decide)))
      · simp [hnp]

/-- What `on_done` makes of a completed download: the other pending tasks have no
status yet, so `remove` takes this one. -/
theorem step_complete {size} {result : FetcherResult} (hi : Inv h p fin s)
    (ht : step h s (.complete i size result) = some t) :
    i ∈ s.running ∧ ∃ c, statusAt (s.objs.set i c) i = some result.status ∧ t = { s with
      objs := s.objs.set i c, running := s.running.filter (· ≠ i), pending := s.pending.filter (· ≠ i),
      sent := (s.sent ++ [doneMessage c]) ++
        if s.pending.filter (· ≠ i) = [] then onAllDone h (St.payload { s with objs := s.objs.set i c }) else [] } := by
  by_cases hrun : i ∈ s.running
  swap
  · simp [step, hrun] at ht
  have hip : i ∈ s.pending := (hi.split i).2 (.inr hrun)
  have hlt : i < s.objs.length := hi.len ▸ requested_lt (hi.asked i hip)
  let c := result.update { s.objs[i] with size_info := size }
  have hs : statusAt (s.objs.set i c) i = some result.status := by
    rw [statusAt_set_self hlt, FetcherResult.update_status]
  have hrem : removePending (s.objs.set i c) i s.pending = some (s.pending.filter (· ≠ i)) :=
    removePending_eq hi.nodup hip fun j hj hne => by
      rw [statusAt_set_ne (Ne.symm hne), hi.unset j hj, hs]
      exact Option.some_ne_none _ |>.symm
  refine ⟨hrun, c, hs, ?_⟩
  simp only [step, if_pos hrun, getElem?_eq_getElem hlt, Option.bind_eq_bind, Option.bind_some, onDone,
    getElem?_set_self hlt] at ht
  rw [hrem, Option.bind_some] at ht
  split at ht
  · rename_i he
    simp only [Option.some.injEq] at ht
    rw [if_pos he, ← ht]; rfl
  · rename_i he
    simp only [Option.some.injEq] at ht
    rw [if_neg he, append_nil, ← ht]

theorem inv_complete {size} {result : FetcherResult} (hi : Inv h p fin s) (hr : result.status = fin i)
    (ht : step h s (.complete i size result) = some t) : Inv h p fin t := by
  obtain ⟨hrun, c, hs, rfl⟩ := step_complete hi ht
  have hip : i ∈ s.pending := (hi.split i).2 (.inr hrun)
  obtain ⟨pre, hpre, hse⟩ := hi.calls
  rw [if_neg (ne_nil_of_mem hip), append_nil] at hse
  refine ⟨hi.data, by simpa using hi.len, ?_, hi.nodup.filter _, hi.queued, ?_, ?_, ?_, ?_, ?_, ?_⟩
  · intro j hj
    exact hi.asked j (mem_filter.1 hj).1
  · intro j
    simp only [mem_filter, decide_eq_true_eq, ne_eq, hi.split j]
    constructor
    · rintro ⟨hj | hj, hne⟩
      · exact .inl hj
      · exact .inr ⟨hj, hne⟩
    · rintro (hj | ⟨hj, hne⟩)
      · exact ⟨.inl hj, fun e => hi.apart j hj (e ▸ hrun)⟩
      · exact ⟨.inr hj, hne⟩
  · intro j hj hr'
    exact hi.apart j hj (mem_filter.1 hr').1
  · intro j hj
    simp only [mem_filter, decide_eq_true_eq, ne_eq] at hj
    rw [statusAt_set_ne (Ne.symm hj.2)]
    exact hi.unset j hj.1
  · intro j hj hn
    by_cases e : i = j
    · subst e; exact hs.trans (congrArg some hr)
    · rw [statusAt_set_ne e]
      exact hi.settled j hj fun hjp => hn (mem_filter.2 ⟨hjp, by simpa using Ne.symm e⟩)
  · intro j hj
    have hne : i ≠ j := fun e => hj (e ▸ hi.asked i hip)
    rw [getElem?_set_ne hne]
    exact hi.rest j hj
  · exact ⟨s.sent ++ [doneMessage c], hse ▸ quiet_append hpre (quiet_doneMessage h c), rfl⟩

theorem inv_step {a} (hi : Inv h p fin s) (ha : Completes fin a) (ht : step h s a = some t) : Inv h p fin t := by
  cases a with
  | execute => exact inv_execute hi ht
  | complete i size result => exact inv_complete hi ha ht

/-! ## The decision -/

/-- The statuses of the data sets once every requested download has completed:
the final ones of those that were requested, the stored ones of the others. -/
def datasetStatuses (p : FetcherPayload) (fin : Nat → FetcherStatus) : List (Option FetcherStatus) :=
  (range p.datasets.length).map fun i => if i ∈ requested p then some (fin i) else statusAt p.datasets i

theorem statuses_of_inv (hi : Inv h p fin s) (he : s.pending = []) : s.payload.datasets.map (·.status) = datasetStatuses p fin := by
  have hlen := hi.len
  rw [length_append] at hlen
  apply ext_getElem
  · simp [St.payload, datasetStatuses, hi.data]; omega
  · intro i h1 h2
    have hi1 : i < p.datasets.length := by simpa [datasetStatuses] using h2
    have hio : i < s.objs.length := by omega
    have hst : s.objs[i].status = statusAt s.objs i := by simp [statusAt, hio]
    simp only [St.payload, datasetStatuses, getElem_map, getElem_take, getElem_range, hst]
    split
    · rename_i hr
      exact hi.settled i hr (by simp [he])
    · rename_i hr
      simp only [statusAt, hi.rest i hr, getElem?_append_left hi1]

/-- The data sets alone tell what became of all requested downloads: either
nothing was requested, or all are done and no other data set says otherwise, or
one is canceled and a data set says so, or one failed and a data set says so
while none says canceled. -/
def DatasetsTell (p : FetcherPayload) (fin : Nat → FetcherStatus) : Prop :=
  requested p = [] ∨
  ((∀ i ∈ requested p, fin i = .done) ∧ ∀ st ∈ datasetStatuses p fin, st = none ∨ st = some .done) ∨
  ((∃ i ∈ requested p, fin i = .canceled) ∧ some .canceled ∈ datasetStatuses p fin) ∨
  ((∃ i ∈ requested p, fin i = .failed) ∧ (∀ i ∈ requested p, fin i ≠ .canceled) ∧
    some .failed ∈ datasetStatuses p fin ∧ some .canceled ∉ datasetStatuses p fin)

theorem collectStatus_eq {ds : List DownloadableContent} {D} (e : ds.map (·.status) = D) : collectStatus ds =
      if some .canceled ∈ D then .canceled else if some .failed ∈ D then .failed
      else if some .pending ∈ D then .pending else if some .running ∈ D then .running else .succeeded := by
  simp only [collectStatus, e]

theorem eventsSent_append_of_quiet (hq : Quiet h pre) (l : List Call) : eventsSent h (pre ++ l) = eventsSent h l := by
  have := hq.1
  simp only [eventsSent, filterMap_append] at *
  simp [this]

theorem aborts_append_of_quiet (hq : Quiet h pre) (l : List Call) : aborts (pre ++ l) = aborts l := by
  have := hq.2
  simp only [aborts, filterMap_append] at *
  simp [this]

theorem fetchGate_abort (st : Status) (hq : Quiet h pre) : FetchGate h p fin (pre ++ [.sendStatus st "Aborting execution"]) ↔
      (∃ i ∈ requested p, fin i ≠ .done) ∧
        st = if ∃ i ∈ requested p, fin i = .canceled then .canceled else .failed := by
  have he : eventsSent h [.sendStatus st "Aborting execution"] = [] := rfl
  have ha : aborts [.sendStatus st "Aborting execution"] = [st] := rfl
  unfold FetchGate
  rw [eventsSent_append_of_quiet hq, aborts_append_of_quiet hq, he, ha]
  by_cases hall : ∀ i ∈ requested p, fin i = .done
  · simp only [if_pos hall, length_nil, Nat.zero_ne_one, false_iff]
    rintro ⟨⟨i, hi, hne⟩, -⟩
    exact hne (hall i hi)
  · push Not at hall
    simp [hall]

theorem fetchGate_quiet (hq : Quiet h pre) : ¬ FetchGate h p fin pre := by
  unfold FetchGate
  rw [hq.1, hq.2]
  split <;> simp

theorem fetchGate_send {q} (hq : Quiet h pre) :
    FetchGate h p fin (pre ++ [.sendEvent q h.producer_topic, .sendStatus .succeeded "All downloads processed"]) ↔
      ∀ i ∈ requested p, fin i = .done := by
  have he : eventsSent h [.sendEvent q h.producer_topic, .sendStatus .succeeded "All downloads processed"] = [q] := by
    simp [eventsSent]
  unfold FetchGate
  rw [eventsSent_append_of_quiet hq, he]
  by_cases hall : ∀ i ∈ requested p, fin i = .done
  · rw [if_pos hall]; exact ⟨fun _ => hall, fun _ => rfl⟩
  · simp [hall]

theorem done_or_failed_or_canceled {st : FetcherStatus} (h : st.final = true) :
    st = .done ∨ st = .failed ∨ st = .canceled := by
  cases st <;> simp_all [FetcherStatus.final]

theorem noneOrDone_iff (D : List (Option FetcherStatus)) : (∀ st ∈ D, st = none ∨ st = some .done) ↔
    some .canceled ∉ D ∧ some .failed ∉ D ∧ some .pending ∉ D ∧ some .running ∉ D := by
  constructor
  · intro hall
    refine ⟨?_, ?_, ?_, ?_⟩ <;> intro hm <;> simpa using hall _ hm
  · rintro ⟨h1, h2, h3, h4⟩ (_ | st) hm
    · exact .inl rfl
    · cases st <;> simp_all

/-- With the event to be decided on, the contract holds exactly when the data
sets tell what became of the downloads. -/
theorem fetchGate_iff_of_pending {q : FetcherPayload} (hq : Quiet h pre) (hne : requested p ≠ [])
    (hfin : ∀ i ∈ requested p, (fin i).final = true) (hd : q.datasets.map (·.status) = datasetStatuses p fin) :
    FetchGate h p fin (pre ++ onAllDone h q) ↔ DatasetsTell p fin := by
  have hok := noneOrDone_iff (datasetStatuses p fin)
  have hc := collectStatus_eq hd
  unfold DatasetsTell
  by_cases h1 : some .canceled ∈ datasetStatuses p fin
  · have ho : onAllDone h q = [.sendStatus .canceled "Aborting execution"] := by
      rw [onAllDone, hc, if_pos h1]
    rw [ho, fetchGate_abort _ hq, hok]
    simp only [hne, h1, not_true, false_and, and_false, and_true, false_or, or_false]
    constructor
    · rintro ⟨-, he⟩
      by_contra hn
      simp [hn] at he
    · rintro ⟨i, hi, hc⟩
      exact ⟨⟨i, hi, by simp [hc]⟩, (if_pos ⟨i, hi, hc⟩).symm⟩
  by_cases h2 : some .failed ∈ datasetStatuses p fin
  · have ho : onAllDone h q = [.sendStatus .failed "Aborting execution"] := by
      rw [onAllDone, hc, if_neg h1, if_pos h2]
    rw [ho, fetchGate_abort _ hq, hok]
    simp only [hne, h1, h2, not_true, not_false_eq_true, and_true, false_and, and_false, false_or]
    constructor
    · rintro ⟨⟨i, hi, hd'⟩, he⟩
      have hn : ∀ j ∈ requested p, fin j ≠ .canceled := fun j hj hc => by
        rw [if_pos ⟨j, hj, hc⟩] at he; cases he
      exact ⟨⟨i, hi, ((done_or_failed_or_canceled (hfin i hi)).resolve_left hd').resolve_right (hn i hi)⟩, hn⟩
    · rintro ⟨⟨i, hi, hf⟩, hn⟩
      refine ⟨⟨i, hi, by simp [hf]⟩, (if_neg ?_).symm⟩
      rintro ⟨j, hj, hc⟩
      exact hn j hj hc
  by_cases h34 : some .pending ∈ datasetStatuses p fin ∨ some .running ∈ datasetStatuses p fin
  · have ho : onAllDone h q = [] := by
      rw [onAllDone, hc, if_neg h1, if_neg h2]
      by_cases h3 : some .pending ∈ datasetStatuses p fin
      · rw [if_pos h3]
      · rw [if_neg h3, if_pos (h34.resolve_left h3)]
    rw [ho, append_nil]
    simp only [fetchGate_quiet hq, hne, h1, h2, false_and, and_false, false_or, or_false, false_iff, not_and]
    tauto
  · have h3 : some .pending ∉ datasetStatuses p fin := fun h3 => h34 (.inl h3)
    have h4 : some .running ∉ datasetStatuses p fin := fun h4 => h34 (.inr h4)
    have ho : onAllDone h q = [.sendEvent q h.producer_topic, .sendStatus .succeeded "All downloads processed"] := by
      rw [onAllDone, hc, if_neg h1, if_neg h2, if_neg h3, if_neg h4]
    rw [ho, fetchGate_send hq, hok]
    simp only [hne, h1, h2, h3, h4, not_false_eq_true, and_true, and_false, false_or, or_false]

/-- Once every requested download has completed, in whatever order, the gate has
met its contract exactly when the data sets alone tell what became of all
downloads. The statuses of the models are never looked at. -/
theorem fetch_gate_iff (h : Handler) (p : FetcherPayload) (fin : Nat → FetcherStatus) (hf : Fresh p)
    (hfin : ∀ i ∈ requested p, (fin i).final = true) (as : List Label) (hc : ∀ a ∈ as, Completes fin a) (s : St)
    (hrun : exec (step h) (handleEvent h p) as = some s) (hd : AllDone s) :
    FetchGate h p fin s.sent ↔ DatasetsTell p fin := by
  by_cases hne : requested p = []
  · -- nothing to fetch: no step is enabled and the event has been sent
    have hs : s = handleEvent h p := by
      cases as with
      | nil => simpa using hrun.symm
      | cons a as =>
        obtain ⟨u, hu, -⟩ := exec_cons_some hrun
        cases a <;> simp [step, handleEvent, hne] at hu
    subst hs
    simp [FetchGate, DatasetsTell, handleEvent, hne, eventsSent]
  · have hi : Inv h p fin s :=
      exec_inv_along (Inv h p fin) (fun s a t hs ha ht => inv_step hs ha ht) (inv_start hf hne)
        (along_of_forall hc _) hrun
    have he : s.pending = [] := eq_nil_iff_forall_not_mem.2 fun i hm => by
      rcases (hi.split i).1 hm with hq | hr
      · simp [hd.1] at hq
      · simp [hd.2] at hr
    obtain ⟨pre, hpre, hse⟩ := hi.calls
    rw [hse, if_pos he]
    exact fetchGate_iff_of_pending hpre hne hfin (statuses_of_inv hi he)

def exampleHandler : Handler where
  producer_topic := "BAI_APP_FETCHER"
  s3_download_bucket := "bucket"
  md5sum _ := "3a7c011a20a8fd1604f2786b45c441b3"
  urlPath _ := "/data.zip"

def modelOnly : FetcherPayload := ⟨[], [{ src := "http://host/data.zip", path := "/models" }]⟩

def datasetsAndModel : FetcherPayload := ⟨[{ src := "http://host/data.zip", path := "/data" },
  { src := "http://host/more.zip", path := "/more" }], modelOnly.models⟩

def oneRun (st : FetcherStatus) : List Label := [.execute, .complete 0 none ⟨st, none, none⟩]

def failedSecond (i : Nat) : FetcherStatus := if i = 1 then .failed else .done

def threeRuns : List Label := [.execute, .execute, .complete 1 none ⟨.failed, none, none⟩, .execute,
  .complete 2 none ⟨.done, none, none⟩, .complete 0 none ⟨.done, none, none⟩]

theorem fetch_gate_failed_dataset :
    ∃ s, exec (step exampleHandler) (handleEvent exampleHandler datasetsAndModel) threeRuns = some s ∧
      (FetchGate exampleHandler datasetsAndModel failedSecond s.sent ↔ DatasetsTell datasetsAndModel failedSecond) :=
  ⟨_, rfl, fetch_gate_iff exampleHandler datasetsAndModel failedSecond (by unfold Fresh; decide) (by decide)
    threeRuns (by simp [threeRuns, Completes, failedSecond]) _ rfl ⟨rfl, rfl⟩⟩

/-- A failed model goes unnoticed: the event is sent. -/
theorem failed_model_passes_gate : ¬ ∀ (h : Handler) (p : FetcherPayload) (fin : Nat → FetcherStatus), Fresh p →
      (∀ i ∈ requested p, (fin i).final = true) → ∀ (as : List Label), (∀ a ∈ as, Completes fin a) → ∀ s,
      exec (step h) (handleEvent h p) as = some s → AllDone s → FetchGate h p fin s.sent := by
  intro hall
  have hg := hall exampleHandler modelOnly (fun _ => .failed) (by unfold Fresh; decide) (by decide)
    (oneRun .failed) (by simp [oneRun, Completes]) _ rfl ⟨rfl, rfl⟩
  exact absurd hg.1 (by decide)

/-! ## Destinations -/

theorem getContentDst_eq (h : Handler) (c : DownloadableContent) :
    (getContentDst h c).toList = ("s3://" ++ h.s3_download_bucket ++ "/data_sets/").toList ++ ((h.md5sum c.src).toList ++
      ((if truthy c.md5 then '/' :: (pyStr c.md5).toList else []) ++ (h.urlPath c.src).toList)) := by
  unfold getContentDst
  by_cases hmd5 : truthy c.md5 = true <;> by_cases hp : h.urlPath c.src = "" <;> simp [hmd5, hp]

/-- The texts of two checksums are equal only for equal checksums, an empty one being none. -/
theorem md5_text_inj {a b : Option String} :
    ((if truthy a then '/' :: (pyStr a).toList else []) = if truthy b then '/' :: (pyStr b).toList else []) ↔
      a.filter (· ≠ "") = b.filter (· ≠ "") := by
  have ht : ∀ md5 : Option String, (if truthy md5 then '/' :: (pyStr md5).toList else []) =
      ((md5.filter (· ≠ "")).map fun md5 => '/' :: md5.toList).getD [] := by
    rintro (_ | md5)
    · rfl
    · by_cases he : md5 = "" <;> simp [truthy, pyStr, Option.filter, he]
  rw [ht, ht]
  cases a.filter (· ≠ "") <;> cases b.filter (· ≠ "") <;> simp [String.toList_inj]

/-- Two contents have one destination exactly if their sources and checksums are
equal. No function is injective on all texts and gives 32 characters only, so
`md5sum` is asked to be so on the sources that are in use. -/
theorem getContentDst_inj_iff (h : Handler) {srcs : Set String} (hinj : srcs.InjOn h.md5sum)
    (hlen : ∀ src ∈ srcs, (h.md5sum src).length = 32) {c c' : DownloadableContent} (hc : c.src ∈ srcs) (hc' : c'.src ∈ srcs) :
    getContentDst h c = getContentDst h c' ↔ c.src = c'.src ∧ c.md5.filter (· ≠ "") = c'.md5.filter (· ≠ "") := by
  rw [← String.toList_inj, getContentDst_eq, getContentDst_eq, append_cancel_left_eq, ← md5_text_inj]
  constructor
  · intro heq
    have hl : (h.md5sum c.src).toList.length = (h.md5sum c'.src).toList.length := by
      rw [String.length_toList, String.length_toList, hlen _ hc, hlen _ hc']
    obtain ⟨hsum, hr⟩ := append_inj heq hl
    have hsrc := hinj hc hc' (String.toList_inj.1 hsum)
    rw [hsrc] at hr
    exact ⟨hsrc, append_cancel_right hr⟩
  · rintro ⟨hsrc, hmd5⟩
    rw [hsrc, hmd5]

def twoSums : Handler :=
  { exampleHandler with
    md5sum src := if src = "http://host/data.zip" then "3a7c011a20a8fd1604f2786b45c441b3" else "390c2fe19f6061e4520964a1a968cede" }

theorem getContentDst_inj_two_sources : getContentDst twoSums { src := "http://host/data.zip", path := "/a" } ≠
      getContentDst twoSums { src := "http://other/data.zip", path := "/b", md5 := some "42" } := by
  have hinj : Set.InjOn twoSums.md5sum {"http://host/data.zip", "http://other/data.zip"} := by
    rintro a (rfl | rfl) b (rfl | rfl) hsum
    · rfl
    · exact absurd hsum (by decide)
    · exact absurd hsum (by decide)
    · rfl
  have hlen : ∀ src ∈ ({"http://host/data.zip", "http://other/data.zip"} : Set String), (twoSums.md5sum src).length = 32 := by
    rintro src (rfl | rfl) <;> decide
  intro heq
  obtain ⟨hsrc, -⟩ := (getContentDst_inj_iff twoSums hinj hlen (Set.mem_insert _ _)
    (Set.mem_insert_of_mem _ (Set.mem_singleton _))).1 heq
  exact absurd hsrc (by decide)

end BenchmarkAi.Gate
