import BenchmarkAi.Watcher.WatchTheorems
import Mathlib.Data.List.Induction
/-!
# The links to the metrics

A watch sends the client up to two links to a dashboard: one when the job is first seen running,
which ends an hour later, and one when it has succeeded. The start time is a variable of the
callback that only the first of them sets. So a job that is seen to have succeeded and was never seen
running gets a link from `None`.
-/

open List

namespace BenchmarkAi.Watcher

/-! ## The text of a link -/

/-- The parts of `grafana_results_url`; the fields other than the two times are filled in. -/
inductive UrlPart
  | text (s : String)
  | start_tstamp
  | end_tstamp
deriving DecidableEq, Repr

def pyTime : Option Int → String
  | none => "None"
  | some t => toString t

def UrlPart.format (start : Option Int) (stop : Int) : UrlPart → String
  | text s => s
  | start_tstamp => pyTime start
  | end_tstamp => toString stop

def formatUrl (parts : List UrlPart) (start : Option Int) (stop : Int) : String :=
  String.join (parts.map (·.format start stop))

theorem toList_toString (n : Int) : ∀ c ∈ (toString n).toList, c.isDigit = true ∨ c = '-' := by
  intro c hc
  have hd (m : Nat) (hm : c ∈ (toString m).toList) : c.isDigit = true := by
    rw [Nat.toString_eq_repr, Nat.toList_repr] at hm
    exact Nat.isDigit_of_mem_toDigits (by decide) (by decide) hm
  cases n with
  | ofNat m => exact .inl (hd m hc)
  | negSucc m =>
    rw [show toString (Int.negSucc m) = "-" ++ toString (m + 1) from rfl, String.toList_append, mem_append] at hc
    rcases hc with hc | hc
    · exact .inr (mem_singleton.1 hc)
    · exact .inl (hd _ hc)

theorem count_format (part : UrlPart) (start : Option Int) (stop : Int) : (part.format start stop).toList.count 'N' =
      (part.format (some 0) 0).toList.count 'N' + if start = none ∧ part = .start_tstamp then 1 else 0 := by
  have hn (n : Int) : (toString n).toList.count 'N' = 0 := by
    refine count_eq_zero.2 fun hc => ?_
    rcases toList_toString n 'N' hc with h | h <;> exact absurd h (by decide)
  cases part with
  | text t => simp [UrlPart.format]
  | end_tstamp => rw [UrlPart.format, UrlPart.format, hn, hn, if_neg (by simp)]
  | start_tstamp =>
    cases start with
    | none =>
      rw [UrlPart.format, UrlPart.format, pyTime, pyTime]
      rfl
    | some t => rw [UrlPart.format, UrlPart.format, pyTime, pyTime, hn, hn, if_neg (by simp)]

/-- Of the characters of a link, only a missing start writes an `N` besides the text. -/
theorem count_formatUrl (parts : List UrlPart) (start : Option Int) (stop : Int) :
    (formatUrl parts start stop).toList.count 'N' =
      (formatUrl parts (some 0) 0).toList.count 'N' + if start = none then parts.count .start_tstamp else 0 := by
  induction parts with
  | nil => simp [formatUrl]
  | cons part parts ih =>
    have hc (start : Option Int) (stop : Int) : (formatUrl (part :: parts) start stop).toList =
        (part.format start stop).toList ++ (formatUrl parts start stop).toList := by
      rw [formatUrl, map_cons, String.join_cons, String.toList_append, formatUrl]
    rw [hc, hc, count_append, count_append, count_format, ih, count_cons]
    by_cases hs : start = none
    · simp only [hs, true_and, if_true, beq_iff_eq]
      omega
    · simp only [hs, false_and, if_false]
      omega

/-- A link that shows its start is no other one if there is none. -/
theorem formatUrl_none_ne {parts} (h : .start_tstamp ∈ parts) (stop start stop' : Int) :
    formatUrl parts none stop ≠ formatUrl parts (some start) stop' := by
  intro heq
  have hc := congrArg (fun s => s.toList.count 'N') heq
  rw [count_formatUrl parts none, count_formatUrl parts (some start), if_pos rfl, if_neg (Option.some_ne_none _)] at hc
  have hpos := count_pos_iff.2 h
  omega

/-! ## The links of a watch -/

def links (w : Watch) : List String := (w.sent.filter (·.1 = .metricsAvailable)).map Prod.snd

def watchOf (job : Job) (w : Watch) (seen : List (BenchmarkJobStatus × Int)) : Watch :=
  threadRunLoop job w (statusPolls seen)

def firstRunning (seen : List (BenchmarkJobStatus × Int)) : Option Int := (seen.find? (·.1.isRunning)).map Prod.snd

structure Watch.Fresh (w : Watch) (job : Job) : Prop where
  alive : w.Alive job
  unset : w.job_start_time = none
  no_links : links w = []

/-- A clock that does not go back, and that shows a positive number of milliseconds. -/
structure Clocked (seen : List (BenchmarkJobStatus × Int)) : Prop where
  nondecreasing : seen.Pairwise fun p q => p.2 ≤ q.2
  positive : ∀ p ∈ seen, 0 < p.2

/-- What the links of a watch should be. -/
structure LinksSound (job : Job) (w : Watch) (seen : List (BenchmarkJobStatus × Int)) : Prop where
  numeric : ∀ link ∈ links (watchOf job w seen), ∃ start stop : Int, start ≤ stop ∧
    link = metricsAvailableMessage job (some start) (some stop)
  one_open : ∀ before, before <+: seen → (∀ p ∈ before, p.1 ≠ .succeeded) → (links (watchOf job w before)).length ≤ 1
  uses_start : ∀ before now rest start, seen = before ++ (.succeeded, now) :: rest →
    (∀ p ∈ before, p.1.isFinal = false) → firstRunning before = some start →
    links (watchOf job w (before ++ [(.succeeded, now)])) =
      links (watchOf job w before) ++ [metricsAvailableMessage job (some start) (some now)]

section Links
variable {job : Job} {w : Watch} {seen : List (BenchmarkJobStatus × Int)}

theorem watchOf_append (seen seen' : List (BenchmarkJobStatus × Int)) :
    watchOf job w (seen ++ seen') = watchOf job (watchOf job w seen) seen' := by
  rw [watchOf, statusPolls, map_append]
  exact foldl_append

theorem links_append {sent msgs : List (Status × String)} :
    ((sent ++ msgs).filter (·.1 = .metricsAvailable)).map Prod.snd =
      (sent.filter (·.1 = .metricsAvailable)).map Prod.snd ++ (msgs.filter (·.1 = .metricsAvailable)).map Prod.snd := by
  rw [filter_append, map_append]

theorem links_send_other (w : Watch) {msgs} (h : ∀ m ∈ msgs, m.1 ≠ .metricsAvailable) :
    links (w.send msgs) = links w := by
  have hn : msgs.filter (·.1 = .metricsAvailable) = [] :=
    filter_eq_nil_iff.2 fun m hm => by simpa using h m hm
  rw [links, Watch.send, links_append, hn]
  exact append_nil _

theorem links_send (w : Watch) (link : String) : links (w.send [(.metricsAvailable, link)]) = links w ++ [link] := by
  rw [links, Watch.send, links_append]
  rfl

def Watch.startAt (w : Watch) (status : BenchmarkJobStatus) (now : Int) : Option Int :=
  if status.isRunning && !w.started then some now else w.job_start_time

theorem links_announceMetrics (hk : job.is_k8s_job = true) (status : BenchmarkJobStatus) (now : Int) :
    (announceMetrics job status now w).job_start_time = w.startAt status now ∧
      links (announceMetrics job status now w) = links w ++
        (if status.isRunning && !w.started then [metricsAvailableMessage job (some now) none] else []) ++
        if status = .succeeded then [metricsAvailableMessage job (w.startAt status now) (some now)] else [] := by
  unfold announceMetrics Watch.startAt
  rw [if_pos hk]
  by_cases hrun : (status.isRunning && !w.started) = true
  · have hne : status ≠ .succeeded := by
      rintro rfl
      cases hrun
    simp only [if_pos hrun, if_neg hne, append_nil]
    exact ⟨rfl, links_send { w with job_start_time := some now } _⟩
  · simp only [if_neg hrun, append_nil]
    by_cases hs : status = .succeeded
    · simp only [if_pos hs]
      exact ⟨rfl, links_send w _⟩
    · simp only [if_neg hs, append_nil, and_self]

theorem links_turn (h : w.Alive job) (hk : job.is_k8s_job = true) (status : BenchmarkJobStatus) (now : Int) :
    (watchOf job w [(status, now)]).job_start_time = w.startAt status now ∧
      links (watchOf job w [(status, now)]) = links w ++
        (if status.isRunning && !w.started then [metricsAvailableMessage job (some now) none] else []) ++
        if status = .succeeded then [metricsAvailableMessage job (w.startAt status now) (some now)] else [] := by
  have hc : ∀ m ∈ [chooseStatusFromBenchmarkStatus status], m.1 ≠ .metricsAvailable := fun m hm => by
    rw [mem_singleton.1 hm]
    exact choose_ne_metrics status
  have ha := @links_announceMetrics job (w.send [chooseStatusFromBenchmarkStatus status]) hk status now
  rw [links_send_other w hc] at ha
  have ht : watchOf job w [(status, now)] = turn job w (.ok status, now) := rfl
  obtain ⟨metrics, -, -, hw, -⟩ := announceMetrics_spec job status now (w.send [chooseStatusFromBenchmarkStatus status])
  have hin : job.job_id ∈ (announceMetrics job status now (w.send [chooseStatusFromBenchmarkStatus status])).watchers := by
    rw [hw]
    exact h.2
  rw [ht, turn, h.1]
  dsimp only [callback]
  cases hf : status.isFinal with
  | false => exact ha
  | true =>
    rw [if_pos hin]
    refine ⟨ha.1, Eq.trans ?_ ha.2⟩
    -- the farewell is no link
    exact links_send_other _ fun m hm => by
      rw [mem_singleton.1 hm]
      exact choose_ne_metrics status

theorem alive_watchOf (h : w.Alive job) (ho : ∀ p ∈ seen, p.1.isFinal = false) : (watchOf job w seen).Alive job := by
  induction seen generalizing w with
  | nil => exact h
  | cons p seen ih =>
    rw [forall_mem_cons] at ho
    obtain ⟨-, -, -, ha⟩ := turn_open h ho.1 p.2
    exact ih ha ho.2

theorem firstRunning_append (seen : List (BenchmarkJobStatus × Int)) (p : BenchmarkJobStatus × Int) :
    firstRunning (seen ++ [p]) = (firstRunning seen).or (if p.1.isRunning then some p.2 else none) := by
  rw [firstRunning, find?_append, Option.map_or, find?_singleton]
  split <;> rfl

/-- As long as the job is open: the start is the time of the first running status, and there is a link
if there was one. -/
theorem links_open (h : w.Fresh job) (hk : job.is_k8s_job = true) (ho : ∀ p ∈ seen, p.1.isFinal = false)
    (hpos : ∀ p ∈ seen, 0 < p.2) :
    (watchOf job w seen).job_start_time = firstRunning seen ∧
      links (watchOf job w seen) = (firstRunning seen).toList.map fun t => metricsAvailableMessage job (some t) none := by
  induction seen using reverseRecOn with
  | nil => exact ⟨h.unset, h.no_links⟩
  | append_singleton seen p ih =>
    rw [forall_mem_append, forall_mem_singleton] at ho hpos
    obtain ⟨hs, hl⟩ := ih ho.1 hpos.1
    obtain ⟨hs', hl'⟩ := links_turn (alive_watchOf h.alive ho.1) hk p.1 p.2
    have hne : p.1 ≠ .succeeded := by
      intro heq
      have hf := ho.2
      rw [heq] at hf
      cases hf
    rw [watchOf_append, firstRunning_append]
    rw [hl, if_neg hne] at hl'
    rw [Watch.startAt, Watch.started, hs] at hs'
    rw [Watch.started, hs] at hl'
    cases hfi : firstRunning seen with
    | some t =>
      -- the first one was at a positive time, so it counts as set
      have ht : 0 < t := by
        obtain ⟨q, hq, rfl⟩ := Option.map_eq_some_iff.1 hfi
        exact hpos.1 q (mem_of_find?_eq_some hq)
      have hst : ((some t).any fun s => decide (s ≠ 0)) = true := decide_eq_true (by omega)
      rw [hfi, hst, Bool.not_true, Bool.and_false] at hs' hl'
      exact ⟨hs', hl'.trans (append_nil _)⟩
    | none =>
      rw [hfi, Option.any_none, Bool.not_false, Bool.and_true] at hs' hl'
      refine ⟨hs', hl'.trans ?_⟩
      cases p.1.isRunning <;> rfl

theorem exists_final (seen : List (BenchmarkJobStatus × Int)) : (∀ p ∈ seen, p.1.isFinal = false) ∨
    ∃ before p rest, seen = before ++ p :: rest ∧ (∀ q ∈ before, q.1.isFinal = false) ∧ p.1.isFinal = true := by
  induction seen with
  | nil => exact .inl nofun
  | cons p seen ih =>
    cases hp : p.1.isFinal with
    | true => exact .inr ⟨[], p, seen, rfl, nofun, hp⟩
    | false =>
      rcases ih with hall | ⟨before, q, rest, rfl, hb, hq⟩
      · exact .inl (forall_mem_cons.2 ⟨hp, hall⟩)
      · exact .inr ⟨p :: before, q, rest, rfl, forall_mem_cons.2 ⟨hp, hb⟩, hq⟩

theorem watchOf_final (h : w.Alive job) {before rest} {p : BenchmarkJobStatus × Int}
    (ho : ∀ q ∈ before, q.1.isFinal = false) (hp : p.1.isFinal = true) :
    watchOf job w (before ++ p :: rest) = watchOf job (watchOf job w before) [p] := by
  obtain ⟨-, -, -, he⟩ := turn_final (alive_watchOf h ho) hp p.2
  rw [← singleton_append, watchOf_append, watchOf_append]
  exact threadRunLoop_ended (by rw [show watchOf job (watchOf job w before) [p] = _ from rfl]; exact he ▸ rfl) _

theorem links_final (h : w.Fresh job) (hk : job.is_k8s_job = true) {before rest}
    {p : BenchmarkJobStatus × Int} (ho : ∀ q ∈ before, q.1.isFinal = false) (hpos : ∀ q ∈ before, 0 < q.2)
    (hp : p.1.isFinal = true) :
    links (watchOf job w (before ++ p :: rest)) = links (watchOf job w before) ++
      if p.1 = .succeeded then [metricsAvailableMessage job (firstRunning before) (some p.2)] else [] := by
  have hr : p.1.isRunning = false := by
    obtain ⟨status, now⟩ := p
    cases status <;> first | rfl | cases hp
  obtain ⟨-, hl⟩ := links_turn (alive_watchOf h.alive ho) hk p.1 p.2
  rw [watchOf_final h.alive ho hp, hl, Watch.startAt, hr, Bool.false_and, if_neg Bool.false_ne_true,
    if_neg Bool.false_ne_true, append_nil, (links_open h hk ho hpos).1]

theorem message_open (job : Job) (t : Int) : metricsAvailableMessage job (some t) none =
    metricsAvailableMessage job (some t) (some (t + 60 * 60 * 1000)) := rfl

theorem resultsUrl_of_message {start start' stop stop'}
    (h : metricsAvailableMessage job start (some stop) = metricsAvailableMessage job start' (some stop')) :
    job.resultsUrl start stop = job.resultsUrl start' stop' := by
  unfold metricsAvailableMessage at h
  generalize "Metrics available for job " ++ job.action_id ++ " at " = opening at h
  exact (String.append_right_inj opening).1 h

theorem length_links_open (h : w.Fresh job) (hk : job.is_k8s_job = true) (ho : ∀ p ∈ seen, p.1.isFinal = false)
    (hpos : ∀ p ∈ seen, 0 < p.2) : (links (watchOf job w seen)).length ≤ 1 := by
  rw [(links_open h hk ho hpos).2]
  cases firstRunning seen <;> simp

/-- The links of a watch are as they should be exactly if the job was seen running before it was seen
to have succeeded. -/
theorem links_sound_iff {parts : List UrlPart} (hurl : job.resultsUrl = formatUrl parts) (hshow : .start_tstamp ∈ parts)
    (hk : job.is_k8s_job = true) (h : w.Fresh job) (hclock : Clocked seen) :
    LinksSound job w seen ↔ ∀ before now rest, seen = before ++ (.succeeded, now) :: rest →
      (∀ p ∈ before, p.1.isFinal = false) → ∃ p ∈ before, p.1.isRunning = true := by
  constructor
  · rintro hso before now rest rfl hop
    have hpos : ∀ p ∈ before, 0 < p.2 := fun p hp => hclock.positive p (mem_append_left _ hp)
    cases hf : firstRunning before with
    | some t =>
      obtain ⟨p, hp, -⟩ := Option.map_eq_some_iff.1 hf
      have hrun := find?_some hp
      exact ⟨p, mem_of_find?_eq_some hp, hrun⟩
    | none =>
      -- the last link has no start
      have hl := @links_final job w h hk before rest (.succeeded, now) hop hpos rfl
      rw [hf] at hl
      obtain ⟨start, stop, -, heq⟩ := hso.numeric (metricsAvailableMessage job none (some now))
        (hl ▸ mem_append_right _ (mem_singleton_self _))
      have hu := resultsUrl_of_message heq
      rw [hurl] at hu
      exact absurd hu (formatUrl_none_ne hshow _ _ _)
  · intro hru
    have hf (before : List (BenchmarkJobStatus × Int)) (hr : ∃ p ∈ before, p.1.isRunning = true) :
        ∃ p ∈ before, firstRunning before = some p.2 := by
      obtain ⟨p, hp⟩ := Option.isSome_iff_exists.1 (find?_isSome.2 hr)
      exact ⟨p, mem_of_find?_eq_some hp, by rw [firstRunning, hp]; rfl⟩
    have ho (before : List (BenchmarkJobStatus × Int)) (hop : ∀ p ∈ before, p.1.isFinal = false)
        (hpos : ∀ p ∈ before, 0 < p.2) : ∀ link ∈ links (watchOf job w before), ∃ start stop : Int, start ≤ stop ∧
          link = metricsAvailableMessage job (some start) (some stop) := by
      intro link hli
      rw [(links_open h hk hop hpos).2, mem_map] at hli
      obtain ⟨t, -, rfl⟩ := hli
      exact ⟨t, t + 60 * 60 * 1000, by omega, message_open job t⟩
    refine ⟨?_, ?_, ?_⟩
    · rcases exists_final seen with hop | ⟨before, p, rest, rfl, hop, hp⟩
      · exact ho seen hop hclock.positive
      · have hpos : ∀ q ∈ before, 0 < q.2 := fun q hq => hclock.positive q (mem_append_left _ hq)
        intro link hli
        rw [links_final h hk hop hpos hp, mem_append] at hli
        rcases hli with hli | hli
        · exact ho before hop hpos link hli
        · split at hli
          · rename_i hs
            obtain ⟨q, hq, hst⟩ := hf before (hru before p.2 rest (by rw [← hs]) hop)
            rw [hst, mem_singleton] at hli
            exact ⟨q.2, p.2, (pairwise_append.1 hclock.nondecreasing).2.2 q hq p mem_cons_self, hli⟩
          · cases hli
    · rintro before ⟨rest, rfl⟩ hno
      have hpos : ∀ q ∈ before, 0 < q.2 := fun q hq => hclock.positive q (mem_append_left _ hq)
      rcases exists_final before with hop | ⟨start, p, after, rfl, hop, hp⟩
      · exact length_links_open h hk hop hpos
      · have hst : ∀ q ∈ start, 0 < q.2 := fun q hq => hpos q (mem_append_left _ hq)
        rw [links_final h hk hop hst hp, if_neg (hno p (mem_append_right _ mem_cons_self)), append_nil]
        exact length_links_open h hk hop hst
    · rintro before now rest start rfl hop hst
      have hpos : ∀ q ∈ before, 0 < q.2 := fun q hq => hclock.positive q (mem_append_left _ hq)
      rw [links_final h hk hop hpos rfl, if_pos rfl, hst]

end Links

def grafanaUrl : List UrlPart :=
  [.text "http://grafana/d/uid/?orgId=1&from=", .start_tstamp, .text "&to=", .end_tstamp,
    .text "&var-datasource=Prometheus&var-cluster=&var-namespace=default&var-client_id=client&var-action_id=action"]

def grafanaJob : Job := { job_id := "job", action_id := "action", resultsUrl := formatUrl grafanaUrl }

def freshWatch : Watch := { watchers := ["job"], sent := [(.pending, "Watching Kubernetes benchmark")] }

theorem fresh_freshWatch : freshWatch.Fresh grafanaJob := ⟨⟨rfl, mem_singleton_self _⟩, rfl, rfl⟩

theorem links_sound_running : LinksSound grafanaJob freshWatch [(.running_at_main_containers, 1000), (.succeeded, 5000)] := by
  refine (links_sound_iff rfl (by decide) rfl fresh_freshWatch ⟨by decide, by decide⟩).2 ?_
  intro before now rest heq ho
  cases before with
  | nil => cases heq
  | cons p before =>
    obtain ⟨rfl, -⟩ := cons.inj heq
    exact ⟨_, mem_cons_self, rfl⟩

/-- A job that is only seen when it has succeeded. -/
theorem link_from_none : links (watchOf grafanaJob freshWatch [(.succeeded, 5000)]) =
    ["Metrics available for job action at http://grafana/d/uid/?orgId=1&from=None&to=5000&var-datasource=Prometheus" ++
      "&var-cluster=&var-namespace=default&var-client_id=client&var-action_id=action"] := by
  decide +kernel

end BenchmarkAi.Watcher
