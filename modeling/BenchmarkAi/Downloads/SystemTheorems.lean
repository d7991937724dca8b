import BenchmarkAi.Downloads.System
import Mathlib.Data.List.Induction
/-!
# What holds of all downloads together

Each fetch of the system runs as a single download does (`component_run`), so what
was proved of one download holds of each. The write locks are tickets served in
order (`locks_reachable`), so one fetch of a source holds its lock at a time.

What `cancel` reaches depends on how far each fetch is when it returns: it stops
the jobs and marks the nodes that are there, and leaves nothing behind for a
fetch that has not got so far.
-/
open Lib Lib.Znode List

namespace BenchmarkAi.Downloads

variable {s t : Sys} {a : SysLabel}

variable {j i : Nat} {g g' f : Fetch} {as : List SysLabel}

theorem step_old (h : SysMoves s a t) (hg : s.fetches[j]? = some g) : ∃ g', t.fetches[j]? = some g' ∧ Took s a j g g' := by
  have hlt : j < s.fetches.length := (List.getElem?_eq_some_iff.1 hg).1
  rcases took_of_step h with ⟨cl, ac, nm, c, -, he⟩ | ⟨hlen, ht⟩
  · refine ⟨g, ?_, took_refl s a j g⟩
    rw [he, getElem?_append_left hlt, hg]
  · obtain ⟨g', hg'⟩ : ∃ g', t.fetches[j]? = some g' := ⟨_, getElem?_eq_getElem (hlen ▸ hlt)⟩
    exact ⟨g', hg', ht j g g' hg hg'⟩

theorem step_new (h : SysMoves s a t) (hg' : t.fetches[j]? = some g') :
    (∃ g, s.fetches[j]? = some g ∧ Took s a j g g') ∨
    (j = s.fetches.length ∧ ∃ cl ac nm c, a = .request cl ac nm c ∧ g' = s.newFetch cl ac nm c) := by
  have hlt : j < t.fetches.length := (List.getElem?_eq_some_iff.1 hg').1
  rcases took_of_step h with ⟨cl, ac, nm, c, ha, he⟩ | ⟨hlen, ht⟩
  · rw [he] at hg'
    by_cases hj : j < s.fetches.length
    · rw [getElem?_append_left hj] at hg'
      exact .inl ⟨g', hg', took_refl s a j g'⟩
    · have hj : j = s.fetches.length := by
        rw [he, length_append, length_singleton] at hlt
        omega
      subst hj
      rw [getElem?_concat_length, Option.some.injEq] at hg'
      exact .inr ⟨rfl, cl, ac, nm, c, ha, hg'.symm⟩
  · obtain ⟨g, hg⟩ : ∃ g, s.fetches[j]? = some g := ⟨_, getElem?_eq_getElem (hlen ▸ hlt)⟩
    exact .inl ⟨g, hg, ht j g g' hg hg'⟩

theorem Took.nodePath (h : Took s a j g g') : g'.nodePath = g.nodePath := by
  unfold Fetch.nodePath
  rw [h.client, h.action, h.name]

theorem samePath_iff : f.samePath g = true ↔ f.nodePath = g.nodePath := decide_eq_true_iff

theorem Took.samePath (h : Took s a j g g') (f : Fetch) : f.samePath g' = f.samePath g := by
  unfold Fetch.samePath
  rw [h.nodePath]

theorem Took.samePath_left (h : Took s a j g g') (f : Fetch) : g'.samePath f = g.samePath f := by
  unfold Fetch.samePath
  rw [h.nodePath]

theorem Took.inAction (h : Took s a j g g') (client_id action_id : String) :
    g'.inAction client_id action_id = g.inAction client_id action_id := by
  unfold Fetch.inAction
  rw [h.client, h.action]

/-! ## Each fetch is a download -/

def Sys.Shares (s : Sys) (i : Nat) (f : Fetch) : Prop :=
  ∃ j g, j ≠ i ∧ s.fetches[j]? = some g ∧ g.samePath f = true

theorem shares_step {f'} (h : SysMoves s a t) (hf : Took s a i f f') (hs : s.Shares i f) : t.Shares i f' := by
  obtain ⟨j, g, hj, hg, hp⟩ := hs
  obtain ⟨g', hg', ht⟩ := step_old h hg
  refine ⟨j, g', hj, hg', ?_⟩
  rw [hf.samePath, ht.samePath_left]
  exact hp

structure ComponentRun (s : Sys) (as : List SysLabel) (i : Nat) (f : Fetch) (c : DownloadableContent)
    (ls : List Label) : Prop where
  run : exec step (start c) ls = some f.st
  own : ∀ l ∈ ls, l.own = true → .fetch i l ∈ as
  exclusive : ∀ l ∈ ls, l.exclusive = false → s.Shares i f

variable {cl ac nm : String} {c : DownloadableContent} {l : Label}

theorem componentRun_new (as : List SysLabel) (h : SysMoves s (.request cl ac nm c) t) :
    ∃ ls, ComponentRun t as s.fetches.length (s.newFetch cl ac nm c) c ls := by
  have ht : t.fetches = s.fetches ++ [s.newFetch cl ac nm c] := by
    cases h with
    | request => rfl
  unfold Sys.newFetch at ht ⊢
  simp only at ht ⊢
  cases hd : (s.fetches.find? (Fetch.samePath ⟨cl, ac, nm, start c⟩)).bind (·.st.cell.data) with
  | none => exact ⟨[], rfl, fun l hl => (by cases hl), fun l hl => (by cases hl)⟩
  | some d =>
    obtain ⟨g, hg, -⟩ := Option.bind_eq_some_iff.1 hd
    refine ⟨[.outside (some d)], rfl, fun l hl ho => ?_, fun _ _ _ => ?_⟩
    · rw [mem_singleton.1 hl] at ho; cases ho
    · obtain ⟨j, hj⟩ := mem_iff_getElem?.1 (mem_of_find?_eq_some hg)
      have hlt : j < s.fetches.length := (List.getElem?_eq_some_iff.1 hj).1
      refine ⟨j, g, Nat.ne_of_lt hlt, ?_, ?_⟩
      · rw [ht, getElem?_append_left hlt, hj]
      · have hp := find?_some hg
        exact samePath_iff.2 (samePath_iff.1 hp).symm

/-- Each fetch has run as a single download does; other users of its node path, if
there are any, are other fetches of the system. -/
theorem component_run (h : exec sysStep .init as = some s) (hf : s.fetches[i]? = some f) : ∃ c ls, ComponentRun s as i f c ls := by
  induction as using reverseRecOn generalizing s f with
  | nil =>
    simp only [exec_nil, Option.some.injEq] at h
    subst h
    cases hf
  | append_singleton as a ih =>
    obtain ⟨u, hu, ha⟩ := exec_concat_some h
    have ha := sysMoves_of_step ha
    rcases step_new ha hf with ⟨g, hg, ht⟩ | ⟨rfl, cl, ac, nm, c, rfl, rfl⟩
    · obtain ⟨c, ls, hrun, hown, hex⟩ := ih hu hg
      have hk : ∀ l ∈ ls, (l.own = true → .fetch i l ∈ as ++ [a]) ∧ (l.exclusive = false → s.Shares i f) :=
        fun l hl => ⟨fun ho => mem_append_left _ (hown l hl ho), fun he => shares_step ha ht (hex l hl he)⟩
      rcases ht.moved with hst | ⟨l, hst, hlo, hlex⟩
      · exact ⟨c, ls, by rw [hst]; exact hrun, fun l hl => (hk l hl).1, fun l hl => (hk l hl).2⟩
      · refine ⟨c, ls ++ [l], exec_concat hrun hst, fun l' hl' => ?_, fun l' hl' => ?_⟩
        · rcases mem_append.1 hl' with hl' | hl'
          · exact (hk l' hl').1
          · rw [mem_singleton.1 hl']
            intro ho
            exact mem_append_right _ (mem_singleton.2 (hlo ho).1.symm)
        · rcases mem_append.1 hl' with hl' | hl'
          · exact (hk l' hl').2
          · rw [mem_singleton.1 hl']
            intro he
            obtain ⟨j, f', hj, hf', hp⟩ := hlex he
            exact shares_step ha ht ⟨j, f', hj, hf', hp⟩
    · obtain ⟨ls, hls⟩ := componentRun_new (as ++ [.request cl ac nm c]) ha
      exact ⟨c, ls, hls⟩

/-- In the system too, a fetch that shares its node path with no other completes
exactly once. -/
theorem system_completes_once (h : exec sysStep .init as = some s) (hc : ∀ i l, .fetch i l ∈ as → l.calm = true)
    (hf : s.fetches[i]? = some f) (hs : ¬ s.Shares i f) :
    f.st.done.length ≤ 1 ∧
    (Quiescent f.st → (∃ p ∈ f.st.replaced, p.2.final = true) →
      f.st.done.length = 1 ∧ f.st.cell.data = none ∧ f.st.held = false) := by
  obtain ⟨c, ls, hrun, hown, hex⟩ := component_run h hf
  have hls : ∀ l ∈ ls, l.calm = true ∧ l.exclusive = true := fun l hl => by
    have he : l.exclusive = true := by
      by_contra hn
      exact hs (hex l hl (by simpa using hn))
    refine ⟨?_, he⟩
    by_cases ho : l.own = true
    · exact hc i l (hown l hl ho)
    · cases l <;> first | rfl | exact absurd rfl ho
  exact (exec_inv_download hrun hls).completes

/-! ## One holder of a lock -/

def St.phase (s : St) : Tickets.Phase :=
  if s.sect = .waiting then .waiting else if s.held then .holding else .gone

theorem update_src (r : FetcherResult) (c : DownloadableContent) : (r.update c).src = c.src := by
  unfold FetcherResult.update
  split <;> rfl

theorem handles_src {s s' : Shared} {ok x n} (hm : Handles s ok x s' n) :
    s'.content.src = s.content.src ∧ (s'.held = s.held ∨ (s.held = true ∧ s'.held = false)) := by
  cases hm with
  | final => exact ⟨update_src _ _, .inl rfl⟩
  | release h => exact ⟨rfl, .inr ⟨h, rfl⟩⟩
  | get | notFinal | delete | report | reportRaises | cleanup | raises | missing | notHeld => exact ⟨rfl, .inl rfl⟩

/-- A download keeps its source. Its lock is granted by `lock`, and once released
stays so. -/
theorem moves_phase {s t : St} (hm : Moves s l t) : t.content.src = s.content.src ∧
    (t.phase = s.phase ∨ (l = .lock ∧ s.phase = .waiting ∧ t.phase = .holding) ∨
      (s.phase = .holding ∧ t.phase = .gone ∧ l.own = true)) := by
  cases hm with
  | lock h => exact ⟨rfl, .inr (.inl ⟨rfl, by simp [St.phase, h], by simp [St.phase]⟩)⟩
  | estimate h | estimateAgain h | estimateAgainRaises h | create h | createRaises h =>
    exact ⟨rfl, .inl (by simp [St.phase, h])⟩
  | estimateRaises h => exact ⟨update_src _ _, .inl (by simp [St.phase, h])⟩
  | @failReport ok h => exact ⟨rfl, .inl (by cases ok <;> simp [St.phase, h])⟩
  | @failRelease ok h =>
    refine ⟨rfl, ?_⟩
    cases ok
    · exact .inl (by simp [St.phase, h])
    · cases hl : s.held
      · exact .inl (by simp [St.phase, h, hl])
      · exact .inr (.inr ⟨by simp [St.phase, h, hl], by simp [St.phase], rfl⟩)
  | @handle ok x sh n hh hs =>
    obtain ⟨hsrc, hhe⟩ := handles_src hs
    refine ⟨hsrc, ?_⟩
    have hn : n.resume ≠ .waiting := by cases n <;> simp [Next.resume]
    rcases hhe with e | ⟨e, e'⟩
    · exact .inl (by simp [St.phase, hh, hn, e])
    · exact .inr (.inr ⟨by simp [St.phase, hh, e], by simp [St.phase, hn, e'], rfl⟩)
  | @dispatch ok h => exact ⟨rfl, .inl (by cases ok <;> simp [St.phase, h])⟩
  | @thread ok x sh n hx hs =>
    obtain ⟨hsrc, hhe⟩ := handles_src hs
    refine ⟨hsrc, ?_⟩
    rcases hhe with e | ⟨e, e'⟩
    · exact .inl (by simp [St.phase, e])
    · by_cases hw : s.sect = .waiting
      · exact .inl (by simp [St.phase, hw])
      · exact .inr (.inr ⟨by simp [St.phase, hw, e], by simp [St.phase, hw, e'], rfl⟩)
  | deliver | jobWrite | cancel | outside => exact ⟨rfl, .inl rfl⟩
  | cancelStep h hs =>
    cases hs with
    | missing | final | read | stale | write => exact ⟨rfl, .inl rfl⟩

def Fetch.ticket (f : Fetch) : String × Tickets.Phase := (f.src, f.st.phase)

/-- The locks of the system, as tickets: the sources are what they conflict about. -/
def lockTickets (s : Sys) : Tickets.State String := fun i => s.fetches[i]?.map Fetch.ticket

theorem served_iff {src} (h : s.served i src = true) : Tickets.Served (· = ·) (lockTickets s) i src := by
  intro j hlt src' ph hj hsrc
  obtain ⟨g, hg, he⟩ := Option.map_eq_some_iff.1 hj
  cases he
  have hm : g ∈ s.fetches.take i := by
    refine mem_iff_getElem?.2 ⟨j, ?_⟩
    rw [getElem?_take_of_lt hlt, hg]
  have hall := all_eq_true.1 h g hm
  simp only [hsrc, ne_eq, not_true_eq_false, decide_false, Bool.false_or, Bool.and_eq_true, decide_eq_true_eq,
    Bool.not_eq_true'] at hall
  simp [St.phase, hall.1, hall.2]

theorem newFetch_ticket (s : Sys) (cl ac nm : String) (c : DownloadableContent) :
    (s.newFetch cl ac nm c).ticket = (c.src, .waiting) := by
  unfold Sys.newFetch
  simp only
  split <;> simp [Fetch.ticket, Fetch.src, St.phase, start]

theorem Took.ticket (h : Took s a j g g') : g'.ticket = g.ticket ∨ ((∃ l, a = .fetch j l) ∧ g'.src = g.src ∧
      ((s.served j g.src = true ∧ g.st.phase = .waiting ∧ g'.st.phase = .holding) ∨
        (g.st.phase = .holding ∧ g'.st.phase = .gone))) := by
  rcases h.moved with hst | ⟨l, hst, hown, -⟩
  · exact .inl (by simp [Fetch.ticket, Fetch.src, hst])
  · obtain ⟨hsrc, hph⟩ := moves_phase (moves_of_step hst)
    rcases hph with hph | ⟨rfl, h1, h2⟩ | ⟨h1, h2, ho⟩
    · exact .inl (by simp [Fetch.ticket, Fetch.src, hsrc, hph])
    · obtain ⟨ha, hal⟩ := hown rfl
      exact .inr ⟨⟨_, ha⟩, hsrc, .inl ⟨hal, h1, h2⟩⟩
    · exact .inr ⟨⟨_, (hown ho).1⟩, hsrc, .inr ⟨h1, h2⟩⟩

theorem lockTickets_request (ht : t.fetches = s.fetches ++ [s.newFetch cl ac nm c]) :
    lockTickets t = Function.update (lockTickets s) s.fetches.length (some (c.src, .waiting)) := by
  funext j
  by_cases hj : j = s.fetches.length
  · subst hj
    simp [lockTickets, ht, newFetch_ticket]
  · rw [Function.update_of_ne hj]
    rcases Nat.lt_or_gt_of_ne hj with hj | hj
    · simp only [lockTickets, ht, getElem?_append_left hj]
    · simp only [lockTickets, ht]
      rw [getElem?_eq_none (by simp; omega), getElem?_eq_none (by omega)]

theorem lockTickets_same (h : SysMoves s a t) (hlen : t.fetches.length = s.fetches.length)
    (hj : ∀ g g', s.fetches[j]? = some g → t.fetches[j]? = some g' → Took s a j g g' → g'.ticket = g.ticket) :
    lockTickets t j = lockTickets s j := by
  cases hg : s.fetches[j]? with
  | none =>
    have hout := List.getElem?_eq_none_iff.1 hg
    simp only [lockTickets]
    rw [hg, getElem?_eq_none (hlen ▸ hout)]
  | some g =>
    obtain ⟨g', hg', ht⟩ := step_old h hg
    simp only [lockTickets, hg, hg', Option.map_some, hj g g' hg hg' ht]

theorem lockTickets_step (h : SysMoves s a t) :
    lockTickets t = lockTickets s ∨ Tickets.Step (· = ·) (lockTickets s) (lockTickets t) := by
  rcases took_of_step h with ⟨cl, ac, nm, c, -, ht⟩ | ⟨hlen, -⟩
  · rw [lockTickets_request ht]
    refine .inr (.arrive _ _ fun r hr => ?_)
    simp [lockTickets, getElem?_eq_none hr]
  · by_cases hall : ∀ (j : Nat) (g g' : Fetch), s.fetches[j]? = some g → t.fetches[j]? = some g' → g'.ticket = g.ticket
    · exact .inl (funext fun j => lockTickets_same h hlen fun g g' hg hg' _ => hall j g g' hg hg')
    · push Not at hall
      obtain ⟨i, f, f', hf, hf', hne⟩ := hall
      obtain ⟨f'', hf'', hto⟩ := step_old h hf
      obtain rfl : f'' = f' := Option.some.inj (hf''.symm.trans hf')
      obtain ⟨⟨l, ha⟩, hsrc, hm⟩ := hto.ticket.resolve_left hne
      have he : lockTickets t = Function.update (lockTickets s) i (some f''.ticket) := by
        funext j
        by_cases hj : j = i
        · subst hj
          simp [lockTickets, hf'']
        · rw [Function.update_of_ne hj]
          refine lockTickets_same h hlen fun g g' _ _ hto => ?_
          -- the step was one of `i`
          rcases hto.ticket with e | ⟨⟨l', e⟩, -⟩
          · exact e
          · rw [ha] at e
            cases e
            exact absurd rfl hj
      rw [he]
      have hs : lockTickets s i = some (f.src, f.st.phase) := by simp [lockTickets, hf, Fetch.ticket]
      unfold Fetch.ticket
      rw [hsrc]
      rcases hm with ⟨hse, h1, h2⟩ | ⟨h1, h2⟩
      · rw [h2]
        rw [h1] at hs
        exact .inr (.grant i _ hs (served_iff hse))
      · rw [h2]
        rw [h1] at hs
        exact .inr (.leave i _ hs)

/-- The locks of the system are tickets served in order, as those of the lock protocol are. -/
theorem locks_reachable (h : exec sysStep .init as = some s) : Tickets.Reachable (· = ·) (lockTickets s) :=
  exec_refines lockTickets (Tickets.Step (· = ·)) (fun _ => True) (fun _ _ _ _ _ => trivial)
    (fun _ _ _ _ ht => lockTickets_step (sysMoves_of_step ht)) trivial h

/-- One fetch of a source holds its lock at a time. -/
theorem one_holder (h : exec sysStep .init as = some s) (hf : s.fetches[i]? = some f) (hg : s.fetches[j]? = some g)
    (hfl : f.st.phase = .holding) (hgl : g.st.phase = .holding) (hsrc : f.src = g.src) : i = j := by
  have h1 : lockTickets s i = some (f.src, .holding) := by simp [lockTickets, hf, Fetch.ticket, hfl]
  have h2 : lockTickets s j = some (g.src, .holding) := by simp [lockTickets, hg, Fetch.ticket, hgl]
  exact Tickets.reachable_exclusive (fun _ _ => Eq.symm) (locks_reachable h) h1 h2 hsrc

/-! ## What a cancel reaches -/

/-- If the step is a call of `cancel`, no fetch of the action is short of its dispatch call. -/
def Sys.cancelsLast (s : Sys) : SysLabel → Bool
  | .cancel client_id action_id => s.fetches.all fun f => !f.inAction client_id action_id || !f.st.sect.undispatched
  | _ => true

/-- Once past the dispatch call, a section does not come back to it. -/
theorem moves_past {s t : St} (hm : Moves s l t) (h : s.sect.undispatched = false) : t.sect.undispatched = false := by
  cases hm with
  | lock hs | estimate hs | estimateRaises hs | estimateAgain hs | estimateAgainRaises hs | create hs | createRaises hs
  | handle hs | dispatch hs => rw [hs] at h; cases h
  | @failReport ok hs => cases ok <;> rfl
  | @failRelease ok hs => cases ok <;> rfl
  | deliver | thread | jobWrite | cancel | cancelStep | outside => exact h

theorem Took.past (h : Took s a j g g') (hg : g.st.sect.undispatched = false) : g'.st.sect.undispatched = false := by
  rcases h.moved with e | ⟨l, hst, -⟩
  · rw [e]; exact hg
  · exact moves_past (moves_of_step hst) hg

/-- The fetches that the call is about are past their dispatch calls. -/
structure Covered (s : Sys) (c : Cancel) : Prop where
  before : c.before ≤ s.fetches.length
  past : ∀ i f, i < c.before → s.fetches[i]? = some f → f.inAction c.client_id c.action_id = true →
    f.st.sect.undispatched = false

theorem Covered.step {c} (hc : Covered s c) (h : SysMoves s a t) : Covered t c := by
  refine ⟨?_, fun i f hi hf hact => ?_⟩
  · rcases took_of_step h with ⟨cl, ac, nm, c, -, he⟩ | ⟨hlen, -⟩
    · rw [he, length_append]
      exact Nat.le_add_right_of_le hc.before
    · rw [hlen]
      exact hc.before
  · rcases step_new h hf with ⟨g, hg, ht⟩ | ⟨rfl, -⟩
    · rw [ht.inAction] at hact
      exact ht.past (hc.past i g hi hg hact)
    · exact absurd hi (Nat.not_lt.2 hc.before)

/-- A call goes on as the same call, and begins with those fetches before it that there are. -/
theorem cancel_of_step (h : SysMoves s a t) : t.cancel = s.cancel ∨
    (∃ c pc n, s.cancel = some c ∧ t.cancel = some { c with pc := pc, number_of_nodes_updated := n }) ∨
    ∃ cl ac, a = .cancel cl ac ∧ s.cancel = none ∧ t = { s with cancel := some ⟨cl, ac, s.fetches.length, .cancelAll, 0⟩ } := by
  cases h with
  | request | fetch => exact .inl rfl
  | cancel hn => exact .inr (.inr ⟨_, _, rfl, hn, rfl⟩)
  | cancelAll hc | getChildren hc | returns hc | skips hc | visits hc | counts hc | updates hc =>
    exact .inr (.inl ⟨_, _, _, hc, rfl⟩)

theorem late_of_step (h : SysMoves s a t) : t.late = s.late ∨
    ∃ i f, s.fetches[i]? = some f ∧ f.st.sect = .dispatch ∧ s.canceled i f = true := by
  cases h with
  | @fetch i f l st hf hal hst =>
    by_cases hd : (dispatches f l && s.canceled i f) = true
    · obtain ⟨hd, hcan⟩ := Bool.and_eq_true_iff.1 hd
      refine .inr ⟨i, f, hf, ?_, hcan⟩
      cases l <;> simp [dispatches] at hd
      exact hd
    · exact .inl (if_neg hd)
  | _ => exact .inl rfl

def Reached (s : Sys) : Prop := s.late = [] ∧ ∀ c, s.cancel = some c → Covered s c

theorem reached_step (hr : Reached s) (ha : s.cancelsLast a = true) (h : SysMoves s a t) : Reached t := by
  refine ⟨?_, fun c hc => ?_⟩
  · rcases late_of_step h with hl | ⟨i, f, hf, hs, hcan⟩
    · exact hl.trans hr.1
    · obtain ⟨c, hc, hcan⟩ := (Option.any_eq_true _ _).1 hcan
      simp only [Bool.and_eq_true, decide_eq_true_eq] at hcan
      have hp := (hr.2 c hc).past i f hcan.1.2 hf hcan.2
      rw [hs] at hp
      cases hp
  · rcases cancel_of_step h with he | ⟨c', pc, n, hc', he⟩ | ⟨cl, ac, rfl, -, rfl⟩
    · exact (hr.2 c (he ▸ hc)).step h
    · obtain rfl := Option.some.inj (he.symm.trans hc)
      have hco := (hr.2 c' hc').step h
      exact ⟨hco.before, hco.past⟩
    · cases hc
      refine ⟨Nat.le_refl _, fun i f _ hf hact => ?_⟩
      simpa [hact] using all_eq_true.1 ha f (mem_of_getElem? hf)

/-! ## A queued fetch after a cancel -/

theorem fetch_step {st} (hf : s.fetches[i]? = some f) (hal : s.allows i f l = true) (hst : step f.st l = some st) :
    ∃ t, sysStep s (.fetch i l) = some t ∧ t.cancel = s.cancel ∧ t.fetches[i]? = some { f with st := st } ∧
      t.late = if dispatches f l && s.canceled i f then i :: s.late else s.late := by
  refine ⟨{ (s.put i { f with st := st }) with
    jobs := s.jobsAfter i f l, late := if dispatches f l && s.canceled i f then i :: s.late else s.late }, ?_, rfl,
    by simp [Sys.put, settle, hf], rfl⟩
  rw [sysStep, hf]
  refine (if_pos hal).trans ?_
  rw [hst]
  rfl

theorem exec_lockedRun {s : St} (hs : s.sect = .waiting) (hd : s.cell.data = none) :
    ∃ t, exec step s lockedRun = some t ∧ t.sect = .dispatch := by
  simp [lockedRun, exec_cons, step, sectionStep, hs, hd, Cell.create, Cell.getWatch, handleNodeState, initialData,
    FetcherStatus.final, Next.resume]

/-- A fetch goes on in the system as it does alone. -/
theorem exec_fetch {ls st} (hf : s.fetches[i]? = some f) (hal : ∀ l ∈ ls, ∀ (s : Sys) i f, s.allows i f l = true)
    (h : exec step f.st ls = some st) : ∃ t, exec sysStep s (ls.map (.fetch i)) = some t ∧ t.cancel = s.cancel ∧
      t.fetches[i]? = some { f with st := st } := by
  induction ls generalizing s f with
  | nil =>
    cases h
    exact ⟨s, rfl, rfl, hf⟩
  | cons l ls ih =>
    rw [forall_mem_cons] at hal
    obtain ⟨st', h₁, h₂⟩ := exec_cons_some h
    obtain ⟨u, hu, hcu, hfu, -⟩ := fetch_step hf (hal.1 s i f) h₁
    obtain ⟨t, ht, hct, hft⟩ := ih hfu hal.2 h₂
    refine ⟨t, ?_, hct.trans hcu, hft⟩
    rw [map_cons, exec_cons, hu]
    exact ht

/-- After the return of `cancel`, a fetch that gets its lock and finds no node can be dispatched. -/
theorem queued_dispatched {c} (hc : s.cancel = some c) (hpc : c.pc = .returned) (hi : i < c.before)
    (hf : s.fetches[i]? = some f) (hact : f.inAction c.client_id c.action_id = true) (hw : f.st.sect = .waiting)
    (hs : s.served i f.src = true) (hd : f.st.cell.data = none) : ∃ bs t, exec sysStep s bs = some t ∧ i ∈ t.late := by
  obtain ⟨st, hst, hsd⟩ := exec_lockedRun hw hd
  obtain ⟨st₁, h₁, h₂⟩ := exec_cons_some hst
  obtain ⟨u, hu, hcu, hfu, -⟩ := fetch_step (l := .lock) hf hs h₁
  obtain ⟨v, hv, hcv, hfv⟩ := exec_fetch hfu (by simp [Sys.allows]) h₂
  have hrun : exec sysStep s (lockedRun.map (.fetch i)) = some v := by
    rw [lockedRun, map_cons, exec_cons, hu]
    exact hv
  obtain ⟨st₂, h₃⟩ : ∃ st₂, step st (.run true) = some st₂ := by simp [step, sectionStep, hsd]
  obtain ⟨t, ht, -, -, hl⟩ := fetch_step hfv rfl h₃
  refine ⟨lockedRun.map (.fetch i) ++ [.fetch i (.run true)], t, exec_concat hrun ht, ?_⟩
  rw [hl, if_pos (by simpa [dispatches, hsd, Sys.canceled, hcv, hcu, hc, hpc, hi, Fetch.inAction] using hact)]
  exact mem_cons_self

/-- With no node to visit, `cancel` returns and has changed no fetch. -/
theorem cancel_returns (hn : s.cancel = none) (hno : ∀ g ∈ s.fetches, g.inAction cl ac = true → g.st.cell.data = none) :
    ∃ t, exec sysStep s [.cancel cl ac, .cancelAll, .getChildren [], .cancelNext] = some t ∧ t.fetches = s.fetches ∧
      t.cancel = some ⟨cl, ac, s.fetches.length, .returned, 0⟩ := by
  have hno' : (s.fetches.filter fun f => f.inAction cl ac && f.st.cell.data.isSome) = [] := by
    refine filter_eq_nil_iff.2 fun g hg h => ?_
    rw [Bool.and_eq_true] at h
    rw [hno g hg h.1] at h
    cases h.2
  have hch jobs cancel late : Sys.children ⟨s.fetches, jobs, cancel, late⟩ cl ac = [] := by
    rw [Sys.children, hno']
    rfl
  simp [exec_cons, sysStep, hn, cancelNext, hch, isPerm]

/-- In every run in which no fetch of the action is short of its dispatch call when `cancel` is
called, none that it is about is dispatched after its return. And `cancel` leaves nothing behind for
a fetch that waits for its lock: after the return it can still be dispatched, as soon as the lock is
free and if it has no node; in particular after a call that finds no node of the action. -/
theorem no_dispatch_after_cancel {as : List SysLabel} (h : exec sysStep .init as = some s) :
    (Along sysStep (fun s a => s.cancelsLast a = true) .init as → s.late = []) ∧
    ∀ i f, s.fetches[i]? = some f → f.st.sect = .waiting → s.served i f.src = true →
      (∀ c, s.cancel = some c → c.pc = .returned → i < c.before → f.inAction c.client_id c.action_id = true →
        f.st.cell.data = none → ∃ bs t, exec sysStep s bs = some t ∧ i ∈ t.late) ∧
      ∀ cl ac, s.cancel = none → f.inAction cl ac = true →
        (∀ g ∈ s.fetches, g.inAction cl ac = true → g.st.cell.data = none) →
        ∃ bs t, exec sysStep s (.cancel cl ac :: bs) = some t ∧ i ∈ t.late := by
  refine ⟨fun ha => ?_, fun i f hf hw hs => ⟨fun c hc hpc hi hact hd => ?_, fun cl ac hn hact hno => ?_⟩⟩
  · have h0 : Reached .init := ⟨rfl, fun c hc => by cases hc⟩
    exact (exec_inv_along Reached (fun _ _ _ hr ha ht => reached_step hr ha (sysMoves_of_step ht)) h0 ha h).1
  · exact queued_dispatched hc hpc hi hf hact hw hs hd
  · obtain ⟨u, hu, hfe, hc⟩ := cancel_returns hn hno
    have hs' : u.served i f.src = true := by rwa [Sys.served, hfe]
    have hi : i < s.fetches.length := (List.getElem?_eq_some_iff.1 hf).1
    obtain ⟨bs, t, hbs, hl⟩ := queued_dispatched hc rfl hi (hfe ▸ hf) hact hw hs' (hno f (mem_of_getElem? hf) hact)
    refine ⟨[.cancelAll, .getChildren [], .cancelNext] ++ bs, t, ?_, hl⟩
    rw [← cons_append, exec_append, hu]
    exact hbs

def toDispatch (i : Nat) : List SysLabel := (lockedRun ++ [Label.run true]).map (.fetch i)

def cancelOneNode : List SysLabel :=
  [.cancel "client" "action", .cancelAll, .getChildren ["data"], .cancelNext, .cancelNode, .cancelNode, .cancelNode,
    .cancelNext]

def oneRequest : SysLabel := .request "client" "action" "data" { src := "http://host/data.zip", path := "/data" }

def dispatchedThenCanceled : List SysLabel := oneRequest :: toDispatch 0 ++ cancelOneNode

theorem no_dispatch_after_cancel_one : (∃ s, exec sysStep .init dispatchedThenCanceled = some s ∧
    (∃ c, s.cancel = some c ∧ c.pc = .returned ∧ c.number_of_nodes_updated = 1) ∧ s.late = []) ∧
    ∃ s bs t, exec sysStep .init [oneRequest] = some s ∧ exec sysStep s (.cancel "client" "action" :: bs) = some t ∧
      0 ∈ t.late := by
  constructor
  · have hrun : ∃ s, exec sysStep .init dispatchedThenCanceled = some s ∧
        ∃ c, s.cancel = some c ∧ c.pc = .returned ∧ c.number_of_nodes_updated = 1 := ⟨_, rfl, _, rfl, rfl, rfl⟩
    obtain ⟨s, h, hc⟩ := hrun
    exact ⟨s, h, hc, (no_dispatch_after_cancel h).1 (by decide)⟩
  · have hrun : ∃ s f, exec sysStep .init [oneRequest] = some s ∧ s.fetches = [f] ∧ s.cancel = none ∧
        s.served 0 f.src = true ∧ f.st.sect = .waiting ∧ f.inAction "client" "action" = true ∧ f.st.cell.data = none :=
      ⟨_, _, rfl, rfl, rfl, by decide, rfl, by decide, rfl⟩
    obtain ⟨s, f, h, hfs, hn, hs, hw, hact, hd⟩ := hrun
    obtain ⟨bs, t, hbs, hl⟩ := ((no_dispatch_after_cancel h).2 0 f (by rw [hfs]; rfl) hw hs).2 _ _ hn hact
      (by simpa [hfs] using fun _ => hd)
    exact ⟨s, bs, t, h, hbs, hl⟩

/-- Two contents of one source and one action; the first is dispatched. -/
def dispatchedAndQueued : List SysLabel :=
  oneRequest :: .request "client" "action" "more" { src := "http://host/data.zip", path := "/more" } :: toDispatch 0

/-- The second fetch waits while `cancel` runs and the first one is cleaned up. -/
def canceledWhileQueued : List SysLabel :=
  dispatchedAndQueued ++ cancelOneNode ++
  [.fetch 0 (.deliver .changed), .fetch 0 (.thread .get true),
    .fetch 0 (.thread (.got { initialData with status := .canceled }) true), .fetch 0 (.thread .delete true),
    .fetch 0 (.thread .report true), .fetch 0 (.thread .cleanup true), .fetch 0 (.thread .release true)] ++ toDispatch 1

/-- The second fetch gets the lock after `cancel` has returned, and is dispatched. -/
theorem queued_fetch_dispatched : ∃ s, exec sysStep .init canceledWhileQueued = some s ∧
    (∃ c, s.cancel = some c ∧ c.pc = .returned ∧ c.before = 2) ∧ s.late ≠ [] :=
  ⟨_, rfl, ⟨_, rfl, rfl, rfl⟩, by decide⟩

theorem system_completes_once_queued : ∃ s f, exec sysStep .init canceledWhileQueued = some s ∧
    s.fetches[0]? = some f ∧ f.st.done ≠ [] ∧ f.st.done.length ≤ 1 := by
  obtain ⟨s, f, g, h, hf, hg, hd⟩ : ∃ s f g, exec sysStep .init canceledWhileQueued = some s ∧ s.fetches = [f, g] ∧
      g.samePath f = false ∧ f.st.done ≠ [] := ⟨_, _, _, rfl, rfl, rfl, by decide⟩
  have hc : canceledWhileQueued.all (fun a => match a with | .fetch _ l => l.calm | _ => true) = true := by decide
  have hs : ¬ s.Shares 0 f := by
    rintro ⟨_ | _ | j, g', hj, hg', hp⟩ <;> simp_all
  have h0 : s.fetches[0]? = some f := by rw [hf]; rfl
  exact ⟨s, f, h, h0, hd, (system_completes_once h (fun i l hl => all_eq_true.1 hc _ hl) h0 hs).1⟩

end BenchmarkAi.Downloads
