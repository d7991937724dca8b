import BenchmarkAi.Downloads.Protocol
import Mathlib.Data.List.Perm.Basic
/-!
# A download completes exactly once

Any number of calls of `__handle_node_state` may read a final status, but a node
is deleted once, and who deletes it reports (`Core.token`). Who has reported
releases the lock (`Core.lock`). A final status does not go unnoticed: each call
leaves a watch in the step in which it reads (`Core.watched`).
-/
open Lib Lib.Znode List

namespace BenchmarkAi.Downloads

def Final (r : FetcherResult) : Prop := r.status.final = true

def Handler.sees : Handler → Bool
  | .get | .delete => true
  | .got result => result.status.final
  | _ => false

def Section.handlers : Section → List Handler
  | .handle h => [h]
  | _ => []

def St.handlers (s : St) : List Handler := s.sect.handlers ++ s.threads

theorem handlers_resume (n : Next) : n.resume.handlers = n.threads := by
  cases n <;> rfl

/-! ## The calls -/

structure Core (s : Shared) (hs : List Handler) : Prop where
  token : s.done.length + hs.count .report = if s.cell.data.isNone then 1 else 0
  lock : hs.count .cleanup + hs.count .release + (if s.held then 0 else 1) = s.done.length
  watched : Watched Final (.get ∈ hs) (∃ h ∈ hs, h.sees = true) s.cell

variable {s s' : Shared} {hs hs' : List Handler}

theorem Core.perm (h : Core s hs) (hp : hs.Perm hs') : Core s hs' where
  token := by rw [← hp.count_eq]; exact h.token
  lock := by rw [← hp.count_eq, ← hp.count_eq]; exact h.lock
  watched := h.watched.mono hp.mem_iff.1 fun ⟨x, hx, he⟩ => ⟨x, hp.mem_iff.1 hx, he⟩

theorem Core.done_le (h : Core s hs) : s.done.length ≤ 1 := by
  have := h.token
  split at this <;> omega

variable {x : Handler} {n : Next} {cell : Cell FetcherResult}

theorem sees_after {l} (h : ∃ y ∈ x :: hs, y.sees = true) (hx : x.sees = true → ∃ y ∈ l, y.sees = true) :
    ∃ y ∈ l ++ hs, y.sees = true := by
  obtain ⟨y, hy, hys⟩ := h
  rcases mem_cons.1 hy with rfl | hy
  · obtain ⟨z, hz, hzs⟩ := hx hys
    exact ⟨z, mem_append_left _ hz, hzs⟩
  · exact ⟨y, mem_append_right _ hy, hys⟩

theorem watched_after {l c} (hx : x ≠ .get)
    (h : Watched Final (.get ∈ x :: hs) (∃ y ∈ x :: hs, y.sees = true) c) (hs' : x.sees = true → ∃ y ∈ l, y.sees = true) :
    Watched Final (.get ∈ l ++ hs) (∃ y ∈ l ++ hs, y.sees = true) c := by
  refine h.mono (fun hr => ?_) fun hse => sees_after hse hs'
  rcases mem_cons.1 hr with he | hr
  · exact absurd he.symm hx
  · exact mem_append_right _ hr

theorem core_handles (hm : Handles s true x s' n) (h : Core s (x :: hs)) : Core s' (n.threads ++ hs) := by
  have hle := h.done_le
  obtain ⟨token, lock, watched⟩ := h
  cases hm with
  | @get result cell hg =>
    obtain ⟨v, hv, rfl⟩ := getWatch_some hg
    refine ⟨?_, ?_, Watched.get hg fun hf => ⟨.got result, by simp [Next.threads], hf⟩⟩
    · simpa [Next.threads] using token
    · simpa [Next.threads] using lock
  | final hf =>
    refine ⟨by simpa [Next.threads] using token, by simpa [Next.threads] using lock, ?_⟩
    exact watched_after (by simp) watched fun _ => ⟨.delete, by simp [Next.threads], rfl⟩
  | notFinal hf =>
    refine ⟨by simpa [Next.threads] using token, by simpa [Next.threads] using lock, ?_⟩
    exact watched_after (by simp) watched fun hse => by simp [Handler.sees, hf] at hse
  | delete hd =>
    obtain ⟨⟨d, v, hv⟩, rfl⟩ := delete_some hd
    refine ⟨?_, by simpa [Next.threads] using lock, watched_of_missing rfl⟩
    -- the node was there, so nobody had reported and nobody was about to
    simp [hv] at token
    simp [Next.threads, token]
  | report =>
    refine ⟨?_, ?_, watched_after (by simp) watched fun hse => by cases hse⟩
    · simp [Next.threads] at token ⊢; omega
    · simp [Next.threads] at lock ⊢; omega
  | cleanup =>
    refine ⟨by simpa [Next.threads] using token, ?_, watched_after (by simp) watched fun hse => by cases hse⟩
    simp [Next.threads] at lock ⊢; omega
  | release hl =>
    refine ⟨by simpa [Next.threads] using token, ?_, watched_after (by simp) watched fun hse => by cases hse⟩
    simp [Next.threads, hl] at lock ⊢; omega
  | missing hh hn =>
    rcases hh with rfl | rfl <;>
      exact ⟨by simpa [Next.threads] using token, by simpa [Next.threads] using lock, watched_of_missing hn⟩
  | notHeld hl =>
    -- only one call gets as far as releasing the lock
    simp [hl] at lock
    omega

theorem core_set {d} (h : Core s hs) (hc : s.cell.set d = some cell) (hd : Final d) :
    Core { s with cell := cell } hs where
  token := by
    obtain ⟨d₀, v, hv, rfl⟩ := set_some hc
    simpa [hv] using h.token
  lock := h.lock
  watched := h.watched.set (fun hr => ⟨.get, hr, rfl⟩) hc hd

theorem core_deliver {e} (h : Core s hs) :
    Core { s with cell := { s.cell with fired := s.cell.fired.erase e } } (if e = .changed then .get :: hs else hs) := by
  refine ⟨?_, ?_, ?_⟩
  · split
    · simpa using h.token
    · exact h.token
  · split
    · simpa using h.lock
    · exact h.lock
  · refine h.watched.deliver (fun he => ?_) (fun hr => ?_) fun ⟨y, hy, hys⟩ => ?_
    · rw [if_pos he]
      exact ⟨mem_cons_self, .get, mem_cons_self, rfl⟩
    · split
      · exact mem_cons_self
      · exact hr
    · split
      · exact ⟨y, mem_cons_of_mem _ hy, hys⟩
      · exact ⟨y, hy, hys⟩

/-! ## Every step -/

def Label.calm : Label → Bool
  | .estimate (.error _) | .run false | .thread _ false => false
  | _ => true

def Label.exclusive : Label → Bool
  | .outside _ => false
  | _ => true

def Section.created : Section → Bool
  | .handle _ | .estimateAgain | .dispatch | .returned | .raised => true
  | _ => false

def Section.failing : Section → Bool
  | .failReport | .failRelease | .failed => true
  | _ => false

structure Untouched (s : St) : Prop where
  cell : s.cell = .empty
  threads : s.threads = []
  done : s.done = []
  replaced : s.replaced = []
  held : s.sect ≠ .waiting → s.held = true

structure Inv (s : St) : Prop where
  calm : s.sect.failing = false
  before : s.sect.created = false → Untouched s
  after : s.sect.created = true → Core s.toShared s.handlers
  written : (∃ p ∈ s.replaced, p.2.final = true) → ∀ r v, s.cell.data = some (r, v) → r.status.final = true

theorem inv_start (content : DownloadableContent) : Inv (start content) where
  calm := rfl
  before _ := ⟨rfl, rfl, rfl, rfl, fun h => absurd rfl h⟩
  after h := by cases h
  written h := by simp [start] at h

theorem created_of_data {s : St} {p} (hi : Inv s) (h : s.cell.data = some p) : s.sect.created = true := by
  by_contra hn
  rw [(hi.before (by simpa using hn)).cell] at h
  cases h

theorem handles_data {ok} (hm : Handles s ok x s' n) : s'.cell.data = s.cell.data ∨ s'.cell.data = none := by
  cases hm with
  | get hg => obtain ⟨v, hv, rfl⟩ := getWatch_some hg; exact .inl rfl
  | delete hd => obtain ⟨-, rfl⟩ := delete_some hd; exact .inr rfl
  | final | notFinal | report | reportRaises | cleanup | release | raises | missing | notHeld => exact .inl rfl

theorem written_of_data {s : St} (hi : Inv s) (hd : cell.data = s.cell.data ∨ cell.data = none)
    (hw : ∃ p ∈ s.replaced, p.2.final = true) : ∀ r v, cell.data = some (r, v) → r.status.final = true := by
  intro r v h
  rcases hd with hd | hd
  · exact hi.written hw r v (hd ▸ h)
  · rw [hd] at h; cases h

theorem inv_thread {s : St} {sh} (hi : Inv s) (hx : x ∈ s.threads) (hs : Handles s.toShared true x sh n) :
    Inv { s with toShared := sh, threads := n.threads ++ s.threads.erase x } := by
  have hc : s.sect.created = true := by
    by_contra hn
    rw [(hi.before (by simpa using hn)).threads] at hx
    cases hx
  refine ⟨hi.calm, fun hn => ?_, fun _ => ?_, written_of_data (s := s) hi (handles_data hs)⟩
  · rw [hc] at hn; cases hn
  · have hp : s.handlers.Perm (x :: (s.sect.handlers ++ s.threads.erase x)) := by
      refine ((perm_cons_erase hx).append_left s.sect.handlers).trans ?_
      exact perm_middle
    have hco := core_handles hs ((hi.after hc).perm hp)
    refine hco.perm ?_
    rw [St.handlers, ← append_assoc, ← append_assoc]
    exact perm_append_comm.append_right _

theorem inv_write {s : St} {d cs} (hi : Inv s) (hc : s.cell.set d = some cell) (hd : Final d)
    (l : List (FetcherStatus × FetcherStatus)) : Inv { s with cell := cell, cancelers := cs, replaced := l } := by
  obtain ⟨d₀, v, hv, he⟩ := set_some hc
  have hcr := created_of_data hi hv
  refine ⟨hi.calm, fun hn => ?_, fun _ => core_set (hi.after hcr) hc hd, fun _ r v' h => ?_⟩
  · rw [hcr] at hn; cases hn
  · rw [he] at h
    cases h
    exact hd

theorem inv_cancelers {s} (hi : Inv s) (cs : List Canceler) : Inv { s with cancelers := cs } where
  calm := hi.calm
  before hc := by
    obtain ⟨hce, ht, hd, hr, hh⟩ := hi.before hc
    exact ⟨hce, ht, hd, hr, hh⟩
  after := hi.after
  written := hi.written

theorem inv_step {s t} {a : Label} (hi : Inv s) (hca : a.calm = true) (hex : a.exclusive = true)
    (hm : Moves s a t) : Inv t := by
  cases hm with
  | lock h =>
    obtain ⟨h1, h2, h3, h4, -⟩ := hi.before (by rw [h]; rfl)
    exact ⟨rfl, fun _ => ⟨h1, h2, h3, h4, fun _ => rfl⟩, fun hc => (by cases hc), hi.written⟩
  | estimate h =>
    obtain ⟨h1, h2, h3, h4, h5⟩ := hi.before (by rw [h]; rfl)
    exact ⟨rfl, fun _ => ⟨h1, h2, h3, h4, fun _ => h5 (by simp [h])⟩, fun hc => (by cases hc), hi.written⟩
  | estimateRaises | estimateAgainRaises => cases hca
  | estimateAgain h =>
    obtain ⟨h1, h2, h3⟩ := hi.after (by rw [h]; rfl)
    rw [St.handlers, h] at h1 h2 h3
    exact ⟨rfl, fun hc => (by cases hc), fun _ => ⟨h1, h2, h3⟩, hi.written⟩
  | failReport h => have := hi.calm; rw [h] at this; cases this
  | failRelease h => have := hi.calm; rw [h] at this; cases this
  | create h hc =>
    obtain ⟨h1, h2, h3, h4, h5⟩ := hi.before (by rw [h]; rfl)
    obtain ⟨-, rfl⟩ := create_some hc
    refine ⟨rfl, fun hc => (by cases hc), fun _ => ⟨?_, ?_, ?_⟩, fun hw => ?_⟩
    · simp [St.handlers, Section.handlers, h2, h3]
    · simp [St.handlers, Section.handlers, h2, h3, h5 (by simp [h])]
    · refine ⟨fun d v hd hf => ?_, fun _ _ _ _ => .inl (by simp [St.handlers, Section.handlers])⟩
      cases hd
      cases hf
    · simp [h4] at hw
  | @createRaises ok h hc =>
    cases ok with
    | false => cases hca
    | true => exact absurd (by rw [(hi.before (by rw [h]; rfl)).cell]; rfl) (hc rfl)
  | @handle ok x sh n hh hs =>
    cases ok with
    | false => cases hca
    | true =>
      have hco := hi.after (by rw [hh]; rfl)
      rw [St.handlers, hh] at hco
      refine ⟨by cases n <;> rfl, fun hc => ?_, fun _ => ?_, written_of_data (s := s) hi (handles_data hs)⟩
      · cases n <;> cases hc
      · rw [St.handlers, handlers_resume]
        exact core_handles hs hco
  | @dispatch ok h =>
    cases ok with
    | false => cases hca
    | true =>
      obtain ⟨h1, h2, h3⟩ := hi.after (by rw [h]; rfl)
      rw [St.handlers, h] at h1 h2 h3
      exact ⟨rfl, fun hc => (by cases hc), fun _ => ⟨h1, h2, h3⟩, hi.written⟩
  | @deliver e h =>
    have hc : s.sect.created = true := by
      by_contra hn
      rw [(hi.before (by simpa using hn)).cell] at h
      cases h
    refine ⟨hi.calm, fun hn => ?_, fun _ => ?_, hi.written⟩
    · rw [hc] at hn; cases hn
    · refine (core_deliver (hi.after hc)).perm ?_
      split
      · exact perm_middle.symm
      · exact Perm.refl _
  | @thread ok x sh n hh hs =>
    cases ok with
    | false => cases hca
    | true => exact inv_thread hi hh hs
  | @jobWrite o cell h => exact inv_write hi h (by cases o <;> rfl) _
  | cancel => exact inv_cancelers hi _
  | @cancelStep c c' sh h hs =>
    cases hs with
    | write hd hc => exact inv_write hi hc rfl _
    | missing | final | read | stale => exact inv_cancelers hi _
  | outside => cases hex

theorem exec_inv_download {c as s}
    (h : exec step (start c) as = some s) (hc : ∀ a ∈ as, a.calm = true ∧ a.exclusive = true) : Inv s :=
  exec_inv_along Inv (fun _ _ _ hi ha ht => inv_step hi ha.1 ha.2 (moves_of_step ht)) (inv_start c)
    (along_of_forall hc _) h

/-- Neither the section nor another thread has a step to take, and no
notification is on its way. -/
def Quiescent (s : St) : Prop :=
  (s.sect = .waiting ∨ s.sect = .failed ∨ s.sect = .returned ∨ s.sect = .raised) ∧ s.threads = [] ∧ s.cell.fired = []

theorem Inv.completes {s : St} (hi : Inv s) : s.done.length ≤ 1 ∧
    (Quiescent s → (∃ p ∈ s.replaced, p.2.final = true) → s.done.length = 1 ∧ s.cell.data = none ∧ s.held = false) := by
  refine ⟨?_, fun ⟨hse, ht, hfi⟩ hw => ?_⟩
  · cases hcr : s.sect.created with
    | false => rw [(hi.before hcr).done]; exact Nat.zero_le _
    | true => exact (hi.after hcr).done_le
  · have hcr : s.sect.created = true := by
      by_contra hn
      rw [(hi.before (by simpa using hn)).replaced] at hw
      simp at hw
    have hhs : s.handlers = [] := by
      rcases hse with e | e | e | e <;> simp [St.handlers, Section.handlers, e, ht]
    obtain ⟨token, lock, watched⟩ := hi.after hcr
    -- a final status in the node would have somebody left to act on it
    have hno : s.cell.data = none := by
      cases hd : s.cell.data with
      | none => rfl
      | some p =>
        rcases watched.wake p.1 p.2 hd (hi.written hw p.1 p.2 hd) with ⟨y, hy, -⟩ | hf
        · rw [hhs] at hy; cases hy
        · rw [hfi] at hf; cases hf
    simp [hhs, hno] at token lock
    refine ⟨token, hno, ?_⟩
    cases hl : s.held with
    | false => rfl
    | true => rw [if_pos hl] at lock; omega

/-- In every run, `on_done` is called at most once. Once nothing moves and a final
status has been written to the node, it has been called exactly once, the node is
deleted and the lock is released. -/
theorem fetch_completes_once {c : DownloadableContent} {as : List Label} {s : St}
    (h : exec step (start c) as = some s) (hc : ∀ a ∈ as, a.calm = true ∧ a.exclusive = true) :
    s.done.length ≤ 1 ∧
    (Quiescent s → (∃ p ∈ s.replaced, p.2.final = true) → s.done.length = 1 ∧ s.cell.data = none ∧ s.held = false) :=
  (exec_inv_download h hc).completes

def plainRun : List Label :=
  let result := JobOutcome.result (.fetched (some .file))
  lockedRun ++ [.run true, .jobWrite (.fetched (some .file)), .deliver .changed, .thread .get true, .thread (.got result) true,
    .thread .delete true, .deliver .deleted, .thread .report true, .thread .cleanup true, .thread .release true]

theorem fetch_completes_once_plain :
    ∃ s, exec step (start { src := "http://host/data.zip", path := "/data" }) plainRun = some s ∧
      s.done.length = 1 ∧ s.cell.data = none ∧ s.held = false := by
  have hrun : ∃ s, exec step (start { src := "http://host/data.zip", path := "/data" }) plainRun = some s ∧
      Quiescent s ∧ ∃ p ∈ s.replaced, p.2.final = true := by
    refine ⟨_, rfl, ⟨.inr (.inr (.inl rfl)), rfl, rfl⟩, (.pending, .done), ?_, rfl⟩
    exact mem_cons_self
  obtain ⟨s, h, hq, hw⟩ := hrun
  exact ⟨s, h, (fetch_completes_once h (by decide)).2 hq hw⟩

end BenchmarkAi.Downloads
