import BenchmarkAi.Downloads.Dispatching
/-!
# The lock at the end of the section

`on_content_locked` makes five calls that may raise: the estimator twice, the creation of
the node, its first read and `dispatch_fetch`. Only the first estimation is inside a
`try`. What is left behind when the section ends is counted as in `Completion`: as long
as no other call raises, who deletes the node reports, and who reports unlocks.
-/
open Lib Lib.Znode

namespace BenchmarkAi.Downloads

/-- The section is over: left by `return`, through the `except` branch, or by an exception. -/
def Section.ended : Section → Bool
  | .failed | .returned | .raised => true
  | _ => false

/-- The node path has no other user, and only the five calls of the section raise. -/
def raisesListed (s : St) : Label → Bool
  | .run ok => ok || s.sect = .create || s.sect = .handle .get || s.sect = .dispatch
  | .thread _ ok => ok
  | .outside _ => false
  | _ => true

/-- A call outside of the `try` raises in this step. -/
def raisesUnguarded (s : St) : Label → Bool
  | .estimate (.error _) => s.sect = .estimateAgain
  | .run ok =>
    match s.sect with
    | .create => !ok || s.cell.data.isSome
    | .handle .get => !ok || s.cell.data.isNone
    | .dispatch => !ok
    | _ => false
  | _ => false

/-- The node is there, and something is left that will look at it. -/
def Awaited (s : St) : Prop :=
  s.cell.data ≠ none ∧ (0 < s.cell.watches ∨ .changed ∈ s.cell.fired ∨ ∃ h ∈ s.threads, h.sees = true)

/-- The job is dispatched and its result awaited, or the content is reported once and the
lock, which was granted once, is free again. -/
def Accounted (s : St) : Prop :=
  (s.sect = .returned ∧ s.dispatches ≠ [] ∧ Awaited s) ∨ (s.done.length = 1 ∧ s.held = false)

/-! ## While the section runs -/

structure Failing (s : St) : Prop where
  sect : s.sect.failing = true
  cell : s.cell = .empty
  threads : s.threads = []
  done : s.done.length = if s.sect = .failReport then 0 else 1
  held : s.held = !(s.sect = .failed)

inductive Progress (s : St) : Prop
  | running (h : Inv s)
  | failing (h : Failing s)
  | ended (h : s.sect.ended = true)

variable {s t : St} {a : Label}

theorem ended_step (h : s.sect.ended = true) (hm : Moves s a t) : t.sect.ended = true := by
  cases hm with
  | lock hs | estimate hs | estimateRaises hs | estimateAgain hs | estimateAgainRaises hs | failReport hs
  | failRelease hs | create hs | createRaises hs | handle hs | dispatch hs => rw [hs] at h; cases h
  | deliver | thread | jobWrite | cancel | cancelStep | outside => exact h

theorem failing_step (hi : Failing s) (hl : raisesListed s a = true) (hm : Moves s a t) : Failing t := by
  have hda : s.cell.data = none := by
    rw [hi.cell]
    rfl
  cases hm with
  | lock hs | estimate hs | estimateRaises hs | estimateAgain hs | estimateAgainRaises hs | create hs | createRaises hs
  | handle hs | dispatch hs => have := hi.sect; rw [hs] at this; cases this
  | @failReport ok hs =>
    cases ok with
    | false => simp [raisesListed, hs] at hl
    | true =>
      have hdo := hi.done
      have hhe := hi.held
      rw [if_pos hs] at hdo
      rw [hs] at hhe
      exact ⟨rfl, hi.cell, hi.threads, by simp [hdo], hhe⟩
  | @failRelease ok hs =>
    cases ok with
    | false => simp [raisesListed, hs] at hl
    | true =>
      have hdo := hi.done
      rw [hs] at hdo
      exact ⟨rfl, hi.cell, hi.threads, hdo, by simp⟩
  | deliver he => rw [hi.cell] at he; cases he
  | thread hh => rw [hi.threads] at hh; cases hh
  | jobWrite hs =>
    obtain ⟨d, v, hd, -⟩ := set_some hs
    rw [hda] at hd
    cases hd
  | cancel => exact ⟨hi.sect, hi.cell, hi.threads, hi.done, hi.held⟩
  | cancelStep hc hs =>
    cases hs with
    | missing => exact ⟨hi.sect, hi.cell, hi.threads, hi.done, hi.held⟩
    | final hd | read hd | write hd | stale hd => rw [hda] at hd; cases hd
  | outside => cases hl

/-- A step in which a listed call raises leads to the `except` branch or ends the section. -/
theorem progress_raises (hi : Inv s) (hl : raisesListed s a = true) (hc : a.calm = false) (hm : Moves s a t) : Progress t := by
  cases hm with
  | lock | estimate | estimateAgain | create | deliver | jobWrite | cancel | cancelStep | outside => cases hc
  | estimateRaises hs =>
    obtain ⟨hce, ht, hd, -, hhe⟩ := hi.before (by rw [hs]; rfl)
    exact .failing ⟨rfl, hce, ht, by simp [hd], hhe (by simp [hs])⟩
  | estimateAgainRaises => exact .ended rfl
  | failReport hs | failRelease hs => have := hi.calm; rw [hs] at this; cases this
  | createRaises => exact .ended rfl
  | @handle ok x sh n hs hh =>
    cases ok with
    | true => cases hc
    | false =>
      obtain rfl : x = .get := by simpa [raisesListed, hs] using hl
      cases hh
      exact .ended rfl
  | @dispatch ok hs => cases ok <;> exact .ended rfl
  | @thread ok =>
    cases ok with
    | true => cases hc
    | false => cases hl

theorem progress_step (hp : Progress s) (hl : raisesListed s a = true) (hm : Moves s a t) : Progress t := by
  cases hp with
  | ended h => exact .ended (ended_step h hm)
  | failing hi => exact .failing (failing_step hi hl hm)
  | running hi =>
    have hex : a.exclusive = true := by
      cases a <;> first | rfl | cases hl
    cases hc : a.calm with
    | true => exact .running (inv_step hi hc hex hm)
    | false => exact progress_raises hi hl hc hm

theorem progress_run {c as} (h : exec step (start c) as = some s)
    (hl : Along step (fun s a => raisesListed s a = true) (start c) as) : Progress s :=
  exec_inv_along Progress (fun _ _ _ hp ha ht => progress_step hp ha (moves_of_step ht)) (.running (inv_start c)) hl h

/-! ## When it ends -/

/-- When no call is between deleting the node and unlocking, the node is there and the
lock is held, or the content is reported and the lock is free. -/
theorem core_at_rest {s : Shared} {hs} (h : Core s hs) (hq : ∀ x ∈ hs, x.early = true) :
    (s.cell.data ≠ none ∧ s.done = [] ∧ s.held = true) ∨ (s.done.length = 1 ∧ s.held = false) := by
  have hno : ∀ x : Handler, x.early = false → hs.count x = 0 := fun x hx =>
    List.count_eq_zero.2 fun hmem => by rw [hq x hmem] at hx; cases hx
  have ht := h.token
  have hl := h.lock
  rw [hno .report rfl, Nat.add_zero] at ht
  rw [hno .cleanup rfl, hno .release rfl, ht] at hl
  cases hd : s.cell.data with
  | none =>
    rw [hd] at ht hl
    cases hh : s.held <;> rw [hh] at hl
    · exact .inr ⟨ht, rfl⟩
    · cases hl
  | some p =>
    rw [hd] at ht hl
    cases hh : s.held <;> rw [hh] at hl
    · cases hl
    · exact .inl ⟨by simp, List.eq_nil_of_length_eq_zero ht, rfl⟩

/-- A call between deleting the node and unlocking: the content is not awaited any more,
and not yet reported with the lock free. -/
theorem late_of_core {s : Shared} {hs x} (h : Core s hs) (hx : x ∈ hs) (hl : x.early = false) :
    s.cell.data = none ∧ ¬ (s.done.length = 1 ∧ s.held = false) := by
  have hpos := List.count_pos_iff.2 hx
  have ht := h.token
  have hlo := h.lock
  split at ht
  · rename_i hn
    refine ⟨by simpa using hn, fun ⟨hd, hh⟩ => ?_⟩
    rw [hd, hh] at hlo
    cases x with
    | get | got | delete => cases hl
    | report | cleanup | release => simp at hlo; omega
  · cases x with
    | get | got | delete => cases hl
    | report | cleanup | release => omega

theorem awaited_of_core (h : Core s.toShared s.threads) (hd : s.cell.data ≠ none) : Awaited s := by
  refine ⟨hd, ?_⟩
  obtain ⟨⟨d, v⟩, hp⟩ := Option.ne_none_iff_exists'.1 hd
  by_cases hf : Final d
  · rcases h.watched.wake d v hp hf with hs | hfi
    · exact .inr (.inr hs)
    · exact .inr (.inl hfi)
  · rcases h.watched.live d v hp hf with hr | hfi | hw
    · exact .inr (.inr ⟨.get, hr, rfl⟩)
    · exact .inr (.inl hfi)
    · exact .inl hw

theorem accounted_raised (hs : s.sect = .raised) (hr : (s.done = [] ∧ s.held = true) ∨ (s.done.length = 1 ∧ s.held = false)) :
    Accounted s ↔ s.done ≠ [] := by
  rcases hr with ⟨hd, hh⟩ | ⟨hd, hh⟩
  · simp [Accounted, hs, hd]
  · refine ⟨fun _ hnil => ?_, fun _ => .inr ⟨hd, hh⟩⟩
    rw [hnil] at hd
    cases hd

theorem rest_of_inv (hi : Inv s) (hc : s.sect.created = true) (hq : ∀ x ∈ s.threads, x.early = true)
    (hx : ∀ x ∈ s.sect.handlers, x.early = true) :
    (s.cell.data ≠ none ∧ s.done = [] ∧ s.held = true) ∨ (s.done.length = 1 ∧ s.held = false) := by
  refine core_at_rest (hi.after hc) fun x hmem => ?_
  rcases List.mem_append.1 hmem with hs | ht
  · exact hx x hs
  · exact hq x ht

theorem accounted_handle {ok x sh} {n : Next} (hi : Inv s) (hl : raisesListed s (.run ok) = true)
    (hs : s.sect = .handle x) (hh : Handles s.toShared ok x sh n) (hend : n.resume.ended = true)
    (hq : ∀ y ∈ s.threads, y.early = true) :
    Accounted { s with toShared := sh, sect := n.resume } ↔ ¬ (raisesUnguarded s (.run ok) = true ∧ s.done = []) := by
  have hr := rest_of_inv hi (by rw [hs]; rfl) hq
  rw [hs] at hr
  cases hh with
  | get | final | notFinal | delete | report | cleanup | release => cases hend
  | reportRaises => simp [raisesListed, hs] at hl
  | raises hne =>
    obtain rfl : x = .get := by simpa [raisesListed, hs] using hl
    refine Iff.trans (accounted_raised rfl ?_) (by simp [raisesUnguarded, hs])
    exact (hr (by simp [Section.handlers, Handler.early])).imp_left And.right
  | missing hxs hn =>
    have he : x.early = true := by
      rcases hxs with rfl | rfl <;> rfl
    rcases hr (by simpa [Section.handlers] using he) with ⟨hd, -⟩ | ⟨hd, hh⟩
    · exact absurd hn hd
    · refine iff_of_true (.inr ⟨hd, hh⟩) fun hno => ?_
      rw [hno.2] at hd
      cases hd
  | notHeld hhe =>
    -- a call that is about to unlock has the lock
    have hc := hi.after (by rw [hs]; rfl)
    have hle := hc.done_le
    have hlo := hc.lock
    simp [St.handlers, hs, Section.handlers, hhe] at hlo
    omega

theorem accounted_running (hi : Inv s) (hl : raisesListed s a = true) (hm : Moves s a t) (hrun : s.sect.ended = false)
    (hend : t.sect.ended = true) (hq : ∀ x ∈ s.threads, x.early = true) :
    Accounted t ↔ ¬ (raisesUnguarded s a = true ∧ s.done = []) := by
  cases hm with
  | lock | estimate | estimateRaises | estimateAgain | create => cases hend
  | failReport hs | failRelease hs => have := hi.calm; rw [hs] at this; cases this
  | estimateAgainRaises hs =>
    have hre := rest_of_inv hi (by rw [hs]; rfl) hq (by simp [hs, Section.handlers])
    refine Iff.trans (accounted_raised rfl ?_) (by simp [raisesUnguarded, hs])
    exact hre.imp_left And.right
  | @createRaises ok hs hc =>
    obtain ⟨hce, -, hdo, -, hhe⟩ := hi.before (by rw [hs]; rfl)
    have hr : raisesUnguarded s (.run ok) = true := by
      cases ok with
      | false => simp [raisesUnguarded, hs]
      | true => exact absurd (by rw [hce]; rfl) (hc rfl)
    exact Iff.trans (accounted_raised rfl (.inl ⟨hdo, hhe (by simp [hs])⟩)) (by simp [hr])
  | handle hs hh => exact accounted_handle hi hl hs hh hend hq
  | @dispatch ok hs =>
    have hre := rest_of_inv hi (by rw [hs]; rfl) hq (by simp [hs, Section.handlers])
    cases ok with
    | false =>
      refine Iff.trans (accounted_raised rfl ?_) (by simp [raisesUnguarded, hs])
      exact hre.imp_left And.right
    | true =>
      refine iff_of_true ?_ (by simp [raisesUnguarded, hs])
      rcases hre with ⟨hd, -, -⟩ | hrep
      · have hco := hi.after (by rw [hs]; rfl)
        rw [St.handlers, hs] at hco
        exact .inl ⟨rfl, by simp, awaited_of_core (s := { s with sect := .returned, dispatches := _ }) hco hd⟩
      · exact .inr hrep
  | deliver | thread | jobWrite | cancel | cancelStep | outside => rw [hrun] at hend; cases hend

theorem shared_of_end (hl : raisesListed s a = true) (hm : Moves s a t) (hrun : s.sect.ended = false) (hf : s.sect.failing = false)
    (hend : t.sect.ended = true) : t.cell = s.cell ∧ t.done = s.done ∧ t.held = s.held := by
  cases hm with
  | lock | estimate | estimateRaises | estimateAgain | create => cases hend
  | failReport hs | failRelease hs => rw [hs] at hf; cases hf
  | estimateAgainRaises | createRaises | dispatch => exact ⟨rfl, rfl, rfl⟩
  | handle hs hh =>
    cases hh with
    | get | final | notFinal | delete | report | cleanup | release => cases hend
    | reportRaises => simp [raisesListed, hs] at hl
    | raises | missing | notHeld => exact ⟨rfl, rfl, rfl⟩
  | deliver | thread | jobWrite | cancel | cancelStep | outside => rw [hrun] at hend; cases hend

theorem early_of_accounted (hi : Inv s) (hsh : t.cell = s.cell ∧ t.done = s.done ∧ t.held = s.held) (ha : Accounted t) :
    ∀ x ∈ s.threads, x.early = true := by
  intro x hx
  by_contra hne
  cases hc : s.sect.created with
  | false =>
    rw [(hi.before hc).threads] at hx
    cases hx
  | true =>
    obtain ⟨hd, hno⟩ := late_of_core (hi.after hc) (List.mem_append_right _ hx) (by simpa using hne)
    rcases ha with ⟨-, -, haw⟩ | ha
    · exact haw.1 (by rw [hsh.1, hd])
    · rw [hsh.2.1, hsh.2.2] at ha
      exact hno ha

theorem accounted_failing (hi : Failing s) (hl : raisesListed s a = true) (hm : Moves s a t) (hend : t.sect.ended = true) :
    Accounted t ∧ (s.sect.ended = false → raisesUnguarded s a = false) := by
  have hi' := failing_step hi hl hm
  have hfa : t.sect = .failed := by
    have hf := hi'.sect
    generalize t.sect = x at hf hend
    cases x with
    | failed => rfl
    | failReport | failRelease => cases hend
    | _ => cases hf
  constructor
  · refine .inr ⟨?_, ?_⟩
    · rw [hi'.done, hfa]
      rfl
    · rw [hi'.held, hfa]
      rfl
  · intro hrun
    have hf := hi.sect
    cases hs : s.sect with
    | failReport | failRelease =>
      cases a with
      | estimate o => cases o <;> simp [raisesUnguarded, hs]
      | _ => simp [raisesUnguarded, hs]
    | failed => rw [hs] at hrun; cases hrun
    | _ => rw [hs] at hf; cases hf

/-- When the section ends, the job is dispatched and awaited, or the content is reported
and the lock released, exactly if no call outside of the `try` raises before the content
was reported and no callback is between deleting the node and unlocking. -/
theorem lock_not_leaked_iff {c : DownloadableContent} {as : List Label} {a : Label} {s t : St}
    (h : exec step (start c) as = some s) (ht : step s a = some t)
    (hl : Along step (fun s a => raisesListed s a = true) (start c) as) (hla : raisesListed s a = true)
    (hrun : s.sect.ended = false) (hend : t.sect.ended = true) :
    Accounted t ↔ ¬ (raisesUnguarded s a = true ∧ s.done = []) ∧ ∀ x ∈ s.threads, x.early = true := by
  have hm := moves_of_step ht
  cases progress_run h hl with
  | ended he => rw [hrun] at he; cases he
  | running hi =>
    constructor
    · intro ha
      have hq := early_of_accounted hi (shared_of_end hla hm hrun hi.calm hend) ha
      exact ⟨(accounted_running hi hla hm hrun hend hq).1 ha, hq⟩
    · exact fun ⟨hno, hq⟩ => (accounted_running hi hla hm hrun hend hq).2 hno
  | failing hi =>
    obtain ⟨hset, hno⟩ := accounted_failing hi hla hm hend
    exact iff_of_true hset ⟨by simp [hno hrun], by simp [hi.threads]⟩

def someContent : DownloadableContent := { src := "http://host/data.zip", path := "/data" }

theorem lock_not_leaked_plain :
    ∃ s t, exec step (start someContent) lockedRun = some s ∧ step s (.run true) = some t ∧ Accounted t := by
  refine ⟨_, _, rfl, rfl, (@lock_not_leaked_iff someContent lockedRun (.run true) _ _ rfl rfl ?_ rfl rfl rfl).2 ?_⟩
  · decide
  · decide

/-- `dispatch_fetch` raises: the section ends with the lock held, and nothing has been
dispatched or reported. -/
theorem failed_dispatch_leaks_lock :
    ∃ s t, exec step (start someContent) lockedRun = some s ∧ step s (.run false) = some t ∧
      Along step (fun s a => raisesListed s a = true) (start someContent) (lockedRun ++ [.run false]) ∧
      t.sect = .raised ∧ t.threads = [] ∧ t.held = true ∧ t.done = [] ∧ ¬ Accounted t := by
  refine ⟨_, _, rfl, rfl, by decide, rfl, rfl, rfl, rfl, fun h => ?_⟩
  rcases h with ⟨hs, -⟩ | ⟨hd, -⟩
  · cases hs
  · cases hd

end BenchmarkAi.Downloads
