import BenchmarkAi.Downloads.Completion
/-!
# When a job is dispatched

`on_content_locked` calls `dispatch_fetch` at its end, whatever its own read of the
node has found. If that read, or a watch callback on another thread, finds a final
status first, the content is reported, its jobs are cleaned up and its lock is
released, and the job is dispatched all the same. As long as the node outlives
the dispatch call this does not happen, whatever anybody writes to the node.
-/
open Lib Lib.Znode List

namespace BenchmarkAi.Downloads

def Section.undispatched : Section → Bool
  | .waiting | .estimate | .create | .handle _ | .estimateAgain | .dispatch => true
  | _ => false

/-- Every call of `dispatch_fetch` was made under the lock and before `on_done`. -/
def DispatchedInTime (s : St) : Prop := ∀ d ∈ s.dispatches, d.held = true ∧ d.done = []

def deletesNode (s : St) : Label → Bool
  | .run ok => ok && s.sect = .handle .delete && s.cell.data.isSome
  | .thread h ok => ok && h = .delete && s.cell.data.isSome
  | _ => false

/-- The step does not delete the node with the dispatch call still to come. -/
def KeepsNode (s : St) (a : Label) : Prop := s.sect.undispatched = true → deletesNode s a = false

instance (s : St) (a : Label) : Decidable (KeepsNode s a) := inferInstanceAs (Decidable (_ → _))

def Handler.early : Handler → Bool
  | .get | .got _ | .delete => true
  | _ => false

structure InTime (s : St) : Prop where
  calls : DispatchedInTime s
  done : s.sect.undispatched = true → s.done = []
  held : s.sect.undispatched = true → s.sect ≠ .waiting → s.held = true
  early : s.sect.undispatched = true → ∀ h ∈ s.handlers, h.early = true

theorem inTime_start (content : DownloadableContent) : InTime (start content) where
  calls d h := by simp [start] at h
  done _ := rfl
  held _ h := absurd rfl h
  early _ h hh := by simp [St.handlers, Section.handlers, start] at hh

variable {ok : Bool} {x : Handler} {n : Next} {s : St} {sh : Shared}

theorem early_handles {s s' : Shared} (hm : Handles s ok x s' n) (hx : x.early = true)
    (hk : x = .delete → ok = true → s.cell.data = none) :
    s'.done = s.done ∧ s'.held = s.held ∧ ∀ h ∈ n.threads, h.early = true := by
  cases hm with
  | get hg => exact ⟨rfl, rfl, by simp [Next.threads, Handler.early]⟩
  | final hf => exact ⟨rfl, rfl, by simp [Next.threads, Handler.early]⟩
  | delete hd =>
    obtain ⟨⟨d, v, hv⟩, -⟩ := delete_some hd
    rw [hk rfl rfl] at hv; cases hv
  | notFinal | raises | missing => exact ⟨rfl, rfl, by simp [Next.threads]⟩
  | report | reportRaises | cleanup | release | notHeld => cases hx

theorem inTime_handle (hi : InTime s) (hk : KeepsNode s (.run ok)) (hh : s.sect = .handle x) (hs : Handles s.toShared ok x sh n) :
    InTime { s with toShared := sh, sect := n.resume } := by
  have hu : s.sect.undispatched = true := by rw [hh]; rfl
  have hx : x.early = true := hi.early hu x (by simp [St.handlers, Section.handlers, hh])
  obtain ⟨hd, hhe, hn⟩ := early_handles hs hx fun e hok => by
    simpa [deletesNode, hh, e, hok] using hk hu
  refine ⟨hi.calls, fun _ => hd.trans (hi.done hu), fun _ _ => hhe.trans (hi.held hu (by simp [hh])), ?_⟩
  intro _ h hmem
  rw [St.handlers, handlers_resume, mem_append] at hmem
  rcases hmem with hmem | hmem
  · exact hn h hmem
  · exact hi.early hu h (mem_append_right _ hmem)

theorem inTime_thread (hi : InTime s) (hk : KeepsNode s (.thread x ok)) (hx : x ∈ s.threads) (hs : Handles s.toShared ok x sh n) :
    InTime { s with toShared := sh, threads := n.threads ++ s.threads.erase x } := by
  have he : s.sect.undispatched = true → sh.done = s.done ∧ sh.held = s.held ∧ ∀ h ∈ n.threads, h.early = true := by
    intro hu
    refine early_handles hs (hi.early hu x (mem_append_right _ hx)) fun e => ?_
    intro hok
    simpa [deletesNode, e, hok] using hk hu
  refine ⟨hi.calls, fun hu => ((he hu).1).trans (hi.done hu), fun hu hw => ((he hu).2.1).trans (hi.held hu hw), ?_⟩
  intro hu h hmem
  simp only [St.handlers, mem_append] at hmem
  rcases hmem with hmem | hmem | hmem
  · exact hi.early hu h (mem_append_left _ hmem)
  · exact (he hu).2.2 h hmem
  · exact hi.early hu h (mem_append_right _ (mem_of_mem_erase hmem))

theorem inTime_step {t a} (hi : InTime s) (hk : KeepsNode s a) (hm : Moves s a t) : InTime t := by
  have hth : s.sect.undispatched = true → ∀ h ∈ s.threads, h.early = true := fun hu h hmem =>
    hi.early hu h (mem_append_right _ hmem)
  cases hm with
  | lock h => exact ⟨hi.calls, fun _ => hi.done (by rw [h]; rfl), fun _ _ => rfl, fun _ => hth (by rw [h]; rfl)⟩
  | estimate h | estimateAgain h =>
    exact ⟨hi.calls, fun _ => hi.done (by rw [h]; rfl), fun _ _ => hi.held (by rw [h]; rfl) (by simp [h]),
      fun _ => hth (by rw [h]; rfl)⟩
  | estimateRaises | estimateAgainRaises =>
    exact ⟨hi.calls, fun hu => (by cases hu), fun hu => (by cases hu), fun hu => (by cases hu)⟩
  | @failReport ok h =>
    cases ok <;> exact ⟨hi.calls, fun hu => (by cases hu), fun hu => (by cases hu), fun hu => (by cases hu)⟩
  | @failRelease ok h =>
    cases ok <;> exact ⟨hi.calls, fun hu => (by cases hu), fun hu => (by cases hu), fun hu => (by cases hu)⟩
  | create h hc =>
    refine ⟨hi.calls, fun _ => hi.done (by rw [h]; rfl), fun _ _ => hi.held (by rw [h]; rfl) (by simp [h]), ?_⟩
    intro _ x hx
    rcases mem_append.1 hx with hx | hx
    · rw [mem_singleton.1 hx]; rfl
    · exact hth (by rw [h]; rfl) x hx
  | createRaises h => exact ⟨hi.calls, fun hu => (by cases hu), fun hu => (by cases hu), fun hu => (by cases hu)⟩
  | handle hh hs => exact inTime_handle hi hk hh hs
  | @dispatch ok h =>
    have hca : DispatchedInTime { s with dispatches := ⟨s.held, s.done⟩ :: s.dispatches } := by
      intro d hd
      rcases mem_cons.1 hd with rfl | hd
      · exact ⟨hi.held (by rw [h]; rfl) (by simp [h]), hi.done (by rw [h]; rfl)⟩
      · exact hi.calls d hd
    cases ok <;> exact ⟨hca, fun hu => (by cases hu), fun hu => (by cases hu), fun hu => (by cases hu)⟩
  | @deliver e h =>
    refine ⟨hi.calls, hi.done, hi.held, fun hu x hx => ?_⟩
    rcases mem_append.1 hx with hx | hx
    · exact hi.early hu x (mem_append_left _ hx)
    · split at hx
      · rcases mem_cons.1 hx with rfl | hx
        · rfl
        · exact hth hu x hx
      · exact hth hu x hx
  | thread hx hs => exact inTime_thread hi hk hx hs
  | jobWrite | cancel | outside => exact ⟨hi.calls, hi.done, hi.held, hi.early⟩
  | cancelStep h hs =>
    cases hs with
    | write | missing | final | read | stale => exact ⟨hi.calls, hi.done, hi.held, hi.early⟩

/-- In every run in which the node is not deleted before the dispatch call,
`dispatch_fetch` is called only under the lock and only before `on_done`. -/
theorem dispatched_in_time {c : DownloadableContent} {as : List Label} {s : St}
    (h : exec step (start c) as = some s) (hk : Along step KeepsNode (start c) as) : DispatchedInTime s :=
  (exec_inv_along InTime (fun _ _ _ hi ha ht => inTime_step hi ha (moves_of_step ht)) (inTime_start c) hk h).calls

theorem dispatched_in_time_plain :
    ∃ s, exec step (start { src := "http://host/data.zip", path := "/data" }) plainRun = some s ∧
      DispatchedInTime s ∧ s.dispatches ≠ [] := by
  have hrun : ∃ s, exec step (start { src := "http://host/data.zip", path := "/data" }) plainRun = some s ∧
      s.dispatches ≠ [] := ⟨_, rfl, by decide⟩
  obtain ⟨s, h, hd⟩ := hrun
  exact ⟨s, h, dispatched_in_time h (by decide), hd⟩

def canceledEarly : List Label :=
  [.lock, .estimate (.ok ⟨10, 1, 10⟩), .run true, .cancel, .cancelStep .get, .cancelStep (.set initialData 0),
    .run true, .run true, .run true, .run true, .run true, .run true, .estimate (.ok ⟨10, 1, 10⟩), .run true]

/-- The job is dispatched after the canceled content was reported and its lock released. -/
theorem dispatched_after_cancel :
    ∃ s, exec step (start { src := "http://host/data.zip", path := "/data" }) canceledEarly = some s ∧
      (∀ a ∈ canceledEarly, a.calm = true ∧ a.exclusive = true) ∧ ¬ DispatchedInTime s := by
  refine ⟨_, rfl, by decide, fun h => ?_⟩
  have := (h _ mem_cons_self).1
  cases this

end BenchmarkAi.Downloads
