import BenchmarkAi.Lib.Tickets
import BenchmarkAi.Locks.Invariants
/-!
# The lock serves requests in sequence order

The protocol refines tickets served in order (`Lib.Tickets`): a request's
sequence number is its ticket, and it is admitted when `on_locked` is called.
Mutual exclusion comes from there. That no wakeup is lost is a matter of the
watches, and comes from the invariant of the protocol.
-/
open Lib

namespace BenchmarkAi.Locks

variable {dir : String} {s t : St}

/-! ## Tickets -/

def Pc.phase : Pc → Tickets.Phase
  | .granted => .holding
  | .released => .gone
  | _ => .waiting

def tickets (s : St) : Tickets.State Kind := fun r => (s.kind r).map fun k => (k, (s.pc r).phase)

variable {r : Nat} {k : Kind}

theorem tickets_some (h : s.kind r = some k) : tickets s r = some (k, (s.pc r).phase) := by
  simp [tickets, h]

theorem tickets_move (ph : Tickets.Phase) (hk : s.kind r = some k) (hki : t.kind = s.kind) (hpc : ∀ j, j ≠ r → t.pc j = s.pc j)
    (hr : (t.pc r).phase = ph) : tickets t = Function.update (tickets s) r (some (k, ph)) := by
  funext j
  by_cases e : j = r
  · rw [e, Function.update_self, tickets_some (hki ▸ hk), hr]
  · rw [Function.update_of_ne e]
    simp only [tickets, hki, hpc j e]

theorem tickets_same (hk : t.kind = s.kind) (hpc : ∀ j, j ≠ r → t.pc j = s.pc j) (hr : (t.pc r).phase = (s.pc r).phase) :
    tickets t = tickets s := by
  funext j
  by_cases e : j = r
  · simp only [tickets, hk, e, hr]
  · simp only [tickets, hk, hpc j e]

theorem served_of_free (hi : Inv dir s) (hk : s.kind r = some k) (hf : ∀ p ∈ s.nodes, ¬ Blocks dir s r p) :
    Tickets.Served Incompat (tickets s) r k := by
  intro r' hlt k' ph hr' hc
  obtain ⟨k'', hk'', he⟩ : ∃ k'', s.kind r' = some k'' ∧ (k'', (s.pc r').phase) = (k', ph) := by
    simpa [tickets] using hr'
  obtain ⟨rfl, rfl⟩ := Prod.mk.inj he
  by_cases hrel : s.pc r' = .released
  · rw [hrel]; rfl
  · exact absurd ⟨r', k, k'', hlt, hk, hk'', hc, rfl⟩ (hf _ (hi.live r' k'' hk'' hrel))

theorem tickets_step {a} (hi : Inv dir s) (ht : step dir s a = some t) :
    tickets t = tickets s ∨ Tickets.Step Incompat (tickets s) (tickets t) := by
  have hi' := inv_step hi ht
  cases a with
  | acquire k n =>
    have ha := acquired_of_step hi ht
    have hno : ∀ r, n ≤ r → tickets s r = none := by
      intro r hr
      cases hk : s.kind r with
      | none => simp [tickets, hk]
      | some k' => exact absurd (ha.older r k' hk) (Nat.not_lt.2 hr)
    have he : tickets t = Function.update (tickets s) n (some (k, .waiting)) := by
      funext j
      by_cases e : j = n
      · rw [e, Function.update_self, tickets_some ha.kind_new, ha.pc_new]
        rfl
      · rw [Function.update_of_ne e]
        simp only [tickets, ha.kind_of_ne e, ha.pc_of_ne e]
    rw [he]
    exact .inr (.arrive n k hno)
  | getChildren r cs =>
    obtain ⟨htop, -, rfl⟩ := step_getChildren ht
    refine .inl (tickets_same rfl (fun j hj => setPc_other s _ hj) ?_)
    rw [setPc_same, htop]; rfl
  | decide r =>
    obtain ⟨cs, k, pc, hg, hk, hd, ht⟩ := step_decide ht
    have hr : t.pc r = pc := by rw [ht]; exact setPc_same _ r _
    have hki : t.kind = s.kind := by rw [ht]; rfl
    have hn : t.nodes = s.nodes := by rw [ht]; rfl
    have hpc : ∀ j, j ≠ r → t.pc j = s.pc j := fun j hj => by rw [ht]; exact setPc_other _ _ hj
    have hs := decision_spec dir hk (hi.got r cs hg).1
    rw [← hd, ← hr] at hs
    rcases hs with ⟨hgr, -⟩ | ⟨p, hf, -⟩
    · -- what the new state knows of a granted request was true before it was granted
      have hfr : ∀ p ∈ s.nodes, ¬ Blocks dir s r p := fun p hp hb =>
        hi'.granted r (by rw [hgr]; rfl) p (hn ▸ hp) (by simpa only [Blocks, hki] using hb)
      have hw : tickets s r = some (k, .waiting) := by rw [tickets_some hk, hg]; rfl
      rw [tickets_move .holding hk hki hpc (by rw [hgr]; rfl)]
      exact .inr (.grant r k hw (served_of_free hi hk hfr))
    · exact .inl (tickets_same hki hpc (by rw [hf, hg]; rfl))
  | callExists r =>
    obtain ⟨p, hf, rfl⟩ := step_callExists ht
    refine .inl (tickets_same rfl (fun j hj => setPc_other s _ hj) ?_)
    rw [setPc_same, hf]; split <;> rfl
  | deliver r p =>
    obtain ⟨hm, rfl⟩ := step_deliver ht
    refine .inl (tickets_same rfl (fun j hj => setPc_other s _ hj) ?_)
    rw [setPc_same, waiting_of_fired hi hm]; rfl
  | release r =>
    obtain ⟨k, hd⟩ := released_of_step ht
    rw [tickets_move .gone hd.known hd.kind hd.others (by rw [hd.pc]; rfl)]
    exact .inr (.leave r k (by rw [tickets_some hd.known, hd.granted]; rfl))

/-- Every run of the protocol is a run of the tickets. -/
theorem tickets_reachable {as} (h : exec (step dir) init as = some s) : Tickets.Reachable Incompat (tickets s) :=
  exec_refines tickets (Tickets.Step Incompat) (Inv dir) (fun _ _ _ hi ht => inv_step hi ht)
    (fun _ _ _ hi ht => tickets_step hi ht) inv_init h

/-! ## Mutual exclusion -/

theorem mem_calls (hi : Inv dir s) : r ∈ s.calls ↔ (s.pc r).locked = true := by
  rw [← List.count_pos_iff, hi.calls]
  split <;> simp_all

theorem kind_of_locked (hi : Inv dir s) (h : (s.pc r).locked = true) : ∃ k, s.kind r = some k := by
  cases hk : s.kind r with
  | none => rw [hi.idle r hk] at h; simp [Pc.locked] at h
  | some k => exact ⟨k, rfl⟩

/-- A request that was called has everything incompatible before it released. -/
theorem released_before {r' k'} (hi : Inv dir s) (ho : Tickets.InOrder Incompat (tickets s)) (hr : r ∈ s.calls)
    (hlt : r' < r) (hk : s.kind r = some k) (hk' : s.kind r' = some k') (hc : Incompat k k') : s.pc r' = .released := by
  have hl := (mem_calls hi).1 hr
  have hph : (s.pc r).phase ≠ .waiting := by
    cases h : s.pc r <;> simp_all [Pc.locked, Pc.phase]
  have hg := ho r k _ (tickets_some hk) hph r' hlt k' _ (tickets_some hk') hc
  cases h : s.pc r' <;> simp_all [Pc.phase]

theorem not_mem_of_released (hi : Inv dir s) (h : s.pc r = .released) : nodePath dir k r ∉ s.nodes := by
  intro hm
  obtain ⟨j, kj, -, he, hj⟩ := hi.node _ hm
  exact hj ((nodePath_inj he).2 ▸ h)

/-- In every run, whenever `on_locked` has been called for a request, every earlier
incompatible request has been released and its node is deleted. So a writer that
holds the lock is alone. -/
theorem lock_in_sequence_order {as : List Label} (h : exec (step dir) init as = some s) :
    (∀ r ∈ s.calls, ∀ r' < r, ∀ k k', s.kind r = some k → s.kind r' = some k' → Incompat k k' →
      s.pc r' = .released ∧ nodePath dir k' r' ∉ s.nodes) ∧
    ∀ r r', s.pc r = .granted → s.kind r = some .write → s.pc r' = .granted → r' = r := by
  have hi := exec_inv_locks h
  have hre := tickets_reachable h
  have ho := Tickets.reachable_inOrder hre
  refine ⟨fun r hr r' hlt k k' hk hk' hc => ?_, fun r r' hr hk hr' => ?_⟩
  · have hrel := released_before hi ho hr hlt hk hk' hc
    exact ⟨hrel, not_mem_of_released hi hrel⟩
  · obtain ⟨k', hk'⟩ := kind_of_locked hi (r := r') (by rw [hr']; rfl)
    have h1 : tickets s r = some (.write, .holding) := by rw [tickets_some hk, hr]; rfl
    have h2 : tickets s r' = some (k', .holding) := by rw [tickets_some hk', hr']; rfl
    exact Tickets.reachable_exclusive (fun _ _ => incompat_symm) hre h2 h1 (.inr rfl)

def threeRequests : List Label :=
  [.acquire .write 0, .acquire .write 1, .acquire .read 4,
    .getChildren 0 [childName .write 0, childName .write 1, childName .read 4], .decide 0,
    .getChildren 1 [childName .write 0, childName .write 1, childName .read 4], .decide 1, .callExists 1,
    .release 0, .deliver 1 (nodePath "/locks/a" .write 0),
    .getChildren 1 [childName .read 4, childName .write 1], .decide 1]

theorem lock_in_sequence_order_three : ∃ s, exec (step "/locks/a") init threeRequests = some s ∧ 1 ∈ s.calls ∧
    s.pc 0 = .released ∧ nodePath "/locks/a" .write 0 ∉ s.nodes := by
  have hrun : ∃ s, exec (step "/locks/a") init threeRequests = some s ∧ 1 ∈ s.calls ∧
      s.kind 1 = some .write ∧ s.kind 0 = some .write := ⟨_, rfl, by decide, rfl, rfl⟩
  obtain ⟨s, h, hc, h1, h0⟩ := hrun
  exact ⟨s, h, hc, (lock_in_sequence_order h).1 1 hc 0 (by decide) _ _ h1 h0 (.inl rfl)⟩

/-! ## No lost wakeup -/

def WatchesOne (dir : String) (s : St) (r : Nat) : Prop :=
  ∃ p ∈ s.nodes, Blocks dir s r p ∧ (s.watches.filter fun w => w.1 = r ∧ w.2 ∈ s.nodes) = [(r, p)] ∧
    (s.fired.filter fun w => w.1 = r) = []

def NotifiedOne (dir : String) (s : St) (r : Nat) : Prop :=
  ∃ p, p ∉ s.nodes ∧ Blocks dir s r p ∧ (s.fired.filter fun w => w.1 = r) = [(r, p)] ∧
    (s.watches.filter fun w => w.1 = r ∧ w.2 ∈ s.nodes) = []

def Quiescent (s : St) : Prop := (∀ r, (s.pc r).looping = false) ∧ s.fired = []

theorem length_one_of_filter {l : List (Nat × String)} {q} (hq : ∀ w, q w = true → w.1 = r)
    (h : (l.filter q).length = 1) : ∃ p, l.filter q = [(r, p)] ∧ (r, p) ∈ l ∧ q (r, p) = true := by
  obtain ⟨w, hw⟩ := List.length_eq_one_iff.1 h
  have hm : w ∈ l.filter q := by rw [hw]; exact List.mem_cons_self
  obtain ⟨hl, hqw⟩ := List.mem_filter.1 hm
  obtain ⟨r', p⟩ := w
  obtain rfl : r' = r := hq _ hqw
  exact ⟨p, hw, hl, hqw⟩

/-- A request that waits has exactly one thing that wakes it up. -/
theorem wakeup_of_waiting (hi : Inv dir s) (hw : s.pc r = .waiting) : WatchesOne dir s r ∨ NotifiedOne dir s r := by
  have ha : (s.watches.filter fun w => w.1 = r ∧ w.2 ∈ s.nodes).length +
      (s.fired.filter fun w => w.1 = r).length = 1 := by
    have := hi.alarms r
    rwa [if_pos hw] at this
  by_cases h0 : (s.fired.filter fun w => w.1 = r).length = 0
  · obtain ⟨p, he, hm, hq⟩ := length_one_of_filter (l := s.watches) (r := r)
      (q := fun w => w.1 = r ∧ w.2 ∈ s.nodes) (fun w hq => by simp at hq; exact hq.1) (by omega)
    exact .inl ⟨p, by simpa using hq, hi.watch _ hm, he, List.length_eq_zero_iff.1 h0⟩
  · obtain ⟨p, he, hm, -⟩ := length_one_of_filter (l := s.fired) (r := r) (q := fun w => w.1 = r)
      (fun w hq => by simpa using hq) (by omega)
    obtain ⟨hb, hn⟩ := hi.notice _ hm
    exact .inr ⟨p, hn, hb, he, List.length_eq_zero_iff.1 (by omega)⟩

theorem looping_or_waiting (hi : Inv dir s) (hk : s.kind r = some k) (hr : r ∉ s.calls) :
    (s.pc r).looping = true ∨ s.pc r = .waiting := by
  have hl : (s.pc r).locked = false := by
    rw [mem_calls hi] at hr
    simpa using hr
  have hs := hi.sound r k hk
  cases h : s.pc r <;> simp_all [Pc.looping, Pc.locked]

/-- Once nothing moves, a request that was not granted still has a node before it. -/
theorem blocked_of_quiescent (hi : Inv dir s) (hq : Quiescent s) (hk : s.kind r = some k) (hr : r ∉ s.calls) :
    ∃ p ∈ s.nodes, Blocks dir s r p := by
  rcases looping_or_waiting hi hk hr with hl | hw
  · rw [hq.1 r] at hl; cases hl
  · rcases wakeup_of_waiting hi hw with ⟨p, hp, hb, -⟩ | ⟨p, -, -, hf, -⟩
    · exact ⟨p, hp, hb⟩
    · rw [hq.2] at hf; simp at hf

/-- In every run `on_locked` is called at most once for each request. A request
that has not been called is in its loop, or watches one existing node that blocks
it, or is about to be notified that such a node is gone. So once nothing moves,
the requests that were called are those with no node left that blocks them. -/
theorem lock_no_lost_wakeup {as : List Label} (h : exec (step dir) init as = some s) : (∀ r, s.calls.count r ≤ 1) ∧
    (∀ r k, s.kind r = some k → r ∉ s.calls → (s.pc r).looping = true ∨ WatchesOne dir s r ∨ NotifiedOne dir s r) ∧
    (Quiescent s → ∀ r k, s.kind r = some k → (r ∈ s.calls ↔ ∀ p ∈ s.nodes, ¬ Blocks dir s r p)) := by
  have hi := exec_inv_locks h
  refine ⟨fun r => ?_, fun r k hk hr => ?_, fun hq r k hk => ⟨fun hr => ?_, fun hf => ?_⟩⟩
  · rw [hi.calls]; split <;> omega
  · exact (looping_or_waiting hi hk hr).imp_right (wakeup_of_waiting hi)
  · exact hi.granted r ((mem_calls hi).1 hr)
  · by_contra hr
    obtain ⟨p, hp, hb⟩ := blocked_of_quiescent hi hq hk hr
    exact hf p hp hb

def twoWriters : List Label :=
  [.acquire .write 0, .acquire .write 1, .getChildren 0 [childName .write 0, childName .write 1], .decide 0,
    .getChildren 1 [childName .write 1, childName .write 0], .decide 1, .callExists 1]

theorem lock_no_lost_wakeup_two : ∃ s, exec (step "/locks/a") init twoWriters = some s ∧ Quiescent s ∧
    (0 ∈ s.calls ↔ ∀ p ∈ s.nodes, ¬ Blocks "/locks/a" s 0 p) ∧
    (1 ∈ s.calls ↔ ∀ p ∈ s.nodes, ¬ Blocks "/locks/a" s 1 p) ∧ 0 ∈ s.calls ∧ 1 ∉ s.calls := by
  have hrun : ∃ s, exec (step "/locks/a") init twoWriters = some s ∧ s.fired = [] ∧ s.calls = [0] ∧
      s.kind 0 = some .write ∧ s.kind 1 = some .write ∧
      s.pc = Function.update (Function.update init.pc 0 .granted) 1 .waiting := by
    refine ⟨_, rfl, rfl, by decide, rfl, rfl, ?_⟩
    funext r
    match r with
    | 0 => rfl
    | 1 => rfl
    | r + 2 => simp [init, St.setPc, St.fire]
  obtain ⟨s, h, hf, hc, h0, h1, hpc⟩ := hrun
  have hq : Quiescent s := by
    refine ⟨fun r => ?_, hf⟩
    rw [hpc, Function.update_apply, Function.update_apply]
    split
    · rfl
    · split <;> rfl
  have hw := (lock_no_lost_wakeup h).2.2 hq
  exact ⟨s, h, hq, hw 0 _ h0, hw 1 _ h1, by simp [hc], by simp [hc]⟩

/-! ## No deadlock -/

/-- Once nothing moves, a request that was not granted waits for one that holds the lock. -/
theorem holder_of_quiescent {as} (h : exec (step dir) init as = some s) (hq : Quiescent s) :
    ∀ r k, s.kind r = some k → r ∉ s.calls → ∃ r' < r, s.pc r' = .granted := by
  have hi := exec_inv_locks h
  intro r
  -- the request that blocks `r` is granted, or is itself blocked by an earlier one
  induction r using Nat.strong_induction_on with
  | _ r ih =>
    intro k hk hr
    obtain ⟨p, hp, r', -, k', hlt, -, hk', -, rfl⟩ := blocked_of_quiescent hi hq hk hr
    obtain ⟨j, kj, -, he, hj⟩ := hi.node _ hp
    obtain rfl := (nodePath_inj he).2
    by_cases hr' : r' ∈ s.calls
    · have hl := (mem_calls hi).1 hr'
      refine ⟨r', hlt, ?_⟩
      cases hpc : s.pc r' <;> simp_all [Pc.locked]
    · obtain ⟨j, hjlt, hg⟩ := ih r' hlt k' hk' hr'
      exact ⟨j, Nat.lt_trans hjlt hlt, hg⟩

theorem holder_of_quiescent_two : ∃ s, exec (step "/locks/a") init twoWriters = some s ∧ ∃ r < 1, s.pc r = .granted := by
  obtain ⟨s, h, hq, hk, hc⟩ : ∃ s, exec (step "/locks/a") init twoWriters = some s ∧ Quiescent s ∧
      s.kind 1 = some .write ∧ 1 ∉ s.calls := by
    refine ⟨_, rfl, ⟨fun r => ?_, rfl⟩, rfl, by decide⟩
    match r with
    | 0 => rfl
    | 1 => rfl
    | r + 2 => simp [init, St.setPc, St.fire, Pc.looping]
  exact ⟨s, h, holder_of_quiescent h hq 1 _ hk hc⟩

end BenchmarkAi.Locks
