import BenchmarkAi.Locks.Loop
/-!
# What holds in every reachable state of the lock

`Inv` ties the loop of each request to the nodes, the watches and the
notifications: a request that waits has exactly one thing that will wake it up,
no other request has any, and whatever a request has found or been granted is
still right, since nodes that come later are never before it.
-/
open Lib List

namespace BenchmarkAi.Locks

variable {dir : String} {s t : St}

/-- `p` is the node of a request before `r` that is incompatible with it. -/
def Blocks (dir : String) (s : St) (r : Nat) (p : String) : Prop :=
  ∃ r' k k', r' < r ∧ s.kind r = some k ∧ s.kind r' = some k' ∧ Incompat k k' ∧ p = nodePath dir k' r'

/-- What will wake `r` up: its watches on existing nodes and its undelivered
notifications. -/
def alarms (s : St) (r : Nat) : Nat :=
  (s.watches.filter fun w => w.1 = r ∧ w.2 ∈ s.nodes).length + (s.fired.filter fun w => w.1 = r).length

structure Inv (dir : String) (s : St) : Prop where
  known : ∀ r k, s.kind r = some k → r < s.next
  idle : ∀ r, s.kind r = none → s.pc r = .idle
  node : ∀ p ∈ s.nodes, ∃ r k, s.kind r = some k ∧ p = nodePath dir k r ∧ s.pc r ≠ .released
  live : ∀ r k, s.kind r = some k → s.pc r ≠ .released → nodePath dir k r ∈ s.nodes
  got : ∀ r cs, s.pc r = .got cs → (∀ c ∈ cs, ∃ r' k', s.kind r' = some k' ∧ c = childName k' r') ∧
    ∀ p ∈ s.nodes, Blocks dir s r p → ∃ c ∈ cs, p = absPath dir c
  found : ∀ r p, s.pc r = .found p → Blocks dir s r p
  granted : ∀ r, (s.pc r).locked = true → ∀ p ∈ s.nodes, ¬ Blocks dir s r p
  watch : ∀ w ∈ s.watches, Blocks dir s w.1 w.2
  notice : ∀ w ∈ s.fired, Blocks dir s w.1 w.2 ∧ w.2 ∉ s.nodes
  alarms : ∀ r, alarms s r = if s.pc r = .waiting then 1 else 0
  calls : ∀ r, s.calls.count r = if (s.pc r).locked then 1 else 0
  sound : ∀ r k, s.kind r = some k → s.pc r ≠ .idle ∧ s.pc r ≠ .raised

theorem inv_init : Inv dir init where
  known r k h := by simp [init] at h
  idle r _ := rfl
  node p h := by simp [init] at h
  live r k h := by simp [init] at h
  got r cs h := by simp [init] at h
  found r p h := by simp [init] at h
  granted r h := by simp [init, Pc.locked] at h
  watch w h := by simp [init] at h
  notice w h := by simp [init] at h
  alarms r := by simp [init, Locks.alarms]
  calls r := by simp [init, Pc.locked]
  sound r k h := by simp [init] at h

variable {p : String} {j : Nat} {cs : List String}

theorem Blocks.known {r} (h : Blocks dir s r p) : ∃ k, s.kind r = some k := by
  obtain ⟨-, k, -, -, hk, -⟩ := h
  exact ⟨k, hk⟩

theorem setPc_same (s : St) (r : Nat) (pc : Pc) : (s.setPc r pc).pc r = pc := by simp [St.setPc]

theorem setPc_other (s : St) {r} (pc : Pc) (h : j ≠ r) : (s.setPc r pc).pc j = s.pc j := by
  simp [St.setPc, h]

theorem fire_eq_self {path} (h : ∀ w ∈ s.watches, w.2 ≠ path) : s.fire path = s := by
  have h1 : s.watches.filter (fun w => w.2 ≠ path) = s.watches :=
    filter_eq_self.2 fun w hw => by simpa using h w hw
  have h2 : s.watches.filter (fun w => w.2 = path) = [] :=
    filter_eq_nil_iff.2 fun w hw => by simpa using h w hw
  simp only [St.fire, h1, h2, append_nil]

/-! ## What a step does -/

theorem step_acquire {k n} (ht : step dir s (.acquire k n) = some t) :
    s.next ≤ n ∧ t = { ((s.fire (nodePath dir k n)).setPc n .top) with
      next := n + 1
      nodes := s.nodes ++ [nodePath dir k n]
      kind := Function.update s.kind n (some k) } := by
  by_cases hn : s.next ≤ n
  · simp only [step, if_pos hn, Option.some.injEq] at ht
    exact ⟨hn, ht.symm⟩
  · simp [step, hn] at ht

theorem step_getChildren {r} (ht : step dir s (.getChildren r cs) = some t) :
    s.pc r = .top ∧ (cs.map (absPath dir)).Perm s.nodes ∧ t = s.setPc r (.got cs) := by
  by_cases hg : s.pc r = .top ∧ (cs.map (absPath dir)).isPerm s.nodes
  · simp only [step, if_pos hg, Option.some.injEq] at ht
    exact ⟨hg.1, isPerm_iff.1 hg.2, ht.symm⟩
  · simp only [step, if_neg hg, reduceCtorEq] at ht

theorem step_decide {r} (ht : step dir s (.decide r) = some t) :
    ∃ cs k pc, s.pc r = .got cs ∧ s.kind r = some k ∧ pc = decision dir k (nodePath dir k r) cs ∧
      t = { (s.setPc r pc) with calls := if pc = .granted then r :: s.calls else s.calls } := by
  obtain ⟨cs, hcs⟩ : ∃ cs, s.pc r = .got cs := by
    cases h : s.pc r <;> simp_all [step]
  obtain ⟨k, hk⟩ : ∃ k, s.kind r = some k := by
    cases h : s.kind r <;> simp_all [step]
  simp only [step, hcs, hk, Option.some.injEq] at ht
  exact ⟨cs, k, _, hcs, hk, rfl, ht.symm⟩

theorem step_callExists {r} (ht : step dir s (.callExists r) = some t) :
    ∃ p, s.pc r = .found p ∧ t = { (s.setPc r (if p ∈ s.nodes then .waiting else .top)) with
      watches := s.watches ++ [(r, p)] } := by
  obtain ⟨p, hp⟩ : ∃ p, s.pc r = .found p := by
    cases h : s.pc r <;> simp_all [step]
  simp only [step, hp, Option.some.injEq] at ht
  exact ⟨p, hp, ht.symm⟩

theorem step_deliver {r} (ht : step dir s (.deliver r p) = some t) :
    (r, p) ∈ s.fired ∧ t = { (s.setPc r .top) with fired := s.fired.erase (r, p) } := by
  by_cases hm : (r, p) ∈ s.fired
  · simp only [step, if_pos hm, Option.some.injEq] at ht
    exact ⟨hm, ht.symm⟩
  · simp [step, hm] at ht

theorem step_release {r} (ht : step dir s (.release r) = some t) :
    ∃ k, s.pc r = .granted ∧ s.kind r = some k ∧ t = { ((s.fire (nodePath dir k r)).setPc r .released) with
      nodes := s.nodes.filter (· ≠ nodePath dir k r) } := by
  have hg : s.pc r = .granted := by
    cases h : s.pc r <;> simp_all [step]
  obtain ⟨k, hk⟩ : ∃ k, s.kind r = some k := by
    cases h : s.kind r <;> simp_all [step]
  simp only [step, hg, hk, Option.some.injEq] at ht
  exact ⟨k, hg, hk, ht.symm⟩

/-! ## A new request -/

structure Acquired (dir : String) (s t : St) (k : Kind) (n : Nat) : Prop where
  older : ∀ r kr, s.kind r = some kr → r < n
  kind : ∀ r, t.kind r = if r = n then some k else s.kind r
  pc : ∀ r, t.pc r = if r = n then .top else s.pc r
  next : t.next = n + 1
  nodes : t.nodes = s.nodes ++ [nodePath dir k n]
  watches : t.watches = s.watches
  fired : t.fired = s.fired
  calls : t.calls = s.calls

theorem not_blocks_new {r n k} (ho : ∀ r kr, s.kind r = some kr → r < n) :
    ¬ Blocks dir s r (nodePath dir k n) := by
  rintro ⟨r', kr, k', -, -, hk', -, hp⟩
  have hlt := ho r' k' hk'
  have heq := (nodePath_inj hp).2
  omega

theorem acquired_of_step {k n} (hi : Inv dir s) (ht : step dir s (.acquire k n) = some t) :
    Acquired dir s t k n := by
  obtain ⟨hn, ht⟩ := step_acquire ht
  have ho : ∀ r kr, s.kind r = some kr → r < n := fun r kr hk => Nat.lt_of_lt_of_le (hi.known r kr hk) hn
  -- so no watch is on the new node, and none fires
  rw [fire_eq_self fun w hw e => not_blocks_new ho (e ▸ hi.watch w hw)] at ht
  subst ht
  exact ⟨ho, fun r => by simp [Function.update_apply], fun r => by simp [St.setPc, Function.update_apply],
    rfl, rfl, rfl, rfl, rfl⟩

namespace Acquired

variable {k : Kind} {n : Nat} (ha : Acquired dir s t k n)

include ha

theorem fresh : s.kind n = none := by
  cases hk : s.kind n with
  | none => rfl
  | some k' => exact absurd (ha.older n k' hk) (Nat.lt_irrefl n)

theorem kind_of_ne {r} (hr : r ≠ n) : t.kind r = s.kind r := by rw [ha.kind, if_neg hr]

theorem pc_of_ne {r} (hr : r ≠ n) : t.pc r = s.pc r := by rw [ha.pc, if_neg hr]

theorem kind_new : t.kind n = some k := by rw [ha.kind, if_pos rfl]

theorem pc_new : t.pc n = .top := by rw [ha.pc, if_pos rfl]

theorem kind_old {r kr} (hk : s.kind r = some kr) : r ≠ n ∧ t.kind r = some kr := by
  have hr : r ≠ n := Nat.ne_of_lt (ha.older r kr hk)
  exact ⟨hr, by rw [ha.kind_of_ne hr, hk]⟩

theorem mem_nodes : p ∈ t.nodes ↔ p ∈ s.nodes ∨ p = nodePath dir k n := by
  rw [ha.nodes, mem_append, mem_singleton]

theorem blocks_iff {r} (hr : r ≠ n) : Blocks dir t r p ↔ Blocks dir s r p := by
  constructor
  · rintro ⟨r', kr, k', hlt, hk, hk', hinc, hp⟩
    rw [ha.kind_of_ne hr] at hk
    have hr' : r' ≠ n := Nat.ne_of_lt (Nat.lt_trans hlt (ha.older r kr hk))
    rw [ha.kind_of_ne hr'] at hk'
    exact ⟨r', kr, k', hlt, hk, hk', hinc, hp⟩
  · rintro ⟨r', kr, k', hlt, hk, hk', hinc, hp⟩
    exact ⟨r', kr, k', hlt, (ha.kind_old hk).2, (ha.kind_old hk').2, hinc, hp⟩

theorem blocks_old {r} (hb : Blocks dir s r p) : Blocks dir t r p := by
  obtain ⟨kr, hk⟩ := hb.known
  exact (ha.blocks_iff (ha.kind_old hk).1).2 hb

theorem mem_of_blocks {r} (hp : p ∈ t.nodes) (hb : Blocks dir s r p) : p ∈ s.nodes := by
  rcases ha.mem_nodes.1 hp with hp | rfl
  · exact hp
  · exact absurd hb (not_blocks_new ha.older)

theorem alarms_eq (hi : Inv dir s) (r : Nat) : alarms t r = alarms s r := by
  unfold alarms
  rw [ha.watches, ha.fired]
  congr 2
  refine filter_congr fun w hw => ?_
  have hne : w.2 ≠ nodePath dir k n := fun e => not_blocks_new ha.older (e ▸ hi.watch w hw)
  simp [ha.mem_nodes, hne]

end Acquired

theorem inv_acquire {k n} (hi : Inv dir s) (ht : step dir s (.acquire k n) = some t) : Inv dir t := by
  have ha := acquired_of_step hi ht
  have hid : s.pc n = .idle := hi.idle n ha.fresh
  refine ⟨?known, ?idle, ?node, ?live, ?got, ?found, ?granted, ?watch, ?notice, ?alarms, ?calls, ?sound⟩
  case known =>
    intro r kr hk
    by_cases hr : r = n
    · rw [hr, ha.next]
      exact Nat.lt_succ_self n
    · rw [ha.kind_of_ne hr] at hk
      rw [ha.next]
      exact Nat.lt_succ_of_lt (ha.older r kr hk)
  case idle =>
    intro r hk
    have hr : r ≠ n := fun e => by rw [e, ha.kind_new] at hk; cases hk
    rw [ha.kind_of_ne hr] at hk
    rw [ha.pc_of_ne hr]
    exact hi.idle r hk
  case node =>
    intro p hp
    rcases ha.mem_nodes.1 hp with hp | rfl
    · obtain ⟨r, kr, hk, hpr, hrel⟩ := hi.node p hp
      obtain ⟨hr, hk⟩ := ha.kind_old hk
      exact ⟨r, kr, hk, hpr, by rw [ha.pc_of_ne hr]; exact hrel⟩
    · exact ⟨n, k, ha.kind_new, rfl, by rw [ha.pc_new]; simp⟩
  case live =>
    intro r kr hk hrel
    refine ha.mem_nodes.2 ?_
    by_cases hr : r = n
    · rw [hr, ha.kind_new, Option.some.injEq] at hk
      exact .inr (by rw [hr, hk])
    · rw [ha.kind_of_ne hr] at hk
      rw [ha.pc_of_ne hr] at hrel
      exact .inl (hi.live r kr hk hrel)
  case got =>
    intro r cs hg
    have hr : r ≠ n := fun e => by rw [e, ha.pc_new] at hg; cases hg
    rw [ha.pc_of_ne hr] at hg
    obtain ⟨hn, hall⟩ := hi.got r cs hg
    refine ⟨fun c hc => ?_, fun p hp hb => ?_⟩
    · obtain ⟨r', k', hk', e⟩ := hn c hc
      exact ⟨r', k', (ha.kind_old hk').2, e⟩
    · have hb := (ha.blocks_iff hr).1 hb
      exact hall p (ha.mem_of_blocks hp hb) hb
  case found =>
    intro r p hf
    have hr : r ≠ n := fun e => by rw [e, ha.pc_new] at hf; cases hf
    rw [ha.pc_of_ne hr] at hf
    exact ha.blocks_old (hi.found r p hf)
  case granted =>
    intro r hl p hp hb
    have hr : r ≠ n := fun e => by rw [e, ha.pc_new] at hl; cases hl
    rw [ha.pc_of_ne hr] at hl
    have hb := (ha.blocks_iff hr).1 hb
    exact hi.granted r hl p (ha.mem_of_blocks hp hb) hb
  case watch =>
    intro w hw
    rw [ha.watches] at hw
    exact ha.blocks_old (hi.watch w hw)
  case notice =>
    intro w hw
    rw [ha.fired] at hw
    obtain ⟨hb, hgo⟩ := hi.notice w hw
    exact ⟨ha.blocks_old hb, fun hp => hgo (ha.mem_of_blocks hp hb)⟩
  case alarms =>
    intro r
    rw [ha.alarms_eq hi, hi.alarms]
    by_cases hr : r = n
    · rw [hr, ha.pc_new, hid]
      rfl
    · rw [ha.pc_of_ne hr]
  case calls =>
    intro r
    rw [ha.calls, hi.calls]
    by_cases hr : r = n
    · rw [hr, ha.pc_new, hid]
      rfl
    · rw [ha.pc_of_ne hr]
  case sound =>
    intro r kr hk
    by_cases hr : r = n
    · rw [hr, ha.pc_new]
      exact ⟨by simp, by simp⟩
    · rw [ha.kind_of_ne hr] at hk
      rw [ha.pc_of_ne hr]
      exact hi.sound r kr hk

/-! ## The loop -/

/-- A step of the loop of `r`: the nodes and the other requests stay as they are. -/
theorem inv_loop {r} (hi : Inv dir s) (hne : t.next = s.next) (hki : t.kind = s.kind)
    (hn : t.nodes = s.nodes) (hpc : ∀ j, j ≠ r → t.pc j = s.pc j) (hid : s.pc r ≠ .idle)
    (hrel : s.pc r ≠ .released) (hrel' : t.pc r ≠ .released)
    (hgot : ∀ cs, t.pc r = .got cs → (∀ c ∈ cs, ∃ r' k', s.kind r' = some k' ∧ c = childName k' r') ∧
      ∀ p ∈ s.nodes, Blocks dir s r p → ∃ c ∈ cs, p = absPath dir c)
    (hfo : ∀ p, t.pc r = .found p → Blocks dir s r p)
    (hgr : t.pc r = .granted → ∀ p ∈ s.nodes, ¬ Blocks dir s r p)
    (hwa : ∀ w ∈ t.watches, Blocks dir s w.1 w.2)
    (hno : ∀ w ∈ t.fired, Blocks dir s w.1 w.2 ∧ w.2 ∉ s.nodes)
    (hal : ∀ j, alarms t j = if t.pc j = .waiting then 1 else 0)
    (hc : ∀ j, t.calls.count j = if (t.pc j).locked then 1 else 0) (hs : t.pc r ≠ .idle ∧ t.pc r ≠ .raised) :
    Inv dir t := by
  have hb : ∀ j p, Blocks dir t j p ↔ Blocks dir s j p := fun j p => by simp only [Blocks, hki]
  refine ⟨?_, ?_, ?_, ?_, ?_, ?_, ?_, ?_, ?_, hal, hc, ?_⟩
  · rw [hne, hki]; exact hi.known
  · intro j hj
    rw [hki] at hj
    by_cases e : j = r
    · exact absurd (hi.idle r (e ▸ hj)) hid
    · rw [hpc j e]; exact hi.idle j hj
  · intro p hp
    rw [hn] at hp
    obtain ⟨j, k, hk, he, hj⟩ := hi.node p hp
    refine ⟨j, k, by rw [hki, hk], he, ?_⟩
    by_cases e : j = r
    · rw [e]; exact hrel'
    · rw [hpc j e]; exact hj
  · intro j k hk hj
    rw [hki] at hk
    rw [hn]
    by_cases e : j = r
    · exact hi.live j k hk (e ▸ hrel)
    · rw [hpc j e] at hj; exact hi.live j k hk hj
  · intro j cs hg
    rw [hn, hki]
    simp only [hb]
    by_cases e : j = r
    · subst e; exact hgot cs hg
    · rw [hpc j e] at hg; exact hi.got j cs hg
  · intro j p hf
    rw [hb]
    by_cases e : j = r
    · subst e; exact hfo p hf
    · rw [hpc j e] at hf; exact hi.found j p hf
  · intro j hl p hp
    rw [hn] at hp
    rw [hb]
    by_cases e : j = r
    · subst e
      have hg : t.pc j = .granted := by
        cases h : t.pc j <;> simp_all [Pc.locked]
      exact hgr hg p hp
    · rw [hpc j e] at hl; exact hi.granted j hl p hp
  · intro w hw; rw [hb]; exact hwa w hw
  · intro w hw; rw [hb, hn]; exact hno w hw
  · intro j k hk
    rw [hki] at hk
    by_cases e : j = r
    · rw [e]; exact hs
    · rw [hpc j e]; exact hi.sound j k hk

theorem alarms_of_same {r} (hi : Inv dir s) (hpc : ∀ j, j ≠ r → t.pc j = s.pc j) (hs : s.pc r ≠ .waiting)
    (ht : t.pc r ≠ .waiting) (ha : ∀ j, alarms t j = alarms s j) (j : Nat) :
    alarms t j = if t.pc j = .waiting then 1 else 0 := by
  rw [ha, hi.alarms]
  by_cases e : j = r
  · subst e; rw [if_neg hs, if_neg ht]
  · rw [hpc j e]

theorem calls_of_same {r} (hi : Inv dir s) (hpc : ∀ j, j ≠ r → t.pc j = s.pc j)
    (hl : (t.pc r).locked = (s.pc r).locked) (hc : t.calls = s.calls) (j : Nat) :
    t.calls.count j = if (t.pc j).locked then 1 else 0 := by
  rw [hc, hi.calls]
  by_cases e : j = r
  · subst e; rw [hl]
  · rw [hpc j e]

theorem inv_getChildren {r} (hi : Inv dir s) (ht : step dir s (.getChildren r cs) = some t) : Inv dir t := by
  obtain ⟨htop, hp, rfl⟩ := step_getChildren ht
  have hr : (s.setPc r (.got cs)).pc r = .got cs := setPc_same s r _
  refine inv_loop hi rfl rfl rfl (fun j hj => setPc_other s _ hj) ?_ ?_ ?_ ?_ ?_ ?_ hi.watch hi.notice ?_ ?_ ?_
  · simp [htop]
  · simp [htop]
  · simp [hr]
  · intro cs' hcs'
    rw [hr, Pc.got.injEq] at hcs'
    subst hcs'
    refine ⟨fun c hc => ?_, fun p hpn _ => ?_⟩
    · obtain ⟨j, k, hk, he, -⟩ := hi.node (absPath dir c) (hp.subset (mem_map_of_mem hc))
      exact ⟨j, k, hk, absPath_inj he⟩
    · obtain ⟨c, hc, rfl⟩ := mem_map.1 (hp.symm.subset hpn)
      exact ⟨c, hc, rfl⟩
  · simp [hr]
  · simp [hr]
  · exact alarms_of_same hi (fun j hj => setPc_other s _ hj) (by simp [htop]) (by simp [hr]) fun _ => rfl
  · exact calls_of_same hi (fun j hj => setPc_other s _ hj) (by simp [hr, htop, Pc.locked]) rfl
  · simp [hr]

/-- On names of lock nodes the list comprehension does not raise, and keeps
exactly the incompatible locks before the index. -/
theorem locksBefore_spec (k : Kind) (n : Nat) (cs : List String) (h : ∀ c ∈ cs, ∃ r k', c = childName k' r) :
    ∃ l, locksBefore (isIncompat k) n cs = some l ∧ l ⊆ cs ∧
      ∀ r k', childName k' r ∈ l ↔ childName k' r ∈ cs ∧ r < n ∧ Incompat k k' := by
  have hall : (cs.all fun c => (getSequenceIndex c).isSome) = true := all_eq_true.2 fun c hc => by
    obtain ⟨r, k', rfl⟩ := h c hc
    rw [getSequenceIndex_childName]; rfl
  refine ⟨earlierLocks (isIncompat k) n cs, by rw [locksBefore_eq, if_pos hall], fun _ => mem_of_mem_filter, fun r k' => ?_⟩
  simp [earlierLocks, getSequenceIndex_childName, isIncompat_childName]

/-- The loop grants the lock when no child blocks it, and otherwise goes on with
some child that does. -/
theorem decision_spec (dir : String) {r k} (hk : s.kind r = some k)
    (h : ∀ c ∈ cs, ∃ r' k', s.kind r' = some k' ∧ c = childName k' r') :
    (decision dir k (nodePath dir k r) cs = .granted ∧ ∀ c ∈ cs, ¬ Blocks dir s r (absPath dir c)) ∨
    ∃ p, decision dir k (nodePath dir k r) cs = .found p ∧ Blocks dir s r p := by
  obtain ⟨l, hl, hsub, hm⟩ := locksBefore_spec k r cs fun c hc => by
    obtain ⟨r', k', -, e⟩ := h c hc
    exact ⟨r', k', e⟩
  simp only [decision, getSequenceIndex_nodePath, hl]
  cases l with
  | nil =>
    refine .inl ⟨rfl, ?_⟩
    rintro c hc ⟨r', kr, k', hlt, hkr, -, hinc, hp⟩
    have hkr : kr = k := by rw [hk] at hkr; exact (Option.some.inj hkr).symm
    subst hkr
    have := (hm r' k').2 ⟨absPath_inj hp ▸ hc, hlt, hinc⟩
    cases this
  | cons c l =>
    obtain ⟨r', k', hk', rfl⟩ := h c (hsub mem_cons_self)
    obtain ⟨-, hlt, hinc⟩ := (hm r' k').1 mem_cons_self
    exact .inr ⟨_, rfl, r', k, k', hlt, hk, hk', hinc, rfl⟩

theorem inv_decide {r} (hi : Inv dir s) (ht : step dir s (.decide r) = some t) : Inv dir t := by
  obtain ⟨cs, k, pc, hcs, hk, hd, ht⟩ := step_decide ht
  obtain ⟨hn, hall⟩ := hi.got r cs hcs
  have hr : t.pc r = pc := by rw [ht]; exact setPc_same s r _
  have hpc : ∀ j, j ≠ r → t.pc j = s.pc j := fun j hj => by rw [ht]; exact setPc_other _ _ hj
  have hca : t.calls = if t.pc r = .granted then r :: s.calls else s.calls := by rw [hr, ht]
  have hs := decision_spec dir hk hn
  rw [← hd, ← hr] at hs
  have hrw : t.pc r ≠ .waiting ∧ t.pc r ≠ .released ∧ t.pc r ≠ .idle ∧ t.pc r ≠ .raised := by
    rcases hs with ⟨h, -⟩ | ⟨p, h, -⟩ <;> rw [h] <;> simp
  refine inv_loop hi (r := r) (by rw [ht]; rfl) (by rw [ht]; rfl) (by rw [ht]; rfl) hpc ?_ ?_ hrw.2.1 ?_ ?_ ?_ ?_
    ?_ ?_ ?_ hrw.2.2
  · simp [hcs]
  · simp [hcs]
  · intro cs' h'
    rcases hs with ⟨h, -⟩ | ⟨p, h, -⟩ <;> rw [h] at h' <;> cases h'
  · intro p' h'
    rcases hs with ⟨h, -⟩ | ⟨p, h, hb⟩ <;> rw [h] at h' <;> cases h'
    exact hb
  · intro hg p hp hb
    rcases hs with ⟨-, hno⟩ | ⟨p', h, -⟩
    · -- a blocking node that still exists was among the children
      obtain ⟨c, hc, rfl⟩ := hall p hp hb
      exact hno c hc hb
    · rw [h] at hg; cases hg
  · rw [ht]; exact hi.watch
  · rw [ht]; exact hi.notice
  · exact alarms_of_same hi hpc (by simp [hcs]) hrw.1 fun j => by rw [ht]; rfl
  · intro j
    rw [hca]
    by_cases e : j = r
    · subst e
      have h0 : s.calls.count j = 0 := by rw [hi.calls, hcs]; rfl
      rcases hs with ⟨h, -⟩ | ⟨p, h, -⟩ <;> simp [h, h0, Pc.locked]
    · rw [hpc j e, ← hi.calls j]
      split
      · exact count_cons_of_ne (Ne.symm e)
      · rfl

theorem inv_callExists {r} (hi : Inv dir s) (ht : step dir s (.callExists r) = some t) : Inv dir t := by
  obtain ⟨p, hp, ht⟩ := step_callExists ht
  have hb := hi.found r p hp
  have hr : t.pc r = if p ∈ s.nodes then .waiting else .top := by rw [ht]; exact setPc_same s r _
  have hpc : ∀ j, j ≠ r → t.pc j = s.pc j := fun j hj => by rw [ht]; exact setPc_other _ _ hj
  have hw : t.watches = s.watches ++ [(r, p)] := by rw [ht]
  have hf : t.fired = s.fired := by rw [ht]; rfl
  have hn : t.nodes = s.nodes := by rw [ht]; rfl
  have hrr : t.pc r ≠ .released ∧ t.pc r ≠ .granted ∧ t.pc r ≠ .idle ∧ t.pc r ≠ .raised := by
    rw [hr]; split <;> simp
  refine inv_loop hi (r := r) (by rw [ht]; rfl) (by rw [ht]; rfl) hn hpc ?_ ?_ hrr.1 ?_ ?_ ?_ ?_ ?_ ?_ ?_ hrr.2.2
  · simp [hp]
  · simp [hp]
  · intro cs h; rw [hr] at h; split at h <;> cases h
  · intro p' h; rw [hr] at h; split at h <;> cases h
  · intro h; exact absurd h hrr.2.1
  · intro w hw'
    rw [hw, mem_append, mem_singleton] at hw'
    rcases hw' with hw' | rfl
    · exact hi.watch w hw'
    · exact hb
  · intro w hw'; rw [hf] at hw'; exact hi.notice w hw'
  · intro j
    have ha : alarms t j = alarms s j + if j = r ∧ p ∈ s.nodes then 1 else 0 := by
      unfold alarms
      rw [hw, hf, hn, filter_append, length_append]
      by_cases e : r = j ∧ p ∈ s.nodes
      · simp [e.1, e.2]; omega
      · rw [if_neg (fun h => e ⟨h.1.symm, h.2⟩)]
        simp only [filter_cons, filter_nil, decide_eq_true_eq, if_neg e, length_nil]
        omega
    rw [ha, hi.alarms]
    by_cases e : j = r
    · split <;> simp_all
    · rw [hpc j e]; simp [e]
  · exact calls_of_same hi hpc (by rw [hr, hp]; split <;> rfl) (by rw [ht]; rfl)

/-! ## Watches -/

theorem waiting_of_fired {r} (hi : Inv dir s) (hm : (r, p) ∈ s.fired) : s.pc r = .waiting := by
  have hpos : 0 < (s.fired.filter fun w => w.1 = r).length :=
    length_pos_of_mem (mem_filter.2 ⟨hm, by simp⟩)
  have ha := hi.alarms r
  by_contra hn
  rw [if_neg hn, Locks.alarms] at ha
  omega

theorem inv_deliver {r} (hi : Inv dir s) (ht : step dir s (.deliver r p) = some t) : Inv dir t := by
  obtain ⟨hm, ht⟩ := step_deliver ht
  have hwa := waiting_of_fired hi hm
  have hr : t.pc r = .top := by rw [ht]; exact setPc_same s r _
  have hpc : ∀ j, j ≠ r → t.pc j = s.pc j := fun j hj => by rw [ht]; exact setPc_other _ _ hj
  have hf : t.fired = s.fired.erase (r, p) := by rw [ht]
  have hlen : ∀ j, (s.fired.filter fun w => w.1 = j).length =
      (t.fired.filter fun w => w.1 = j).length + if j = r then 1 else 0 := by
    intro j
    have hp := (perm_cons_erase hm).filter fun w => decide (w.1 = j)
    rw [hf, hp.length_eq]
    by_cases e : r = j
    · simp [e]
    · simp [e, Ne.symm e]
  have ha : ∀ j, alarms s j = alarms t j + if j = r then 1 else 0 := by
    intro j
    have h1 : t.watches = s.watches := by rw [ht]; rfl
    have h2 : t.nodes = s.nodes := by rw [ht]; rfl
    unfold alarms
    rw [h1, h2, hlen j]
    omega
  refine inv_loop hi (r := r) (by rw [ht]; rfl) (by rw [ht]; rfl) (by rw [ht]; rfl) hpc ?_ ?_ ?_ ?_ ?_ ?_ ?_ ?_ ?_ ?_ ?_
  · simp [hwa]
  · simp [hwa]
  · simp [hr]
  · simp [hr]
  · simp [hr]
  · simp [hr]
  · rw [ht]; exact hi.watch
  · intro w hw; rw [hf] at hw; exact hi.notice w (mem_of_mem_erase hw)
  · intro j
    have h1 := ha j
    rw [hi.alarms j] at h1
    by_cases e : j = r
    · subst e; rw [hwa] at h1; rw [hr]; simp at h1 ⊢; omega
    · rw [hpc j e]; simp only [if_neg e, Nat.add_zero] at h1; exact h1.symm
  · exact calls_of_same hi hpc (by simp [hr, hwa, Pc.locked]) (by rw [ht]; rfl)
  · simp [hr]

/-- `t` is `s` after the request `r` has deleted its node: the watches on the
node have become notifications. -/
structure Released (dir : String) (s t : St) (k : Kind) (r : Nat) : Prop where
  granted : s.pc r = .granted
  known : s.kind r = some k
  kind : t.kind = s.kind
  pc : t.pc r = .released
  others : ∀ j, j ≠ r → t.pc j = s.pc j
  next : t.next = s.next
  nodes : t.nodes = s.nodes.filter (· ≠ nodePath dir k r)
  watches : t.watches = s.watches.filter fun w => w.2 ≠ nodePath dir k r
  fired : t.fired = s.fired ++ s.watches.filter fun w => w.2 = nodePath dir k r
  calls : t.calls = s.calls

theorem released_of_step {r} (ht : step dir s (.release r) = some t) : ∃ k, Released dir s t k r := by
  obtain ⟨k, hg, hk, rfl⟩ := step_release ht
  exact ⟨k, hg, hk, rfl, setPc_same _ r _, fun j hj => setPc_other _ _ hj, rfl, rfl, rfl, rfl, rfl⟩

namespace Released

variable {k : Kind} {r : Nat} (hd : Released dir s t k r)

include hd

theorem mem_nodes : p ∈ t.nodes ↔ p ∈ s.nodes ∧ p ≠ nodePath dir k r := by
  rw [hd.nodes, mem_filter, decide_eq_true_eq]

theorem blocks_iff : Blocks dir t j p ↔ Blocks dir s j p := by
  simp only [Blocks, hd.kind]

theorem ne_of_pc (hj : t.pc j ≠ .released) : j ≠ r := fun e => hj (e ▸ hd.pc)

theorem length_watches (hi : Inv dir s) (j : Nat) : (s.watches.filter fun w => w.1 = j ∧ w.2 ∈ s.nodes).length =
      (t.watches.filter fun w => w.1 = j ∧ w.2 ∈ t.nodes).length +
      ((s.watches.filter fun w => w.2 = nodePath dir k r).filter fun w => w.1 = j).length := by
  have hmem : nodePath dir k r ∈ s.nodes := hi.live r k hd.known (by simp [hd.granted])
  rw [length_eq_length_filter_add fun w => decide (w.2 ≠ nodePath dir k r), hd.watches, filter_filter,
    filter_filter, filter_filter, filter_filter]
  congr 2
  · refine filter_congr fun w _ => ?_
    by_cases e : w.2 = nodePath dir k r <;> simp [e, hd.mem_nodes]
  · refine filter_congr fun w _ => ?_
    by_cases e : w.2 = nodePath dir k r <;> simp [e, hmem]

theorem alarms_eq (hi : Inv dir s) (j : Nat) : alarms t j = alarms s j := by
  unfold alarms
  rw [hd.length_watches hi j, hd.fired, filter_append, length_append]
  omega

end Released

theorem inv_release {r} (hi : Inv dir s) (ht : step dir s (.release r) = some t) : Inv dir t := by
  obtain ⟨k, hd⟩ := released_of_step ht
  refine ⟨?known, ?idle, ?node, ?live, ?got, ?found, ?granted, ?watch, ?notice, ?alarms, ?calls, ?sound⟩
  case known =>
    rw [hd.next, hd.kind]
    exact hi.known
  case idle =>
    intro j hj
    rw [hd.kind] at hj
    have e : j ≠ r := fun e => by rw [e, hd.known] at hj; cases hj
    rw [hd.others j e]
    exact hi.idle j hj
  case node =>
    intro p hp
    obtain ⟨hp, hne⟩ := hd.mem_nodes.1 hp
    obtain ⟨j, kj, hkj, he, hj⟩ := hi.node p hp
    have e : j ≠ r := fun e => by
      subst e
      rw [hd.known, Option.some.injEq] at hkj
      exact hne (by rw [he, hkj])
    exact ⟨j, kj, by rw [hd.kind, hkj], he, by rw [hd.others j e]; exact hj⟩
  case live =>
    intro j kj hkj hj
    have e := hd.ne_of_pc hj
    rw [hd.kind] at hkj
    rw [hd.others j e] at hj
    exact hd.mem_nodes.2 ⟨hi.live j kj hkj hj, fun he => e (nodePath_inj he).2⟩
  case got =>
    intro j cs hg
    rw [hd.others j (hd.ne_of_pc (by simp [hg]))] at hg
    obtain ⟨hn, hall⟩ := hi.got j cs hg
    refine ⟨by rw [hd.kind]; exact hn, fun p hp hb => ?_⟩
    exact hall p (hd.mem_nodes.1 hp).1 (hd.blocks_iff.1 hb)
  case found =>
    intro j p hf
    rw [hd.others j (hd.ne_of_pc (by simp [hf]))] at hf
    exact hd.blocks_iff.2 (hi.found j p hf)
  case granted =>
    intro j hl p hp
    -- the lock that is released was granted as well
    have hl : (s.pc j).locked = true := by
      by_cases e : j = r
      · rw [e, hd.granted]
        rfl
      · rwa [hd.others j e] at hl
    rw [hd.blocks_iff]
    exact hi.granted j hl p (hd.mem_nodes.1 hp).1
  case watch =>
    intro w hw
    rw [hd.watches] at hw
    exact hd.blocks_iff.2 (hi.watch w (mem_filter.1 hw).1)
  case notice =>
    intro w hw
    rw [hd.blocks_iff, hd.mem_nodes]
    rw [hd.fired, mem_append] at hw
    rcases hw with hw | hw
    · obtain ⟨hb, hgo⟩ := hi.notice w hw
      exact ⟨hb, fun hp => hgo hp.1⟩
    · obtain ⟨hw, he⟩ := mem_filter.1 hw
      exact ⟨hi.watch w hw, fun hp => hp.2 (of_decide_eq_true he)⟩
  case alarms =>
    exact alarms_of_same hi hd.others (by simp [hd.granted]) (by simp [hd.pc]) (hd.alarms_eq hi)
  case calls => exact calls_of_same hi hd.others (by rw [hd.pc, hd.granted]; rfl) hd.calls
  case sound =>
    intro j kj hkj
    rw [hd.kind] at hkj
    by_cases e : j = r
    · rw [e, hd.pc]
      simp
    · rw [hd.others j e]
      exact hi.sound j kj hkj

theorem inv_step {a} (hi : Inv dir s) (ht : step dir s a = some t) : Inv dir t := by
  cases a with
  | acquire k n => exact inv_acquire hi ht
  | getChildren r cs => exact inv_getChildren hi ht
  | decide r => exact inv_decide hi ht
  | callExists r => exact inv_callExists hi ht
  | deliver r p => exact inv_deliver hi ht
  | release r => exact inv_release hi ht

theorem exec_inv_locks {as} (h : exec (step dir) init as = some s) : Inv dir s :=
  exec_inv (Inv dir) (fun _ _ _ hi ht => inv_step hi ht) inv_init h

end BenchmarkAi.Locks
