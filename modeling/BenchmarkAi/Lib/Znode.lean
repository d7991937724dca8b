import Mathlib.Data.List.Basic
/-!
# A versioned node with one-shot watches

One node of a coordination service as one client sees it: the data with their
version, the watches this client has left on them, and the notifications it has
not been delivered yet. Reading with a watch is one step. A watch fires once, at
the next write or at the deletion.

`Watched` is what a client needs that reads again at each notification: data it
looks for are seen by somebody, or will be.
-/

namespace Lib.Znode

inductive Event
  | changed | deleted
deriving DecidableEq, Repr

structure Cell (δ : Type) where
  data : Option (δ × Nat)
  watches : Nat
  fired : List Event
deriving DecidableEq, Repr

variable {δ : Type}

def Cell.empty : Cell δ := ⟨none, 0, []⟩

def Cell.notify (c : Cell δ) (e : Event) : Cell δ :=
  { c with watches := 0, fired := c.fired ++ List.replicate c.watches e }

def Cell.create (c : Cell δ) (d : δ) : Option (Cell δ) :=
  match c.data with
  | none => some { c with data := some (d, 0) }
  | some _ => none

/-- Reads the data and leaves a watch; `none` is a missing node, which leaves no watch. -/
def Cell.getWatch (c : Cell δ) : Option (δ × Cell δ) :=
  match c.data with
  | none => none
  | some (d, _) => some (d, { c with watches := c.watches + 1 })

/-- Writes whatever the version is; `none` is a missing node. -/
def Cell.set (c : Cell δ) (d : δ) : Option (Cell δ) :=
  match c.data with
  | none => none
  | some (_, v) => some { (c.notify .changed) with data := some (d, v + 1) }

def Cell.delete (c : Cell δ) : Option (Cell δ) :=
  match c.data with
  | none => none
  | some _ => some { (c.notify .deleted) with data := none }

/-- Other clients leave the node in some state; the watches tell of it. -/
def Cell.outside (c : Cell δ) (n : Option (δ × Nat)) : Cell δ :=
  match c.data, n with
  | some _, some _ => { (c.notify .changed) with data := n }
  | some _, none => { (c.notify .deleted) with data := none }
  | none, n => { c with data := n }

/-! ## What the operations do -/

theorem create_some {c c' : Cell δ} {d : δ} (h : c.create d = some c') :
    c.data = none ∧ c' = { c with data := some (d, 0) } := by
  unfold Cell.create at h
  split at h
  · exact ⟨‹_›, (Option.some.inj h).symm⟩
  · cases h

theorem getWatch_some {c c' : Cell δ} {d : δ} (h : c.getWatch = some (d, c')) :
    ∃ v, c.data = some (d, v) ∧ c' = { c with watches := c.watches + 1 } := by
  unfold Cell.getWatch at h
  split at h
  · cases h
  · cases h
    exact ⟨_, ‹_›, rfl⟩

theorem getWatch_none {c : Cell δ} : c.getWatch = none ↔ c.data = none := by
  unfold Cell.getWatch
  split <;> simp_all

theorem set_some {c c' : Cell δ} {d : δ} (h : c.set d = some c') :
    ∃ d₀ v, c.data = some (d₀, v) ∧ c' = { (c.notify .changed) with data := some (d, v + 1) } := by
  unfold Cell.set at h
  split at h
  · cases h
  · exact ⟨_, _, ‹_›, (Option.some.inj h).symm⟩

theorem delete_some {c c' : Cell δ} (h : c.delete = some c') :
    (∃ d v, c.data = some (d, v)) ∧ c' = { (c.notify .deleted) with data := none } := by
  unfold Cell.delete at h
  split at h
  · cases h
  · exact ⟨⟨_, _, ‹_›⟩, (Option.some.inj h).symm⟩

theorem delete_none {c : Cell δ} : c.delete = none ↔ c.data = none := by
  unfold Cell.delete
  split <;> simp_all

/-! ## Data that are looked for -/

/-- Data with `P` have been seen, or a notification will have them read. As long
as the data are without `P`, somebody is about to read them, or a notification or
a watch is there. -/
structure Watched (P : δ → Prop) (reading seen : Prop) (c : Cell δ) : Prop where
  wake : ∀ d v, c.data = some (d, v) → P d → seen ∨ .changed ∈ c.fired
  live : ∀ d v, c.data = some (d, v) → ¬ P d → reading ∨ .changed ∈ c.fired ∨ 0 < c.watches

variable {P : δ → Prop} {reading seen reading' seen' : Prop} {c c' : Cell δ}

theorem watched_of_missing (h : c.data = none) : Watched P reading seen c :=
  ⟨fun d v hd => (by rw [h] at hd; cases hd), fun d v hd => (by rw [h] at hd; cases hd)⟩

/-- Readers move on: nobody who has seen the data forgets them, and nobody stops
before reading. -/
theorem Watched.mono (h : Watched P reading seen c) (hr : reading → reading') (hs : seen → seen') :
    Watched P reading' seen' c :=
  ⟨fun d v hd hp => (h.wake d v hd hp).imp_left hs, fun d v hd hp => (h.live d v hd hp).imp_left hr⟩

/-- Whoever reads takes the data in and leaves a watch. -/
theorem Watched.get {d : δ} (hg : c.getWatch = some (d, c')) (hs : P d → seen) : Watched P reading seen c' := by
  obtain ⟨v, hv, rfl⟩ := getWatch_some hg
  refine ⟨fun d' v' hd' hp => ?_, fun _ _ _ _ => .inr (.inr (Nat.succ_pos _))⟩
  obtain ⟨rfl, -⟩ := Prod.mk.inj (Option.some.inj (hv.symm.trans hd'))
  exact .inl (hs hp)

/-- A write of data with `P` is seen if the old data were, and is notified otherwise. -/
theorem Watched.set {d : δ} (h : Watched P reading seen c) (hrs : reading → seen) (hc : c.set d = some c')
    (hp : P d) : Watched P reading seen c' := by
  obtain ⟨d₀, v, hv, rfl⟩ := set_some hc
  refine ⟨fun d' v' hd' _ => ?_, fun d' v' hd' hn => ?_⟩
  · by_cases h₀ : P d₀
    · rcases h.wake d₀ v hv h₀ with hs | hf
      · exact .inl hs
      · exact .inr (List.mem_append_left _ hf)
    · rcases h.live d₀ v hv h₀ with hr | hf | hw
      · exact .inl (hrs hr)
      · exact .inr (List.mem_append_left _ hf)
      · exact .inr (List.mem_append_right _ (List.mem_replicate.2 ⟨by omega, rfl⟩))
  · cases hd'
    exact absurd hp hn

theorem Watched.deliver {e} (h : Watched P reading seen c) (he : e = .changed → reading' ∧ seen')
    (hr : reading → reading') (hs : seen → seen') : Watched P reading' seen' { c with fired := c.fired.erase e } := by
  have hmem : .changed ∈ c.fired → (reading' ∧ seen') ∨ .changed ∈ c.fired.erase e := fun hm => by
    by_cases hc : e = .changed
    · exact .inl (he hc)
    · exact .inr ((List.mem_erase_of_ne (Ne.symm hc)).2 hm)
  refine ⟨fun d v hd hp => ?_, fun d v hd hp => ?_⟩
  · rcases h.wake d v hd hp with h1 | h1
    · exact .inl (hs h1)
    · exact (hmem h1).imp_left And.right
  · rcases h.live d v hd hp with h1 | h1 | h1
    · exact .inl (hr h1)
    · rcases hmem h1 with h2 | h2
      · exact .inl h2.1
      · exact .inr (.inl h2)
    · exact .inr (.inr h1)

end Lib.Znode
