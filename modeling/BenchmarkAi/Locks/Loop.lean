import BenchmarkAi.Locks.Protocol
import Mathlib.Data.List.Perm.Basic
/-!
# The loop of a lock request

`_acquire_lock_loop` alone, against other clients that do not keep to the
protocol: they delete lock nodes, held or not, and create later ones whenever
they like. The loop goes on only if the lock it found has disappeared since the
listing, and no new node is before its own, so each round leaves fewer locks to
wait for.
-/

open List

namespace BenchmarkAi.Locks

def earlierLocks (is_incompat : String → Bool) (my_index : Nat) (nodes : List String) : List String :=
  nodes.filter fun path => (getSequenceIndex path).any (· < my_index) && is_incompat path

theorem locksBefore_eq (is_incompat : String → Bool) (my_index : Nat) (children : List String) :
    locksBefore is_incompat my_index children =
      if children.all fun path => (getSequenceIndex path).isSome then some (earlierLocks is_incompat my_index children)
      else none := by
  induction children with
  | nil => rfl
  | cons path children ih =>
    rw [locksBefore, ih, all_cons]
    cases hi : getSequenceIndex path with
    | none => simp
    | some index =>
      by_cases hall : (children.all fun path => (getSequenceIndex path).isSome) = true
      · simp [hall, apply_ite some, earlierLocks, filter_cons, hi]
      · simp [hall]

theorem eq_of_locksBefore {is_incompat my_index children l}
    (h : locksBefore is_incompat my_index children = some l) : l = earlierLocks is_incompat my_index children := by
  rw [locksBefore_eq] at h
  split at h
  · exact (Option.some.inj h).symm
  · cases h

/-! ## The loop -/

inductive Move (my_index : Nat)
  | delete (path : String)
  | create (path : String) (later : ∃ index, getSequenceIndex path = some index ∧ my_index < index)

def Move.apply {my_index : Nat} (nodes : List String) : Move my_index → List String
  | .delete path => nodes.filter (· ≠ path)
  | .create path _ => nodes ++ [path]

/-- What the others do during one round of the loop, and the order in which
ZooKeeper lists the nodes. -/
structure Round (my_index : Nat) where
  beforeListing : List (Move my_index)
  order : List String → List String
  order_perm : ∀ nodes, (order nodes).Perm nodes
  beforeExists : List (Move my_index)

inductive Exit
  | waits (current_lock : String)
  | locked
  | raised
deriving DecidableEq, Repr

variable {my_index : Nat}

def Round.children (round : Round my_index) (nodes : List String) : List String :=
  round.order (round.beforeListing.foldl Move.apply nodes)

/-- The loop of `_acquire_lock_loop`, for at most `fuel` rounds: `none` is a loop
that has not ended by then. The nodes are those below `state_path`. -/
def acquireLockLoop (state_path : String) (is_incompat : String → Bool) :
    Nat → (Nat → Round my_index) → List String → Option Exit
  | 0, _, _ => none
  | fuel + 1, rounds, nodes =>
    match locksBefore is_incompat my_index ((rounds 0).children nodes) with
    | none => some .raised
    | some [] => some .locked
    | some (rel_current_lock :: _) =>
      let current_lock := absPath state_path rel_current_lock
      let nodes := ((rounds 0).beforeListing ++ (rounds 0).beforeExists).foldl Move.apply nodes
      if current_lock ∈ nodes.map (absPath state_path) then some (.waits current_lock)
      else acquireLockLoop state_path is_incompat fuel (fun n => rounds (n + 1)) nodes

/-! ## Fewer locks with each round -/

variable {is_incompat : String → Bool} {nodes : List String}

theorem apply_sublist (move : Move my_index) :
    earlierLocks is_incompat my_index (move.apply nodes) <+ earlierLocks is_incompat my_index nodes := by
  cases move with
  | delete path => exact filter_sublist.filter _
  | create path later =>
    obtain ⟨index, hi, hlt⟩ := later
    have hnot : ¬ index < my_index := Nat.lt_asymm hlt
    simp [earlierLocks, Move.apply, hi, hnot]

theorem moves_sublist (moves : List (Move my_index)) (nodes : List String) :
    earlierLocks is_incompat my_index (moves.foldl Move.apply nodes) <+ earlierLocks is_incompat my_index nodes := by
  induction moves generalizing nodes with
  | nil => exact Sublist.refl _
  | cons move moves ih => exact (ih _).trans (apply_sublist move)

theorem children_perm (round : Round my_index) (nodes : List String) :
    (earlierLocks is_incompat my_index (round.children nodes)).Perm
      (earlierLocks is_incompat my_index (round.beforeListing.foldl Move.apply nodes)) :=
  (round.order_perm _).filter _

/-- A lock of the listing is gone, and no other has come before the request. -/
theorem length_lt_of_gone (moves : List (Move my_index)) {path} (hmem : path ∈ earlierLocks is_incompat my_index nodes)
    (hg : path ∉ moves.foldl Move.apply nodes) :
    (earlierLocks is_incompat my_index (moves.foldl Move.apply nodes)).length < (earlierLocks is_incompat my_index nodes).length := by
  have hsub := @moves_sublist _ is_incompat moves nodes
  refine Nat.lt_of_le_of_ne hsub.length_le fun heq => hg ?_
  rw [← hsub.eq_of_length heq] at hmem
  exact mem_of_mem_filter hmem

theorem isSome_acquireLockLoop (state_path : String) {fuel} (rounds : Nat → Round my_index)
    (hf : (earlierLocks is_incompat my_index ((rounds 0).children nodes)).length < fuel) :
    (acquireLockLoop state_path is_incompat fuel rounds nodes).isSome = true := by
  induction fuel generalizing rounds nodes with
  | zero => cases hf
  | succ fuel ih =>
    rw [acquireLockLoop]
    split
    · rfl
    · rfl
    · rename_i rel_current_lock l hl
      have hmem : rel_current_lock ∈ earlierLocks is_incompat my_index ((rounds 0).children nodes) := by
        rw [← eq_of_locksBefore hl]
        exact mem_cons_self
      simp only
      split
      · rfl
      · rename_i hg
        refine ih _ ?_
        rw [foldl_append] at hg ⊢
        have hlt := length_lt_of_gone (rounds 0).beforeExists ((children_perm _ _).mem_iff.1 hmem)
          fun h => hg (mem_map_of_mem h)
        have hn := Nat.lt_of_le_of_lt (moves_sublist (rounds 1).beforeListing _).length_le hlt
        rw [← (children_perm _ _).length_eq, ← (children_perm _ _).length_eq] at hn
        exact Nat.lt_of_lt_of_le hn (Nat.le_of_lt_succ hf)

/-- The loop ends within one round more than there are earlier incompatible
nodes in its first listing. -/
theorem lock_loop_bounded (state_path : String) (is_incompat : String → Bool) (rounds : Nat → Round my_index)
    (nodes : List String) :
    (acquireLockLoop state_path is_incompat
      ((earlierLocks is_incompat my_index ((rounds 0).children nodes)).length + 1) rounds nodes).isSome = true :=
  isSome_acquireLockLoop state_path rounds (Nat.lt_succ_self _)

end BenchmarkAi.Locks
