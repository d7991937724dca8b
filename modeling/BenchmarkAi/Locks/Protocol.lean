import BenchmarkAi.Lib.Runs
import BenchmarkAi.Locks.Names
import Mathlib.Logic.Function.Basic
/-!
# The distributed read/write lock

`DistributedRWLockManager` on one locked path: any number of requests, of any
number of clients, each running `_acquire_lock` and its loop. A label is one
ZooKeeper operation with its answer, one local decision, or one delivery of a
watch, so a run is an interleaving of all clients.

Assumed of ZooKeeper: `create` hands out increasing sequence numbers (maybe with
gaps), `get_children` lists the existing nodes in any order, `exists` reads and
leaves its watch in one step, also on a missing node, a watch fires once, and no
session is lost.
-/
open Lib

namespace BenchmarkAi.Locks

inductive Pc
  | idle
  /-- At the top of the loop, about to call `get_children`. -/
  | top
  | got (children : List String)
  /-- About to call `exists` on the lock it found, with `_on_lock_changed` as watch. -/
  | found (current_lock : String)
  | waiting
  | granted
  | released
  | raised
deriving DecidableEq, Repr

def Pc.looping : Pc → Bool
  | .top | .got _ | .found _ => true
  | _ => false

def Pc.locked : Pc → Bool
  | .granted | .released => true
  | _ => false

/-- A request is known by its sequence number. -/
structure St where
  next : Nat
  nodes : List String
  kind : Nat → Option Kind
  pc : Nat → Pc
  /-- The watches that have not fired: whose they are, and the node watched. -/
  watches : List (Nat × String)
  fired : List (Nat × String)
  calls : List Nat

def init : St := ⟨0, [], fun _ => none, fun _ => .idle, [], [], []⟩

def St.setPc (s : St) (r : Nat) (pc : Pc) : St := { s with pc := Function.update s.pc r pc }

/-- The watches on a node fire: its creation or deletion is notified to each. -/
def St.fire (s : St) (path : String) : St :=
  { s with
    watches := s.watches.filter fun w => w.2 ≠ path
    fired := s.fired ++ s.watches.filter fun w => w.2 = path }

/-- The locks before `my_index` that are incompatible; `none` is a `ValueError`
of `get_sequence_index`. -/
def locksBefore (is_incompat : String → Bool) (my_index : Nat) : List String → Option (List String)
  | [] => some []
  | path :: children => do
    let index ← getSequenceIndex path
    let locks_before ← locksBefore is_incompat my_index children
    if index < my_index ∧ is_incompat path then some (path :: locks_before) else some locks_before

def decision (dir : String) (k : Kind) (my_node_path : String) (children : List String) : Pc :=
  match getSequenceIndex my_node_path with
  | none => .raised
  | some my_index =>
    match locksBefore (isIncompat k) my_index children with
    | none => .raised
    | some [] => .granted
    | some (rel_current_lock :: _) => .found (absPath dir rel_current_lock)

inductive Label
  | acquire (k : Kind) (n : Nat)
  | getChildren (r : Nat) (children : List String)
  /-- The loop looks at the children: `on_locked` is called, or a lock is found. -/
  | decide (r : Nat)
  | callExists (r : Nat)
  | deliver (r : Nat) (path : String)
  | release (r : Nat)
deriving DecidableEq, Repr

def step (dir : String) (s : St) : Label → Option St
  | .acquire k n =>
    if s.next ≤ n then
      let s := s.fire (nodePath dir k n)
      some { (s.setPc n .top) with
        next := n + 1
        nodes := s.nodes ++ [nodePath dir k n]
        kind := Function.update s.kind n (some k) }
    else none
  | .getChildren r children =>
    if s.pc r = .top ∧ (children.map (absPath dir)).isPerm s.nodes then some (s.setPc r (.got children)) else none
  | .decide r =>
    match s.pc r, s.kind r with
    | .got children, some k =>
      let pc := decision dir k (nodePath dir k r) children
      some { (s.setPc r pc) with calls := if pc = .granted then r :: s.calls else s.calls }
    | _, _ => none
  | .callExists r =>
    match s.pc r with
    | .found current_lock =>
      some { (s.setPc r (if current_lock ∈ s.nodes then .waiting else .top)) with
        watches := s.watches ++ [(r, current_lock)] }
    | _ => none
  | .deliver r path =>
    if (r, path) ∈ s.fired then some { (s.setPc r .top) with fired := s.fired.erase (r, path) } else none
  | .release r =>
    match s.pc r, s.kind r with
    | .granted, some k =>
      let s := s.fire (nodePath dir k r)
      some { (s.setPc r .released) with nodes := s.nodes.filter (· ≠ nodePath dir k r) }
    | _, _ => none

end BenchmarkAi.Locks
