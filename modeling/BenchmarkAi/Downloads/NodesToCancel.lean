import BenchmarkAi.Downloads.Protocol
import Mathlib.Data.List.Dedup
/-!
# Marking the nodes of an action as canceled

`DownloadManager._update_nodes_to_cancel` with all nodes of an action: the loop over the
children of the directory, and at each of them the loop that reads the node and writes it
back with the version it has read. Other clients write to the nodes, with a version or without
one, and delete them. What the loop does at one node is `readNode` and `writeNode` of `Protocol`.
-/
open Lib Lib.Znode List

namespace BenchmarkAi.Downloads

/-! ## ZooKeeper -/

def zkDelete (version : Option Nat) : NodeData → Except ZkError Unit
  | none => .error .noNode
  | some (_, current) => if version.all (· = current) then .ok () else .error .badVersion

/-! ## The loop -/

inductive LoopPc
  | getChildren
  | next (children : List String)
  | get (child : String) (children : List String)
  | set (child : String) (children : List String) (result : FetcherResult) (version : Nat)
  | returned (number_of_nodes_updated : Nat)
  | raised (e : ZkError)
deriving DecidableEq, Repr

structure Update where
  child : String
  replaced : FetcherStatus
  written : FetcherStatus
deriving DecidableEq, Repr

structure Directory where
  present : Bool
  names : List String
  nodup : names.Nodup
  data : String → NodeData
  pc : LoopPc
  number_of_nodes_updated : Nat
  updates : List Update
  /-- The nodes that the loop has called `set` for, once for each call. -/
  attempts : List String
  /-- The nodes that other clients have written to, once for each write. -/
  outside : List String

def Directory.start (present : Bool) (names : List String) (nodup : names.Nodup) (data : String → NodeData) : Directory :=
  ⟨present, names, nodup, data, .getChildren, 0, [], [], []⟩

def Directory.after (s : Directory) (child : String) (children : List String) : Round → Directory
  | .set result version => { s with pc := .set child children result version }
  | .get => { s with pc := .get child children }
  | .left => { s with pc := .next children }
  | .written node =>
    { s with
      data := Function.update s.data child (some node)
      number_of_nodes_updated := s.number_of_nodes_updated + 1
      updates := s.updates ++ ((s.data child).map fun old => ⟨child, old.1.status, node.1.status⟩).toList
      pc := .next children }
  | .raised e => { s with pc := .raised e }

def updateNodesToCancel (s : Directory) : Option Directory :=
  match s.pc with
  | .next [] => some { s with pc := .returned s.number_of_nodes_updated }
  | .next (child :: children) => some { s with pc := .get child children }
  | .get child children => some (s.after child children (readNode (s.data child)))
  | .set child children result version =>
    let s := { s with attempts := s.attempts ++ [child] }
    some (s.after child children (writeNode result version (s.data child)))
  | _ => none

/-- `get_children`; the names come in any order. A missing directory is absorbed. -/
def getChildren (s : Directory) (children : List String) : Option Directory :=
  if s.pc = .getChildren then
    if s.present then
      if children.isPerm (s.names.filter fun n => (s.data n).isSome) then some { s with pc := .next children } else none
    else some { s with pc := .returned 0 }
  else none

inductive DirLabel
  | getChildren (children : List String)
  | loop
  /-- Another client writes to a node or deletes it; a call that raises changes nothing. -/
  | write (name : String) (data : FetcherResult) (version : Option Nat)
  | delete (name : String) (version : Option Nat)
  | deleteDirectory
deriving DecidableEq, Repr

def DirLabel.own : DirLabel → Bool
  | getChildren _ | loop => true
  | _ => false

def dirStep (s : Directory) : DirLabel → Option Directory
  | .getChildren children => getChildren s children
  | .loop => updateNodesToCancel s
  | .write name data version =>
    match zkSet data version (s.data name) with
    | .ok node => some { s with data := Function.update s.data name (some node), outside := s.outside ++ [name] }
    | .error _ => some s
  | .delete name version =>
    match zkDelete version (s.data name) with
    | .ok _ => some { s with data := Function.update s.data name none }
    | .error _ => some s
  | .deleteDirectory => if s.names.all fun n => (s.data n).isNone then some { s with present := false } else none

inductive DirMoves (s : Directory) : Directory → Prop
  | listed {children : List String} (hpc : s.pc = .getChildren)
      (hp : children.Perm (s.names.filter fun n => (s.data n).isSome)) : DirMoves s { s with pc := .next children }
  | absent (hpc : s.pc = .getChildren) : DirMoves s { s with pc := .returned 0 }
  | returns (hpc : s.pc = .next []) : DirMoves s { s with pc := .returned s.number_of_nodes_updated }
  | visits {child} {children} (hpc : s.pc = .next (child :: children)) :
      DirMoves s { s with pc := .get child children }
  | passes {child} {children} (hpc : s.pc = .get child children) :
      DirMoves s { s with pc := .next children }
  | reads {child} {children} {result : FetcherResult} {version}
      (hpc : s.pc = .get child children) (hd : s.data child = some (result, version))
      (hf : result.status.final = false) : DirMoves s { s with pc := .set child children result version }
  | updates {child} {children} {result old : FetcherResult} {version}
      (hpc : s.pc = .set child children result version) (hd : s.data child = some (old, version)) :
      DirMoves s { s with
        attempts := s.attempts ++ [child]
        data := Function.update s.data child (some ({ result with status := .canceled }, version + 1))
        number_of_nodes_updated := s.number_of_nodes_updated + 1
        updates := s.updates ++ [⟨child, old.status, .canceled⟩]
        pc := .next children }
  | stale {child} {children} {result old} {version current}
      (hpc : s.pc = .set child children result version) (hd : s.data child = some (old, current))
      (hv : current ≠ version) :
      DirMoves s { s with attempts := s.attempts ++ [child], pc := .get child children }
  | gone {child} {children} {result} {version}
      (hpc : s.pc = .set child children result version) (hd : s.data child = none) :
      DirMoves s { s with attempts := s.attempts ++ [child], pc := .next children }
  | written {name} {data old} {current} (hd : s.data name = some (old, current)) :
      DirMoves s { s with
        data := Function.update s.data name (some (data, current + 1)), outside := s.outside ++ [name] }
  | deleted (name : String) : DirMoves s { s with data := Function.update s.data name none }
  | directoryDeleted : DirMoves s { s with present := false }
  | idle : DirMoves s s

variable {data : FetcherResult} {n : NodeData} {s t : Directory}

theorem zkSet_ok {version node} (h : zkSet data version n = .ok node) :
    ∃ old current, n = some (old, current) ∧ (∀ v, version = some v → v = current) ∧ node = (data, current + 1) := by
  cases n with
  | none => cases h
  | some p =>
    rw [zkSet] at h
    split at h
    · rename_i hv
      cases h
      refine ⟨p.1, p.2, rfl, ?_, rfl⟩
      rintro v rfl
      simpa using hv
    · cases h

theorem dirMoves_loop (h : updateNodesToCancel s = some t) : DirMoves s t := by
  unfold updateNodesToCancel at h
  split at h
  · cases h
    exact .returns ‹_›
  · cases h
    exact .visits ‹_›
  · rename_i child children hpc
    cases h
    have hr := reads_readNode (s.data child)
    generalize readNode (s.data child) = r at hr
    cases hr with
    | missing hn | final hd hf => exact .passes hpc
    | read hd hf => exact .reads hpc hd hf
  · rename_i child children result version hpc
    cases h
    have hw := writes_writeNode result version (s.data child)
    generalize writeNode result version (s.data child) = r at hw
    cases hw with
    | missing hn => exact .gone hpc hn
    | write hd =>
      have hm := DirMoves.updates hpc hd
      simpa [Directory.after, hd] using hm
    | stale hd hv => exact .stale hpc hd hv
  · cases h

theorem dirMoves_of_step {a} (h : dirStep s a = some t) : DirMoves s t := by
  cases a with
  | getChildren children =>
    rw [dirStep, getChildren] at h
    split at h
    · split at h
      · split at h
        · cases h
          exact .listed ‹_› (isPerm_iff.1 ‹_›)
        · cases h
      · cases h
        exact .absent ‹_›
    · cases h
  | loop => exact dirMoves_loop h
  | write name data version =>
    rw [dirStep] at h
    split at h
    · rename_i node hset
      obtain ⟨old, current, hd, -, rfl⟩ := zkSet_ok hset
      cases h
      exact .written hd
    · cases h
      exact .idle
  | delete name version =>
    rw [dirStep] at h
    split at h
    · cases h
      exact .deleted name
    · cases h
      exact .idle
  | deleteDirectory =>
    rw [dirStep] at h
    split at h
    · cases h
      exact .directoryDeleted
    · cases h

/-! ## What holds along a run -/

def LoopPc.todo : LoopPc → List String
  | next children => children
  | get child children | set child children _ _ => child :: children
  | _ => []

/-- What the loop knows of a node it has read: if the version is the same, so are the data,
and otherwise another client has written since. -/
structure ReadNode (s : Directory) (child : String) (result : FetcherResult) (version : Nat) : Prop where
  not_final : result.status.final = false
  unchanged : ∀ d, s.data child = some (d, version) → d = result
  changed : ∀ d v, s.data child = some (d, v) → version ≤ v ∧
    (v ≠ version → s.attempts.count child < s.outside.count child)

structure DirInv (s : Directory) : Prop where
  fresh : s.pc = .getChildren → s.attempts = [] ∧ s.updates = []
  counted : s.number_of_nodes_updated = s.updates.length
  moved : ∀ u ∈ s.updates, u.replaced.final = false ∧ u.written = .canceled
  distinct : (s.updates.map (·.child)).Nodup
  todo_nodup : s.pc.todo.Nodup
  todo_new : ∀ n ∈ s.pc.todo, n ∉ s.updates.map (·.child) ∧ s.attempts.count n ≤ s.outside.count n
  bound : ∀ n, s.attempts.count n ≤ s.outside.count n + 1
  returned : ∀ n, s.pc = .returned n → n = s.updates.length
  not_raised : ∀ e, s.pc ≠ .raised e
  read : ∀ child children result version, s.pc = .set child children result version → ReadNode s child result version

theorem dirInv_start (present : Bool) (names : List String) (nodup : names.Nodup) (data : String → NodeData) :
    DirInv (.start present names nodup data) where
  fresh := fun _ => ⟨rfl, rfl⟩
  counted := rfl
  moved := by simp [Directory.start]
  distinct := by simp [Directory.start]
  todo_nodup := nodup_nil
  todo_new := by simp [Directory.start, LoopPc.todo]
  bound := by simp [Directory.start]
  returned := by simp [Directory.start]
  not_raised := by simp [Directory.start]
  read := by simp [Directory.start]

theorem DirInv.goto (hi : DirInv s) {pc : LoopPc} (hf : pc ≠ .getChildren) (ht : pc.todo.Nodup)
    (hnew : ∀ n ∈ pc.todo, n ∉ s.updates.map (·.child) ∧ s.attempts.count n ≤ s.outside.count n)
    (hr : ∀ n, pc = .returned n → n = s.updates.length) (hra : ∀ e, pc ≠ .raised e)
    (hre : ∀ child children result version, pc = .set child children result version → ReadNode s child result version) :
    DirInv { s with pc := pc } where
  fresh := fun h => absurd h hf
  counted := hi.counted
  moved := hi.moved
  distinct := hi.distinct
  todo_nodup := ht
  todo_new := hnew
  bound := hi.bound
  returned := hr
  not_raised := hra
  read := fun child children result version hpc => { hre child children result version hpc with }

/-- The same for a step that leaves out some of what is to do. -/
theorem DirInv.next (hi : DirInv s) {children : List String} (h : children.Sublist s.pc.todo) :
    DirInv { s with pc := .next children } :=
  hi.goto (by simp) (hi.todo_nodup.sublist h) (fun n hn => hi.todo_new n (h.subset hn)) (by simp) (by simp) (by simp)

/-- A call of `set` for a node, which the loop is done with or reads again. -/
theorem DirInv.attempt (hi : DirInv s) {child children result version}
    (hpc : s.pc = .set child children result version) :
    DirInv { s with attempts := s.attempts ++ [child], pc := .next children } := by
  have ht : s.pc.todo = child :: children := by rw [hpc]; rfl
  have hno := hi.todo_nodup
  rw [ht, nodup_cons] at hno
  refine ⟨by simp, hi.counted, hi.moved, hi.distinct, hno.2, fun n hn => ?_, fun n => ?_, by simp, by simp, by simp⟩
  · have hne : child ≠ n := by
      rintro rfl
      exact hno.1 hn
    have hold := hi.todo_new n (by rw [ht]; exact mem_cons_of_mem _ hn)
    rw [count_append, count_singleton, beq_false_of_ne hne]
    exact hold
  · by_cases hn : child = n
    · subst hn
      have hold := (hi.todo_new child (by rw [ht]; exact mem_cons_self)).2
      rw [count_append, count_singleton_self]
      exact Nat.succ_le_succ hold
    · rw [count_append, count_singleton, beq_false_of_ne hn]
      exact hi.bound n

/-- A write of another client. -/
theorem DirInv.written (hi : DirInv s) {name old current}
    (hd : s.data name = some (old, current)) : DirInv { s with
      data := Function.update s.data name (some (data, current + 1)), outside := s.outside ++ [name] } := by
  have hm (n : String) : s.outside.count n ≤ (s.outside ++ [name]).count n := by
    rw [count_append]
    exact Nat.le_add_right _ _
  refine { hi with todo_new := ?_, bound := ?_, read := ?_ }
  · intro n hn
    exact ⟨(hi.todo_new n hn).1, Nat.le_trans (hi.todo_new n hn).2 (hm n)⟩
  · intro n
    exact Nat.le_trans (hi.bound n) (Nat.succ_le_succ (hm n))
  · intro child children result version hpc
    have hr := hi.read _ _ _ _ hpc
    by_cases hna : child = name
    · subst hna
      have hle := (hr.changed old current hd).1
      have ht := (hi.todo_new child (by rw [hpc]; exact mem_cons_self)).2
      refine ⟨hr.not_final, fun d hd' => ?_, fun d v hd' => ?_⟩
      · simp only [Function.update_self, Option.some.injEq, Prod.mk.injEq] at hd'
        omega
      · simp only [Function.update_self, Option.some.injEq, Prod.mk.injEq] at hd'
        refine ⟨by omega, fun _ => ?_⟩
        rw [count_append, count_singleton_self]
        exact Nat.lt_succ_of_le ht
    · refine ⟨hr.not_final, fun d hd' => ?_, fun d v hd' => ?_⟩
      · simp only [Function.update_of_ne hna] at hd'
        exact hr.unchanged d hd'
      · simp only [Function.update_of_ne hna] at hd'
        exact ⟨(hr.changed d v hd').1, fun hne => Nat.lt_of_lt_of_le ((hr.changed d v hd').2 hne) (hm child)⟩

/-- A node that another client deletes. -/
theorem DirInv.deleted (hi : DirInv s) (name : String) : DirInv { s with data := Function.update s.data name none } := by
  refine { hi with read := fun child children result version hpc => ?_ }
  have hr := hi.read _ _ _ _ hpc
  have hold {p : FetcherResult × Nat} (h : Function.update s.data name none child = some p) : s.data child = some p := by
    by_cases hn : child = name
    · rw [hn, Function.update_self] at h
      cases h
    · rwa [Function.update_of_ne hn] at h
  exact ⟨hr.not_final, fun d hd => hr.unchanged d (hold hd), fun d v hd => hr.changed d v (hold hd)⟩

theorem dirInv_moves (h : DirMoves s t) (hi : DirInv s) : DirInv t := by
  cases h with
  | listed hpc hp =>
    obtain ⟨hat, hup⟩ := hi.fresh hpc
    refine hi.goto (by simp) ((hp.nodup_iff).2 (s.nodup.filter _)) ?_ (by simp) (by simp) (by simp)
    simp [hat, hup]
  | absent hpc =>
    refine hi.goto (by simp) nodup_nil (by simp [LoopPc.todo]) ?_ (by simp) (by simp)
    simp [(hi.fresh hpc).2]
  | returns hpc =>
    refine hi.goto (by simp) nodup_nil (by simp [LoopPc.todo]) ?_ (by simp) (by simp)
    simp [hi.counted]
  | visits hpc =>
    have ht := hi.todo_nodup
    have hnew := hi.todo_new
    rw [hpc] at ht hnew
    exact hi.goto (by simp) ht hnew (by simp) (by simp) (by simp)
  | passes hpc => exact hi.next (by rw [hpc]; exact sublist_cons_self _ _)
  | reads hpc hd hf =>
    have ht := hi.todo_nodup
    have hnew := hi.todo_new
    rw [hpc] at ht hnew
    refine hi.goto (by simp) ht hnew (by simp) (by simp) ?_
    rintro _ _ _ _ ⟨⟩
    refine ⟨hf, fun d hd' => ?_, fun d v hd' => ?_⟩
    · rw [hd] at hd'
      cases hd'
      rfl
    · rw [hd] at hd'
      cases hd'
      exact ⟨Nat.le_refl _, fun hne => absurd rfl hne⟩
  | @updates child children result old version hpc hd =>
    have hr := hi.read _ _ _ _ hpc
    have haf := hi.attempt hpc
    have ht : s.pc.todo = child :: children := by rw [hpc]; rfl
    have hno := hi.todo_nodup
    rw [ht, nodup_cons] at hno
    have hnew := (hi.todo_new child (by rw [ht]; exact mem_cons_self)).1
    refine ⟨by simp, ?_, ?_, ?_, haf.todo_nodup, fun n hn => ⟨?_, (haf.todo_new n hn).2⟩, haf.bound, by simp,
      by simp, by simp⟩
    · simp [hi.counted]
    · intro u hu
      rcases mem_append.1 hu with hu | hu
      · exact hi.moved u hu
      · rw [mem_singleton] at hu
        subst hu
        -- the version is the one that was read, so the status is too
        exact ⟨by rw [hr.unchanged old hd]; exact hr.not_final, rfl⟩
    · rw [map_append, nodup_append]
      refine ⟨hi.distinct, nodup_singleton _, ?_⟩
      rintro a ha b hb rfl
      rw [map_singleton, mem_singleton] at hb
      subst hb
      exact hnew ha
    · rw [map_append, mem_append, not_or]
      refine ⟨(haf.todo_new n hn).1, ?_⟩
      rw [map_singleton, mem_singleton]
      rintro rfl
      exact hno.1 hn
  | @stale child children result old version current hpc hd hv =>
    have hlt := (((hi.read _ _ _ _ hpc).changed old current hd).2 hv)
    have ht : s.pc.todo = child :: children := by rw [hpc]; rfl
    have haf := hi.attempt hpc
    have hno := hi.todo_nodup
    have hnew := (hi.todo_new child (by rw [ht]; exact mem_cons_self)).1
    rw [ht] at hno
    refine ⟨by simp, hi.counted, hi.moved, hi.distinct, hno, fun n hn => ?_, haf.bound, by simp, by simp, by simp⟩
    rcases mem_cons.1 hn with rfl | hn
    · refine ⟨hnew, ?_⟩
      rw [count_append, count_singleton_self]
      exact hlt
    · exact haf.todo_new n hn
  | gone hpc hd => exact hi.attempt hpc
  | written hd => exact hi.written hd
  | deleted name => exact hi.deleted name
  | directoryDeleted => exact { hi with read := fun _ _ _ _ hpc => { hi.read _ _ _ _ hpc with } }
  | idle => exact hi

/-! ## Whole runs -/

def Directory.moved (s : Directory) : List String :=
  ((s.updates.filter fun u => !u.replaced.final && u.written = .canceled).map (·.child)).dedup

/-- How the loop should get along with other clients. -/
structure CancelsNodes (s : Directory) : Prop where
  spares_final : ∀ u ∈ s.updates, u.replaced.final = false
  counts_moved : ∀ n, s.pc = .returned n → n = s.moved.length
  never_raises : ∀ e, s.pc ≠ .raised e
  goes_on : (∃ n, s.pc = .returned n) ∨ ∃ a t, a.own = true ∧ dirStep s a = some t
  /-- It calls `set` once, and once more for each write of another client at most. -/
  attempts_bounded : ∀ name, s.attempts.count name ≤ s.outside.count name + 1

theorem goes_on (hr : ∀ e, s.pc ≠ .raised e) : (∃ n, s.pc = .returned n) ∨ ∃ a t, a.own = true ∧ dirStep s a = some t := by
  have hl (h : (updateNodesToCancel s).isSome = true) : ∃ a t, a.own = true ∧ dirStep s a = some t := by
    obtain ⟨t, ht⟩ := Option.isSome_iff_exists.1 h
    exact ⟨.loop, t, rfl, ht⟩
  cases hpc : s.pc with
  | returned n => exact .inl ⟨n, rfl⟩
  | raised e => exact absurd hpc (hr e)
  | getChildren =>
    refine .inr ⟨.getChildren (s.names.filter fun n => (s.data n).isSome), ?_⟩
    rw [dirStep, getChildren, if_pos hpc, if_pos (isPerm_iff.2 (Perm.refl _))]
    split <;> exact ⟨_, rfl, rfl⟩
  | next children =>
    refine .inr (hl ?_)
    rw [updateNodesToCancel, hpc]
    cases children <;> rfl
  | get child children =>
    refine .inr (hl ?_)
    rw [updateNodesToCancel, hpc]
    rfl
  | set child children result version =>
    refine .inr (hl ?_)
    rw [updateNodesToCancel, hpc]
    rfl

/-- Whatever other clients do to the nodes, in any interleaving. -/
theorem cancels_nodes {present : Bool} {names : List String} {nodup : names.Nodup} {data : String → NodeData}
    {as : List DirLabel} {s : Directory} (h : exec dirStep (.start present names nodup data) as = some s) :
    CancelsNodes s := by
  have hi : DirInv s :=
    exec_inv DirInv (fun s a t hs hst => dirInv_moves (dirMoves_of_step hst) hs) (dirInv_start _ _ _ _) h
  have hall : (s.updates.filter fun u => !u.replaced.final && u.written = .canceled) = s.updates := by
    rw [filter_eq_self]
    intro u hu
    simp [hi.moved u hu]
  refine ⟨fun u hu => (hi.moved u hu).1, fun n hn => ?_, hi.not_raised, goes_on hi.not_raised, hi.bound⟩
  rw [Directory.moved, hall, hi.distinct.dedup, length_map]
  exact hi.returned n hn

def twoNodes : Directory :=
  .start true ["a", "b"] (by decide) fun n =>
    if n = "a" then some (⟨.running, none, none⟩, 1) else if n = "b" then some (⟨.done, none, some "Success"⟩, 1) else none

def oneConflict : List DirLabel :=
  [.getChildren ["a", "b"], .loop, .loop, .write "a" ⟨.running, none, none⟩ none, .loop, .loop, .loop, .loop, .loop, .loop]

theorem cancels_nodes_conflict :
    ∃ s, exec dirStep twoNodes oneConflict = some s ∧ s.pc = .returned 1 ∧ s.attempts = ["a", "a"] ∧ CancelsNodes s := by
  have hrun : ∃ s, exec dirStep twoNodes oneConflict = some s ∧ s.pc = .returned 1 ∧ s.attempts = ["a", "a"] :=
    ⟨_, rfl, rfl, rfl⟩
  obtain ⟨s, hs, hpc, ha⟩ := hrun
  exact ⟨s, hs, hpc, ha, cancels_nodes hs⟩

end BenchmarkAi.Downloads
