import BenchmarkAi.Events
import BenchmarkAi.Lib.Runs
import BenchmarkAi.Lib.Znode
/-!
# One download

`DownloadManager.fetch` of one content: the section that runs under its write
lock, the calls of `__handle_node_state` that watch deliveries start on other
threads, the fetcher job that writes its result to the download node, and the
calls of `cancel` that write to it too. A label is one step of one of them, so a
run is an interleaving.

Each call of a collaborator (the estimator, ZooKeeper, the dispatcher, `on_done`)
may raise; the label says whether it does. `outside` stands for clients that use
the same node path: nothing is assumed of what they leave there.
-/
open Lib Lib.Znode

namespace BenchmarkAi.Downloads

inductive Handler
  | get
  | got (result : FetcherResult)
  /-- The content is updated, the node is about to be deleted. -/
  | delete
  /-- In `_on_done_and_unlock`, about to call `on_done`. -/
  | report
  | cleanup
  | release
deriving DecidableEq, Repr

inductive Next
  | to (h : Handler)
  | returned
  | raised
deriving DecidableEq, Repr

inductive Section
  | waiting
  | estimate
  /-- The estimator raised; about to call `on_done`. -/
  | failReport
  | failRelease
  | failed
  | create
  | handle (h : Handler)
  | estimateAgain
  | dispatch
  | returned
  | raised
deriving DecidableEq, Repr

inductive Canceler
  | get
  | set (result : FetcherResult) (version : Nat)
  /-- Done with the node, which it has counted as updated or not. -/
  | finished (counted : Bool)
deriving DecidableEq, Repr

structure Shared where
  content : DownloadableContent
  cell : Cell FetcherResult
  held : Bool
  done : List DownloadableContent
deriving DecidableEq, Repr

structure Dispatch where
  held : Bool
  done : List DownloadableContent
deriving DecidableEq, Repr

structure St extends Shared where
  sect : Section
  threads : List Handler
  cancelers : List Canceler
  dispatches : List Dispatch
  /-- The writes to the node by the job and by `cancel`: the old status and the new one. -/
  replaced : List (FetcherStatus × FetcherStatus)
deriving DecidableEq, Repr

def start (content : DownloadableContent) : St :=
  ⟨⟨content, .empty, false, []⟩, .waiting, [], [], [], []⟩

def initialData : FetcherResult := { status := .pending }

def estimateFailed (src error : String) : FetcherResult :=
  { status := .failed, message := some ("Failed to estimate the size of content " ++ src ++ ": " ++ error) }

/-- What the fetcher job ends with, and the result it writes then. -/
inductive JobOutcome
  | fetched (type : Option FetchedType)
  | error (ex : String)
deriving DecidableEq, Repr

def JobOutcome.result : JobOutcome → FetcherResult
  | .fetched type => { status := .done, type := type, message := some "Success" }
  | .error ex => { status := .failed, message := some ex }

/-- The next step of `__handle_node_state`; `ok` is whether the call it makes returns. -/
def handleNodeState (s : Shared) (ok : Bool) : Handler → Shared × Next
  | .get =>
    match ok, s.cell.getWatch with
    | true, some (result, cell) => ({ s with cell := cell }, .to (.got result))
    | _, _ => (s, .raised)
  | .got result =>
    if result.status.final then ({ s with content := result.update s.content }, .to .delete) else (s, .returned)
  | .delete =>
    match ok, s.cell.delete with
    | true, some cell => ({ s with cell := cell }, .to .report)
    | _, _ => (s, .raised)
  | .report => ({ s with done := s.content :: s.done }, if ok then .to .cleanup else .raised)
  | .cleanup => (s, if ok then .to .release else .raised)
  | .release => if ok ∧ s.held then ({ s with held := false }, .returned) else (s, .raised)

/-- The same as a relation, one case for each way a step can go. -/
inductive Handles (s : Shared) : Bool → Handler → Shared → Next → Prop
  | get {result} {cell} (h : s.cell.getWatch = some (result, cell)) :
      Handles s true .get { s with cell := cell } (.to (.got result))
  | final {ok} {result : FetcherResult} (h : result.status.final = true) :
      Handles s ok (.got result) { s with content := result.update s.content } (.to .delete)
  | notFinal {ok} {result : FetcherResult} (h : result.status.final = false) :
      Handles s ok (.got result) s .returned
  | delete {cell} (h : s.cell.delete = some cell) :
      Handles s true .delete { s with cell := cell } (.to .report)
  | report : Handles s true .report { s with done := s.content :: s.done } (.to .cleanup)
  | reportRaises : Handles s false .report { s with done := s.content :: s.done } .raised
  | cleanup : Handles s true .cleanup s (.to .release)
  | release (h : s.held = true) : Handles s true .release { s with held := false } .returned
  | raises {h} (hr : h ≠ .report) : Handles s false h s .raised
  | missing {h} (hh : h = .get ∨ h = .delete) (hn : s.cell.data = none) : Handles s true h s .raised
  | notHeld (h : s.held = false) : Handles s true .release s .raised

theorem handles_step (s : Shared) (ok : Bool) (h : Handler) :
    Handles s ok h (handleNodeState s ok h).1 (handleNodeState s ok h).2 := by
  cases h with
  | get =>
    cases ok with
    | false => exact .raises (by simp)
    | true =>
      cases hg : s.cell.getWatch with
      | none => simp only [handleNodeState, hg]; exact .missing (.inl rfl) (getWatch_none.1 hg)
      | some p => simp only [handleNodeState, hg]; exact .get hg
  | got result =>
    cases hf : result.status.final with
    | false => simp only [handleNodeState, hf]; exact .notFinal hf
    | true => simp only [handleNodeState, hf]; exact .final hf
  | delete =>
    cases ok with
    | false => exact .raises (by simp)
    | true =>
      cases hd : s.cell.delete with
      | none => simp only [handleNodeState, hd]; exact .missing (.inr rfl) (delete_none.1 hd)
      | some c => simp only [handleNodeState, hd]; exact .delete hd
  | report =>
    cases ok with
    | false => exact .reportRaises
    | true => exact .report
  | cleanup =>
    cases ok with
    | false => exact .raises (by simp)
    | true => exact .cleanup
  | release =>
    cases ok with
    | false => exact .raises (by simp)
    | true =>
      cases hl : s.held with
      | false => simp only [handleNodeState, hl]; exact .notHeld hl
      | true => simp only [handleNodeState, hl]; exact .release hl

/-! ### The loop of `_update_nodes_to_cancel` at one node -/

inductive ZkError
  | noNode
  | badVersion
deriving DecidableEq, Repr

abbrev NodeData := Option (FetcherResult × Nat)

def zkGet : NodeData → Except ZkError (FetcherResult × Nat)
  | none => .error .noNode
  | some node => .ok node

def zkSet (data : FetcherResult) (version : Option Nat) : NodeData → Except ZkError (FetcherResult × Nat)
  | none => .error .noNode
  | some (_, current) => if version.all (· = current) then .ok (data, current + 1) else .error .badVersion

/-- Where a call of the loop leads: on to `set` or back to `get`, out of the loop, or out of the
inner `try` with an exception. -/
inductive Round
  | set (result : FetcherResult) (version : Nat)
  | get
  | left
  | written (node : FetcherResult × Nat)
  | raised (e : ZkError)

def Round.caught : ZkError → Round
  | .noNode => .left
  | e => .raised e

def readNode (node : NodeData) : Round :=
  match zkGet node with
  | .error e => .caught e
  | .ok (result, version) => if result.status.final then .left else .set result version

def writeNode (result : FetcherResult) (version : Nat) (node : NodeData) : Round :=
  match zkSet { result with status := .canceled } (some version) node with
  | .ok node => .written node
  | .error .badVersion => .get
  | .error e => .caught e

inductive Reads (node : NodeData) : Round → Prop
  | missing (hn : node = none) : Reads node .left
  | final {result : FetcherResult} {version} (hd : node = some (result, version)) (h : result.status.final = true) :
      Reads node .left
  | read {result : FetcherResult} {version} (hd : node = some (result, version)) (h : result.status.final = false) :
      Reads node (.set result version)

inductive Writes (result : FetcherResult) (version : Nat) (node : NodeData) : Round → Prop
  | missing (hn : node = none) : Writes result version node .left
  | write {old} (hd : node = some (old, version)) :
      Writes result version node (.written ({ result with status := .canceled }, version + 1))
  | stale {old current} (hd : node = some (old, current)) (hv : current ≠ version) : Writes result version node .get

theorem reads_readNode (node : NodeData) : Reads node (readNode node) := by
  unfold readNode
  cases node with
  | none => exact .missing rfl
  | some p =>
    cases hf : p.1.status.final with
    | true => simp only [zkGet, hf, if_true]; exact .final rfl hf
    | false => simp only [zkGet, hf, Bool.false_eq_true, if_false]; exact .read rfl hf

theorem writes_writeNode (result : FetcherResult) (version : Nat) (node : NodeData) :
    Writes result version node (writeNode result version node) := by
  unfold writeNode
  cases node with
  | none => exact .missing rfl
  | some p =>
    obtain ⟨old, current⟩ := p
    by_cases hv : current = version
    · subst hv
      simp only [zkSet, Option.all_some, decide_true, if_true]
      exact .write rfl
    · have hall : ¬ ((some version).all fun v => decide (v = current)) = true := by simpa [eq_comm] using hv
      simp only [zkSet, if_neg hall]
      exact .stale rfl hv

def Canceler.round (node : NodeData) : Canceler → Option Round
  | .get => some (readNode node)
  | .set result version => some (writeNode result version node)
  | .finished _ => none

def updateNodeToCancel (s : Shared) (c : Canceler) : Option (Shared × Canceler) :=
  match c.round s.cell.data with
  | some (.set result version) => some (s, .set result version)
  | some .get => some (s, .get)
  | some .left => some (s, .finished false)
  | some (.written node) => (s.cell.set node.1).map fun cell => ({ s with cell := cell }, .finished true)
  | some (.raised _) | none => none

inductive Cancels (s : Shared) : Canceler → Shared → Canceler → Prop
  | missing {c} (hn : s.cell.data = none) : Cancels s c s (.finished false)
  | final {result : FetcherResult} {version} (hd : s.cell.data = some (result, version))
      (h : result.status.final = true) : Cancels s .get s (.finished false)
  | read {result : FetcherResult} {version} (hd : s.cell.data = some (result, version))
      (h : result.status.final = false) : Cancels s .get s (.set result version)
  | write {result old} {version} {cell}
      (hd : s.cell.data = some (old, version)) (h : s.cell.set { result with status := .canceled } = some cell) :
      Cancels s (.set result version) { s with cell := cell } (.finished true)
  | stale {result old} {version current} (hd : s.cell.data = some (old, current))
      (h : current ≠ version) : Cancels s (.set result version) s .get

theorem cancels_of_eq {s s' c c'} (e : updateNodeToCancel s c = some (s', c')) : Cancels s c s' c' := by
  unfold updateNodeToCancel at e
  cases c with
  | get =>
    have hr := reads_readNode s.cell.data
    dsimp only [Canceler.round] at e
    generalize readNode s.cell.data = r at e hr
    cases hr with
    | missing hn => cases e; exact .missing hn
    | final hd h => cases e; exact .final hd h
    | read hd h => cases e; exact .read hd h
  | set result version =>
    have hw := writes_writeNode result version s.cell.data
    dsimp only [Canceler.round] at e
    generalize writeNode result version s.cell.data = r at e hw
    cases hw with
    | missing hn => cases e; exact .missing hn
    | write hd =>
      obtain ⟨cell, hc, e⟩ := Option.map_eq_some_iff.1 e
      cases e
      exact .write hd hc
    | stale hd hv => cases e; exact .stale hd hv
  | finished counted => cases e

def replacing (s : Shared) (new : FetcherStatus) : List (FetcherStatus × FetcherStatus) :=
  match s.cell.data with
  | none => []
  | some (result, _) => [(result.status, new)]

inductive Label
  /-- The lock is granted: `on_content_locked` is called. -/
  | lock
  | estimate (o : Except String ContentSizeInfo)
  | run (ok : Bool)
  | deliver (e : Event)
  | thread (h : Handler) (ok : Bool)
  | jobWrite (o : JobOutcome)
  | cancel
  | cancelStep (c : Canceler)
  /-- Another user of the node path. -/
  | outside (n : Option (FetcherResult × Nat))
deriving Repr

def Next.resume : Next → Section
  | .to h => .handle h
  | .returned => .estimateAgain
  | .raised => .raised

def Next.threads : Next → List Handler
  | .to h => [h]
  | _ => []

def sectionStep (s : St) (ok : Bool) : Option St :=
  match s.sect with
  | .failReport =>
    some { s with done := s.content :: s.done, sect := if ok then .failRelease else .raised }
  | .failRelease =>
    some { s with held := s.held && !ok, sect := if ok then .failed else .raised }
  | .create =>
    match ok, s.cell.create initialData with
    | true, some cell => some { s with cell := cell, sect := .handle .get }
    | _, _ => some { s with sect := .raised }
  | .handle h =>
    let r := handleNodeState s.toShared ok h
    some { s with toShared := r.1, sect := r.2.resume }
  | .dispatch =>
    some { s with dispatches := ⟨s.held, s.done⟩ :: s.dispatches, sect := if ok then .returned else .raised }
  | _ => none

def step (s : St) : Label → Option St
  | .lock => if s.sect = .waiting then some { s with held := true, sect := .estimate } else none
  | .estimate o =>
    match s.sect, o with
    | .estimate, .ok info => some { s with content := { s.content with size_info := some info }, sect := .create }
    | .estimate, .error e =>
      some { s with content := (estimateFailed s.content.src e).update s.content, sect := .failReport }
    | .estimateAgain, .ok info =>
      some { s with content := { s.content with size_info := some info }, sect := .dispatch }
    | .estimateAgain, .error _ => some { s with sect := .raised }
    | _, _ => none
  | .run ok => sectionStep s ok
  | .deliver e =>
    if e ∈ s.cell.fired then
      some { s with
        cell := { s.cell with fired := s.cell.fired.erase e }
        threads := if e = .changed then .get :: s.threads else s.threads }
    else none
  | .thread h ok =>
    if h ∈ s.threads then
      let r := handleNodeState s.toShared ok h
      some { s with toShared := r.1, threads := r.2.threads ++ s.threads.erase h }
    else none
  | .jobWrite o =>
    (s.cell.set o.result).map fun cell =>
      { s with cell := cell, replaced := replacing s.toShared o.result.status ++ s.replaced }
  | .cancel => some { s with cancelers := .get :: s.cancelers }
  | .cancelStep c =>
    if c ∈ s.cancelers then
      (updateNodeToCancel s.toShared c).map fun r =>
        { s with
          toShared := r.1
          cancelers := r.2 :: s.cancelers.erase c
          replaced := if r.2 = .finished true then replacing s.toShared .canceled ++ s.replaced else s.replaced }
    else none
  | .outside n => some { s with cell := s.cell.outside n }

inductive Moves (s : St) : Label → St → Prop
  | lock (h : s.sect = .waiting) : Moves s .lock { s with held := true, sect := .estimate }
  | estimate {info} (h : s.sect = .estimate) :
      Moves s (.estimate (.ok info)) { s with content := { s.content with size_info := some info }, sect := .create }
  | estimateRaises {e} (h : s.sect = .estimate) : Moves s (.estimate (.error e))
      { s with content := (estimateFailed s.content.src e).update s.content, sect := .failReport }
  | estimateAgain {info} (h : s.sect = .estimateAgain) :
      Moves s (.estimate (.ok info)) { s with content := { s.content with size_info := some info }, sect := .dispatch }
  | estimateAgainRaises {e} (h : s.sect = .estimateAgain) :
      Moves s (.estimate (.error e)) { s with sect := .raised }
  | failReport {ok} (h : s.sect = .failReport) :
      Moves s (.run ok) { s with done := s.content :: s.done, sect := if ok then .failRelease else .raised }
  | failRelease {ok} (h : s.sect = .failRelease) :
      Moves s (.run ok) { s with held := s.held && !ok, sect := if ok then .failed else .raised }
  | create {cell} (h : s.sect = .create) (hc : s.cell.create initialData = some cell) :
      Moves s (.run true) { s with cell := cell, sect := .handle .get }
  | createRaises {ok} (h : s.sect = .create) (hc : ok = true → s.cell.data ≠ none) :
      Moves s (.run ok) { s with sect := .raised }
  | handle {ok} {h} {sh} {n : Next} (hh : s.sect = .handle h)
      (hs : Handles s.toShared ok h sh n) : Moves s (.run ok) { s with toShared := sh, sect := n.resume }
  | dispatch {ok} (h : s.sect = .dispatch) : Moves s (.run ok)
      { s with dispatches := ⟨s.held, s.done⟩ :: s.dispatches, sect := if ok then .returned else .raised }
  | deliver {e} (h : e ∈ s.cell.fired) : Moves s (.deliver e)
      { s with
        cell := { s.cell with fired := s.cell.fired.erase e }
        threads := if e = .changed then .get :: s.threads else s.threads }
  | thread {ok} {h} {sh} {n : Next} (hh : h ∈ s.threads)
      (hs : Handles s.toShared ok h sh n) :
      Moves s (.thread h ok) { s with toShared := sh, threads := n.threads ++ s.threads.erase h }
  | jobWrite {o : JobOutcome} {cell} (h : s.cell.set o.result = some cell) :
      Moves s (.jobWrite o) { s with cell := cell, replaced := replacing s.toShared o.result.status ++ s.replaced }
  | cancel : Moves s .cancel { s with cancelers := .get :: s.cancelers }
  | cancelStep {c c'} {sh} (h : c ∈ s.cancelers) (hs : Cancels s.toShared c sh c') :
      Moves s (.cancelStep c)
        { s with
          toShared := sh
          cancelers := c' :: s.cancelers.erase c
          replaced := if c' = .finished true then replacing s.toShared .canceled ++ s.replaced else s.replaced }
  | outside {n} : Moves s (.outside n) { s with cell := s.cell.outside n }

theorem moves_sectionStep {s t ok} (e : sectionStep s ok = some t) : Moves s (.run ok) t := by
  unfold sectionStep at e
  cases h : s.sect with
  | failReport => simp only [h, Option.some.injEq] at e; subst e; exact .failReport h
  | failRelease => simp only [h, Option.some.injEq] at e; subst e; exact .failRelease h
  | create =>
    cases hc : s.cell.create initialData with
    | none =>
      have hd : s.cell.data ≠ none := fun hd => by simp [Cell.create, hd] at hc
      cases ok <;> simp only [h, hc, Option.some.injEq] at e <;> subst e <;> exact .createRaises h fun _ => hd
    | some cell =>
      cases ok <;> simp only [h, hc, Option.some.injEq] at e <;> subst e
      · exact .createRaises h (by simp)
      · exact .create h hc
  | handle hd => simp only [h, Option.some.injEq] at e; subst e; exact .handle h (handles_step _ _ _)
  | dispatch => simp only [h, Option.some.injEq] at e; subst e; exact .dispatch h
  | waiting | estimate | failed | estimateAgain | returned | raised => simp [h] at e

theorem moves_of_step {s t a} (e : step s a = some t) : Moves s a t := by
  cases a with
  | lock =>
    simp only [step] at e
    split at e
    · cases e; exact .lock ‹_›
    · cases e
  | estimate o =>
    simp only [step] at e
    split at e <;> first | (obtain rfl := Option.some.inj e) | cases e
    · exact .estimate ‹_›
    · exact .estimateRaises ‹_›
    · exact .estimateAgain ‹_›
    · exact .estimateAgainRaises ‹_›
  | run ok => exact moves_sectionStep e
  | deliver ev =>
    simp only [step] at e
    split at e
    · cases e; exact .deliver ‹_›
    · cases e
  | thread h ok =>
    simp only [step] at e
    split at e
    · cases e; exact .thread ‹_› (handles_step _ _ _)
    · cases e
  | jobWrite o =>
    obtain ⟨cell, hc, rfl⟩ := Option.map_eq_some_iff.1 e
    exact .jobWrite hc
  | cancel => cases e; exact .cancel
  | cancelStep c =>
    simp only [step] at e
    split at e
    · obtain ⟨r, hr, rfl⟩ := Option.map_eq_some_iff.1 e
      exact .cancelStep ‹_› (cancels_of_eq hr)
    · cases e
  | outside n => cases e; exact .outside

/-- The steps from the lock to the dispatch call. -/
def lockedRun : List Label :=
  [.lock, .estimate (.ok ⟨10, 1, 10⟩), .run true, .run true, .run true, .estimate (.ok ⟨10, 1, 10⟩)]

end BenchmarkAi.Downloads
