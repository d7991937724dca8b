import BenchmarkAi.Downloads.Canceling
import BenchmarkAi.Downloads.Dispatching
import BenchmarkAi.Lib.Tickets
/-!
# Many downloads and one cancel

Any number of fetches, of any clients and actions, each one a download of
`Protocol`. Fetches of one source queue for its write lock, in the order of their
requests. Fetches with one node path share a node: what one does to it the others
see as `outside`. One call of `DownloadManager.cancel` runs beside them, first over
the Kubernetes jobs of the action, then over its download nodes.

The action id of a cancel is not empty, so that the directory it lists is the
action's.
-/
open Lib Lib.Znode

namespace BenchmarkAi.Downloads

structure Fetch where
  client_id : String
  action_id : String
  name : String
  st : St
deriving DecidableEq, Repr

/-- `__get_node_path`, the parts of the path below `/downloads`. Without an action id it
ends with the client. -/
def Fetch.nodePath (f : Fetch) : List String :=
  if f.action_id = "" then [f.client_id] else [f.client_id, f.action_id, f.name]

def Fetch.samePath (f g : Fetch) : Bool := f.nodePath = g.nodePath

def Fetch.inAction (f : Fetch) (client_id action_id : String) : Bool :=
  f.client_id = client_id && f.action_id = action_id

def Fetch.src (f : Fetch) : String := f.st.content.src

inductive CancelPc
  | cancelAll
  | getChildren
  | next (children : List String)
  | node (children : List String) (owner : Nat) (c : Canceler)
  | returned
deriving DecidableEq, Repr

structure Cancel where
  client_id : String
  action_id : String
  before : Nat
  pc : CancelPc
  number_of_nodes_updated : Nat
deriving DecidableEq, Repr

structure Sys where
  fetches : List Fetch
  jobs : List Nat
  cancel : Option Cancel
  /-- The calls of `dispatch_fetch` after the return of `cancel`, for fetches of its
  action that had been requested before it. -/
  late : List Nat
deriving DecidableEq, Repr

def Sys.init : Sys := ⟨[], [], none, []⟩

def settle (i : Nat) (f : Fetch) (j : Nat) (g : Fetch) : Fetch :=
  if j = i then f
  else if f.samePath g ∧ g.st.cell.data ≠ f.st.cell.data then
    { g with st := { g.st with cell := g.st.cell.outside f.st.cell.data } }
  else g

def Sys.put (s : Sys) (i : Nat) (f : Fetch) : Sys := { s with fetches := s.fetches.mapIdx (settle i f) }

/-- A new fetch, before it has the lock. Its node may be there already. -/
def Sys.newFetch (s : Sys) (client_id action_id name : String) (content : DownloadableContent) : Fetch :=
  let f : Fetch := ⟨client_id, action_id, name, start content⟩
  match (s.fetches.find? f.samePath).bind (·.st.cell.data) with
  | none => f
  | some d => { f with st := { f.st with cell := f.st.cell.outside (some d) } }

def Sys.served (s : Sys) (i : Nat) (src : String) : Bool :=
  (s.fetches.take i).all fun g => g.src ≠ src || (g.st.sect ≠ .waiting && !g.st.held)

def Sys.allows (s : Sys) (i : Nat) (f : Fetch) : Label → Bool
  | .lock => s.served i f.src
  | .jobWrite _ => f.st.dispatches ≠ []
  | .cancel | .cancelStep _ | .outside _ => false
  | .estimate _ | .run _ | .deliver _ | .thread _ _ => true

def dispatches (f : Fetch) : Label → Bool
  | .run _ => f.st.sect = .dispatch
  | _ => false

/-- The labels of the job of `g` are those `cleanup` selects by after `f`: the client, the
action and the source. Without an action id the selector names the client only. -/
def Fetch.selects (f g : Fetch) : Bool :=
  g.client_id = f.client_id && (f.action_id = "" || g.action_id = f.action_id && g.src = f.src)

def Sys.cleanup (s : Sys) (f : Fetch) : List Nat := s.jobs.filter fun j => ¬ s.fetches[j]?.any f.selects

def Sys.jobsAfter (s : Sys) (i : Nat) (f : Fetch) : Label → List Nat
  | .run true =>
    if f.st.sect = .dispatch then i :: s.jobs
    else if f.st.sect = .handle .cleanup then s.cleanup f
    else s.jobs
  | .thread .cleanup true => s.cleanup f
  | _ => s.jobs

/-- The fetch belongs to the action of a `cancel` that has returned, and was requested before it. -/
def Sys.canceled (s : Sys) (i : Nat) (f : Fetch) : Bool :=
  s.cancel.any fun c => c.pc = .returned && i < c.before && f.inAction c.client_id c.action_id

def Sys.children (s : Sys) (client_id action_id : String) : List String :=
  ((s.fetches.filter fun f => f.inAction client_id action_id && f.st.cell.data.isSome).map (·.name)).dedup

inductive SysLabel
  | request (client_id action_id name : String) (content : DownloadableContent)
  | fetch (i : Nat) (a : Label)
  | cancel (client_id action_id : String)
  | cancelAll
  | getChildren (children : List String)
  | cancelNext
  | cancelNode
deriving Repr

def cancelNext (s : Sys) (c : Cancel) : Option Sys :=
  match c.pc with
  | .next [] => some { s with cancel := some { c with pc := .returned } }
  | .next (name :: children) =>
    match s.fetches.findIdx? fun f => f.inAction c.client_id c.action_id && f.name = name with
    | none => some { s with cancel := some { c with pc := .next children } }
    | some i => do
      let f ← s.fetches[i]?
      let st ← step f.st .cancel
      some { (s.put i { f with st := st }) with cancel := some { c with pc := .node children i .get } }
  | _ => none

def cancelNode (s : Sys) (c : Cancel) : Option Sys :=
  match c.pc with
  | .node children _ (.finished counted) =>
    let n := if counted then c.number_of_nodes_updated + 1 else c.number_of_nodes_updated
    some { s with cancel := some { c with pc := .next children, number_of_nodes_updated := n } }
  | .node children i k => do
    let f ← s.fetches[i]?
    let r ← updateNodeToCancel f.st.toShared k
    let st ← step f.st (.cancelStep k)
    some { (s.put i { f with st := st }) with cancel := some { c with pc := .node children i r.2 } }
  | _ => none

def sysStep (s : Sys) : SysLabel → Option Sys
  | .request client_id action_id name content =>
    some { s with fetches := s.fetches ++ [s.newFetch client_id action_id name content] }
  | .fetch i a => do
    let f ← s.fetches[i]?
    if s.allows i f a then
      let st ← step f.st a
      some { (s.put i { f with st := st }) with
        jobs := s.jobsAfter i f a
        late := if dispatches f a && s.canceled i f then i :: s.late else s.late }
    else none
  | .cancel client_id action_id =>
    if s.cancel = none then
      some { s with cancel := some ⟨client_id, action_id, s.fetches.length, .cancelAll, 0⟩ }
    else none
  | .cancelAll => do
    let c ← s.cancel
    if c.pc = .cancelAll then
      some { s with
        jobs := s.jobs.filter fun j => ¬ s.fetches[j]?.any (·.inAction c.client_id c.action_id)
        cancel := some { c with pc := .getChildren } }
    else none
  | .getChildren children => do
    let c ← s.cancel
    if c.pc = .getChildren ∧ children.isPerm (s.children c.client_id c.action_id) then
      some { s with cancel := some { c with pc := .next children } }
    else none
  | .cancelNext => do
    let c ← s.cancel
    cancelNext s c
  | .cancelNode => do
    let c ← s.cancel
    cancelNode s c

inductive SysMoves (s : Sys) : SysLabel → Sys → Prop
  | request (cl ac nm : String) (c : DownloadableContent) :
      SysMoves s (.request cl ac nm c) { s with fetches := s.fetches ++ [s.newFetch cl ac nm c] }
  | fetch {i} {f : Fetch} {l} {st} (hf : s.fetches[i]? = some f) (hal : s.allows i f l = true)
      (hst : step f.st l = some st) : SysMoves s (.fetch i l) { (s.put i { f with st := st }) with
        jobs := s.jobsAfter i f l
        late := if dispatches f l && s.canceled i f then i :: s.late else s.late }
  | cancel {cl ac} (h : s.cancel = none) :
      SysMoves s (.cancel cl ac) { s with cancel := some ⟨cl, ac, s.fetches.length, .cancelAll, 0⟩ }
  | cancelAll {c} {jobs} (hc : s.cancel = some c) :
      SysMoves s .cancelAll { s with jobs := jobs, cancel := some { c with pc := .getChildren } }
  | getChildren {c} {children} (hc : s.cancel = some c) :
      SysMoves s (.getChildren children) { s with cancel := some { c with pc := .next children } }
  | returns {c : Cancel} (hc : s.cancel = some c) (hpc : c.pc = .next []) :
      SysMoves s .cancelNext { s with cancel := some { c with pc := .returned } }
  | skips {c} {children} (hc : s.cancel = some c) :
      SysMoves s .cancelNext { s with cancel := some { c with pc := .next children } }
  | visits {c} {children} {i} {f : Fetch} {st} (hc : s.cancel = some c)
      (hf : s.fetches[i]? = some f) (hst : step f.st .cancel = some st) :
      SysMoves s .cancelNext { (s.put i { f with st := st }) with
        cancel := some { c with pc := .node children i .get } }
  | counts {c} {children} {n} (hc : s.cancel = some c) :
      SysMoves s .cancelNode { s with cancel := some { c with pc := .next children, number_of_nodes_updated := n } }
  | updates {c} {children} {i} {k k'} {f : Fetch} {st}
      (hc : s.cancel = some c) (hf : s.fetches[i]? = some f) (hst : step f.st (.cancelStep k) = some st) :
      SysMoves s .cancelNode { (s.put i { f with st := st }) with
        cancel := some { c with pc := .node children i k' } }

variable {s t : Sys} {c : Cancel} {a : SysLabel} {i : Nat} {f : Fetch} {l : Label}

theorem sysMoves_cancelNext (hc : s.cancel = some c) (h : cancelNext s c = some t) : SysMoves s .cancelNext t := by
  unfold cancelNext at h
  split at h
  · cases h
    exact .returns hc ‹_›
  · split at h
    · cases h
      exact .skips hc
    · obtain ⟨f, hf, h⟩ := Option.bind_eq_some_iff.1 h
      obtain ⟨st, hst, h⟩ := Option.bind_eq_some_iff.1 h
      cases h
      exact .visits hc hf hst
  · cases h

theorem sysMoves_cancelNode (hc : s.cancel = some c) (h : cancelNode s c = some t) : SysMoves s .cancelNode t := by
  unfold cancelNode at h
  split at h
  · cases h
    exact .counts hc
  · obtain ⟨f, hf, h⟩ := Option.bind_eq_some_iff.1 h
    obtain ⟨r, -, h⟩ := Option.bind_eq_some_iff.1 h
    obtain ⟨st, hst, h⟩ := Option.bind_eq_some_iff.1 h
    cases h
    exact .updates hc hf hst
  · cases h

theorem sysMoves_of_step (h : sysStep s a = some t) : SysMoves s a t := by
  cases a with
  | request cl ac nm c => cases h; exact .request cl ac nm c
  | fetch i l =>
    obtain ⟨f, hf, h⟩ := Option.bind_eq_some_iff.1 h
    split at h
    · obtain ⟨st, hst, h⟩ := Option.bind_eq_some_iff.1 h
      cases h
      exact .fetch hf ‹_› hst
    · cases h
  | cancel cl ac =>
    simp only [sysStep] at h
    split at h
    · cases h; exact .cancel ‹_›
    · cases h
  | cancelAll =>
    obtain ⟨c, hc, h⟩ := Option.bind_eq_some_iff.1 h
    split at h
    · cases h; exact .cancelAll hc
    · cases h
  | getChildren children =>
    obtain ⟨c, hc, h⟩ := Option.bind_eq_some_iff.1 h
    split at h
    · cases h; exact .getChildren hc
    · cases h
  | cancelNext => obtain ⟨c, hc, h⟩ := Option.bind_eq_some_iff.1 h; exact sysMoves_cancelNext hc h
  | cancelNode => obtain ⟨c, hc, h⟩ := Option.bind_eq_some_iff.1 h; exact sysMoves_cancelNode hc h

/-! ## What a step does to one fetch -/

def Label.own : Label → Bool
  | .cancel | .cancelStep _ | .outside _ => false
  | _ => true

theorem allows_own (h : s.allows i f l = true) : l.own = true ∧ l.exclusive = true := by
  cases l <;> first | exact ⟨rfl, rfl⟩ | cases h

/-- Fetch `j` has been `g` and is now `g'`: it has stood still, or taken one step. -/
structure Took (s : Sys) (a : SysLabel) (j : Nat) (g g' : Fetch) : Prop where
  client : g'.client_id = g.client_id
  action : g'.action_id = g.action_id
  name : g'.name = g.name
  moved : g'.st = g.st ∨ ∃ l, step g.st l = some g'.st ∧ (l.own = true → a = .fetch j l ∧ s.allows j g l = true) ∧
    (l.exclusive = false → ∃ i f, i ≠ j ∧ s.fetches[i]? = some f ∧ f.samePath g = true)

theorem took_refl (s : Sys) (a : SysLabel) (j : Nat) (g : Fetch) : Took s a j g g := ⟨rfl, rfl, rfl, .inl rfl⟩

theorem took_put {j g g' st} (hf : s.fetches[i]? = some f) (hst : step f.st l = some st)
    (hown : l.own = true → a = .fetch i l ∧ s.allows i f l = true) (hex : l.exclusive = true) (hg : s.fetches[j]? = some g)
    (hg' : (s.put i { f with st := st }).fetches[j]? = some g') : Took s a j g g' := by
  have he : g' = settle i { f with st := st } j g := by
    simpa [Sys.put, List.getElem?_mapIdx, hg, eq_comm] using hg'
  subst he
  unfold settle
  by_cases hij : j = i
  · subst hij
    rw [hf, Option.some.injEq] at hg
    subst hg
    rw [if_pos rfl]
    exact ⟨rfl, rfl, rfl, .inr ⟨l, hst, hown, fun h => by rw [hex] at h; cases h⟩⟩
  · rw [if_neg hij]
    split
    · rename_i hc
      refine ⟨rfl, rfl, rfl, .inr ⟨.outside st.cell.data, rfl, fun h => (by cases h), fun _ => ?_⟩⟩
      exact ⟨i, f, Ne.symm hij, hf, hc.1⟩
    · exact took_refl s a j g

theorem put_length (s : Sys) (i : Nat) (f : Fetch) : (s.put i f).fetches.length = s.fetches.length := by
  simp [Sys.put]

/-- A fetch that exists after the step has taken one of its own steps, or is new. -/
theorem took_of_step (h : SysMoves s a t) :
    (∃ cl ac nm c, a = .request cl ac nm c ∧ t.fetches = s.fetches ++ [s.newFetch cl ac nm c]) ∨
    (t.fetches.length = s.fetches.length ∧
      ∀ j g g', s.fetches[j]? = some g → t.fetches[j]? = some g' → Took s a j g g') := by
  cases h with
  | request cl ac nm c => exact .inl ⟨cl, ac, nm, c, rfl, rfl⟩
  | fetch hf hal hst =>
    refine .inr ⟨put_length s _ _, fun j g g' hg hg' => ?_⟩
    exact took_put hf hst (fun _ => ⟨rfl, hal⟩) (allows_own hal).2 hg hg'
  | visits hc hf hst =>
    refine .inr ⟨put_length s _ _, fun j g g' hg hg' => ?_⟩
    exact took_put hf hst (fun h => by cases h) rfl hg hg'
  | updates hc hf hst =>
    refine .inr ⟨put_length s _ _, fun j g g' hg hg' => ?_⟩
    exact took_put hf hst (fun h => by cases h) rfl hg hg'
  | cancel | cancelAll | getChildren | returns | skips | counts =>
    refine .inr ⟨rfl, fun j g g' hg hg' => ?_⟩
    obtain rfl : g = g' := Option.some.inj (hg.symm.trans hg')
    exact took_refl s _ j g

end BenchmarkAi.Downloads
