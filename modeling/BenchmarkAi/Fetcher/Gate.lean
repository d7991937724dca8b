import BenchmarkAi.Lib.Runs
import BenchmarkAi.Events
/-!
# The fetch gate

`FetcherEventHandler.handle_event` starts one download for each content without
a `dst`, collects their completions in `on_done` and decides in `on_all_done`
whether the event goes down the pipeline. The download manager is the
environment here: it completes the started downloads in any order, also inside
`fetch`, and each completion writes a result to the content and calls `on_done`.

The contents are objects shared by the event, the task list and the pending
list, so the model keeps them in one list (the data sets, then the models) and
the other lists hold positions in it.
-/
open Lib

namespace BenchmarkAi.Gate

/-- The handler's configuration, `md5sum`, and the path part of `urlparse`. -/
structure Handler where
  producer_topic : String
  s3_download_bucket : String
  md5sum : String → String
  urlPath : String → String

structure FetcherPayload where
  datasets : List DownloadableContent
  models : List DownloadableContent := []
deriving DecidableEq, Repr

inductive Call
  | sendEvent (payload : FetcherPayload) (topic : String)
  | sendStatus (status : Status) (msg : String)
deriving DecidableEq, Repr

structure St where
  nData : Nat
  objs : List DownloadableContent
  queue : List Nat
  pending : List Nat
  running : List Nat
  sent : List Call
deriving DecidableEq, Repr

def St.payload (s : St) : FetcherPayload := ⟨s.objs.take s.nData, s.objs.drop s.nData⟩

def getContentDst (h : Handler) (c : DownloadableContent) : String :=
  let s3uri := "s3://" ++ h.s3_download_bucket ++ "/data_sets/" ++ h.md5sum c.src
  let s3uri := if truthy c.md5 then s3uri ++ "/" ++ pyStr c.md5 else s3uri
  if h.urlPath c.src ≠ "" then s3uri ++ h.urlPath c.src else s3uri

def collectStatus (downloads : List DownloadableContent) : Status :=
  let fetch_statuses := downloads.map (·.status)
  if some .canceled ∈ fetch_statuses then .canceled
  else if some .failed ∈ fetch_statuses then .failed
  else if some .pending ∈ fetch_statuses then .pending
  else if some .running ∈ fetch_statuses then .running
  else .succeeded

def doneMessage (c : DownloadableContent) : Call :=
  match c.status with
  | some .done => .sendStatus .pending (c.src ++ " downloaded...")
  | some .canceled => .sendStatus .canceled (c.src ++ " download canceled...")
  | some .failed => .sendStatus .failed (c.src ++ " download failed: '" ++ pyStr c.message ++ "'...")
  | some .running | some .pending => .sendStatus .pending ("Downloading " ++ c.src ++ "...")
  | none => .sendStatus .error ("Unknown status None issued for " ++ c.src)

/-- `on_all_done`. It looks at the data sets only. -/
def onAllDone (h : Handler) (p : FetcherPayload) : List Call :=
  match collectStatus p.datasets with
  | .succeeded => [.sendEvent p h.producer_topic, .sendStatus .succeeded "All downloads processed"]
  | .canceled => [.sendStatus .canceled "Aborting execution"]
  | .failed => [.sendStatus .failed "Aborting execution"]
  | _ => []

/-- `pending.remove(content)`: drops the first equal content, if there is one. -/
def removePending (objs : List DownloadableContent) (i : Nat) : List Nat → Option (List Nat)
  | [] => none
  | j :: js => if objs[j]? = objs[i]? then some js else (removePending objs i js).map (j :: ·)

/-- `on_done`; `none` is the `ValueError` of `list.remove`. -/
def onDone (h : Handler) (s : St) (i : Nat) : Option St := do
  let c ← s.objs[i]?
  let pending ← removePending s.objs i s.pending
  let s := { s with pending := pending, sent := s.sent ++ [doneMessage c] }
  if pending = [] then some { s with sent := s.sent ++ onAllDone h s.payload } else some s

inductive Label
  /-- The loop of `execute_all` reaches its next task: `execute` up to the call of `fetch`. -/
  | execute
  /-- The download manager completes a started download with a result, having
  set the content's size. -/
  | complete (i : Nat) (size : Option ContentSizeInfo) (result : FetcherResult)
deriving DecidableEq, Repr

def step (h : Handler) (s : St) : Label → Option St
  | .execute =>
    match s.queue with
    | [] => none
    | i :: queue => do
      let c ← s.objs[i]?
      some { s with
        objs := s.objs.set i { c with dst := some (getContentDst h c) }
        queue := queue
        running := s.running ++ [i]
        sent := s.sent ++ [.sendStatus .pending ("Preparing " ++ c.src ++ " for download...")] }
  | .complete i size result =>
    if i ∈ s.running then do
      let c ← s.objs[i]?
      onDone h { s with
        objs := s.objs.set i (result.update { c with size_info := size })
        running := s.running.filter (· ≠ i) } i
    else none

/-- The requested downloads: the contents without a `dst`, in the order of
`event.payload.datasets + event.payload.models`. -/
def requested (p : FetcherPayload) : List Nat :=
  (List.range (p.datasets ++ p.models).length).filter fun i =>
    ((p.datasets ++ p.models)[i]?.map fun c => !truthy c.dst).getD false

def handleEvent (h : Handler) (p : FetcherPayload) : St :=
  let tasks := requested p
  { nData := p.datasets.length
    objs := p.datasets ++ p.models
    queue := tasks
    pending := tasks
    running := []
    sent := if tasks = [] then
        [.sendStatus .succeeded "Nothing to fetch", .sendEvent p h.producer_topic]
      else [.sendStatus .pending "Initiating downloads..."] }

def AllDone (s : St) : Prop := s.queue = [] ∧ s.running = []

/-! ## What the gate should do -/

def eventsSent (h : Handler) (calls : List Call) : List FetcherPayload :=
  calls.filterMap fun
    | .sendEvent p topic => if topic = h.producer_topic then some p else none
    | .sendStatus _ _ => none

def aborts (calls : List Call) : List Status :=
  calls.filterMap fun
    | .sendStatus st msg => if msg = "Aborting execution" then some st else none
    | .sendEvent _ _ => none

/-- The gate's contract for a payload, the final statuses `fin` of its requested
downloads and the calls made: the event is sent once if all of them are done;
otherwise it is not sent, and the last call is the only abort. -/
def FetchGate (h : Handler) (p : FetcherPayload) (fin : Nat → FetcherStatus) (calls : List Call) : Prop :=
  if ∀ i ∈ requested p, fin i = .done then (eventsSent h calls).length = 1
  else
    let st : Status := if ∃ i ∈ requested p, fin i = .canceled then .canceled else .failed
    eventsSent h calls = [] ∧ aborts calls = [st] ∧ calls.getLast? = some (.sendStatus st "Aborting execution")

end BenchmarkAi.Gate
