import BenchmarkAi.Lib.Dacite
import Mathlib.Data.List.Basic
/-!
# Events and download states

The parts of `bai_kafka_utils/events.py` and `bai_zk_utils/states.py` that the
fetcher reads and writes: the statuses, the downloadable contents, and the
`FetcherResult` a download node holds.
-/

open Lib.Dacite

namespace BenchmarkAi

inductive FetcherStatus
  | pending | running | done | failed | canceled
deriving DecidableEq, Repr

namespace FetcherStatus

def final : FetcherStatus → Bool
  | pending | running => false
  | done | failed | canceled => true

def success : FetcherStatus → Bool
  | done => true
  | _ => false

def str : FetcherStatus → String
  | pending => "PENDING"
  | running => "RUNNING"
  | done => "DONE"
  | failed => "FAILED"
  | canceled => "CANCELED"

end FetcherStatus

inductive Status
  | pending | running | failed | error | initializing | succeeded | canceled | metricsAvailable
deriving DecidableEq, Repr

inductive FetchedType
  | file | directory
deriving DecidableEq, Repr

structure ContentSizeInfo where
  total_size : Nat
  file_count : Nat
  max_size : Nat
deriving DecidableEq, Repr

/-- `DownloadableContent`. The first four fields are set by the user, the others
by the fetcher. Equality is the dataclass's, field by field. -/
structure DownloadableContent where
  src : String
  path : String
  id : Option String := none
  md5 : Option String := none
  dst : Option String := none
  type : Option FetchedType := none
  status : Option FetcherStatus := none
  message : Option String := none
  size_info : Option ContentSizeInfo := none
deriving DecidableEq, Repr

structure FetcherResult where
  status : FetcherStatus
  type : Option FetchedType := none
  message : Option String := none
deriving DecidableEq, Repr

/-- `FetcherResult.update`: a result that is not a success also replaces the
message and drops the destination. -/
def FetcherResult.update (r : FetcherResult) (c : DownloadableContent) : DownloadableContent :=
  let c := { c with status := some r.status, type := r.type }
  if r.status.success then c else { c with message := r.message, dst := none }

@[simp] theorem FetcherResult.update_status (r : FetcherResult) (c : DownloadableContent) :
    (r.update c).status = some r.status := by
  unfold FetcherResult.update; dsimp only; split <;> rfl

structure VisitedService where
  svc : String
  tstamp : Int
  version : String
  node : Option String := none
deriving DecidableEq, Repr

/-- `dacite.from_dict` of a visited service. -/
def readVisited {ε : Type} (fs : Fields) : Except (Error ε) VisitedService := do
  return {
    svc := ← field "svc" str none fs
    tstamp := ← field "tstamp" int none fs
    version := ← field "version" str none fs
    node := ← field "node" (optional str) (some none) fs }

/-- `BenchmarkEvent` with its payload and the entries of `visited`. -/
structure BenchmarkEvent (π : Type) (ν : Type := VisitedService) where
  action_id : String
  parent_action_id : Option String := none
  message_id : String
  client_id : String
  client_version : String
  client_username : String
  authenticated : Bool
  tstamp : Int
  visited : List ν
  type : String
  payload : π
deriving DecidableEq, Repr

def executorService : String := "executor"

/-- Python's truth value of an optional string: neither `None` nor empty. -/
def truthy : Option String → Bool
  | none => false
  | some s => s != ""

def pyStr : Option String → String
  | none => "None"
  | some s => s

end BenchmarkAi
