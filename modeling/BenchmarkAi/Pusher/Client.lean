import BenchmarkAi.Lib.Runs
import BenchmarkAi.Pusher.Loop
/-!
# The library that a benchmark calls

`benchmarkai/__init__.py`: `emit` writes the metrics as a line to the FIFO that the pusher reads. The first call that
has something to write waits until the FIFO is there.
-/

open Lib Lib.Dacite List

namespace BenchmarkAi.Pusher

inductive EmitError
  | typeError (message : String)
  | valueError (message : String)
  | fifoNotCreatedInTime
deriving DecidableEq

def className : Data → String
  | .null => "NoneType"
  | .bool _ => "bool"
  | .int _ => "int"
  | .float _ => "float"
  | .str _ => "str"
  | .arr _ => "list"
  | .obj _ => "dict"

structure Benchmark where
  dumps : Fields → List Char
  /-- In a unit that both times are multiples of. -/
  max_wait_time : ℕ
  step_time : ℕ

def Benchmark.serialize (b : Benchmark) : Data → Except EmitError (List Char)
  | .obj [] => throw (.valueError "The parameter `metrics` is empty")
  | .obj fs => return b.dumps fs
  | metrics => throw (.typeError ("The parameter `metrics` should be a dictionary, but it is <class '" ++
      className metrics ++ "'>"))

/-- The global `__fifo` with what is written to it, and the arguments of the calls that have returned. -/
structure Emitted where
  fifo : Option (List Char) := none
  returned : List Data := []

/-- The loop in `_getfifo`, by what `os.path.exists` returns; `none` while it goes on. -/
def Benchmark.wait (b : Benchmark) (waited : ℕ) : List Bool → Option (Except EmitError (List Char))
  | [] => none
  | true :: _ => some (return [])
  | false :: looks =>
    if b.max_wait_time < waited then some (throw .fifoNotCreatedInTime) else b.wait (waited + b.step_time) looks

def Benchmark.getfifo (b : Benchmark) (s : Emitted) (looks : List Bool) : Option (Except EmitError (List Char)) :=
  match s.fifo with
  | some text => some (return text)
  | none => b.wait 0 looks

/-- `_emit_to_fifo`. -/
def Benchmark.emit (b : Benchmark) (s : Emitted) (call : Data × List Bool) : Option Emitted :=
  match b.serialize call.1 with
  | .error _ => some s
  | .ok line =>
    match b.getfifo s call.2 with
    | none => none
    | some (.error _) => some s
    | some (.ok text) => some { fifo := some (text ++ (line ++ ['\n'])), returned := s.returned ++ [call.1] }

variable {b : Benchmark} {s t : Emitted} {call : Data × List Bool}

theorem serialize_ok {metrics line} (h : b.serialize metrics = .ok line) : ∃ fs, metrics = .obj fs ∧ line = b.dumps fs := by
  unfold Benchmark.serialize at h
  split at h
  · cases h
  · cases h
    exact ⟨_, rfl, rfl⟩
  · cases h

theorem wait_ok {waited looks text} (h : b.wait waited looks = some (.ok text)) : text = [] := by
  fun_induction Benchmark.wait b waited looks with
  | case2 => cases h; rfl
  | case4 _ _ _ ih => exact ih h
  | _ => cases h

theorem getfifo_ok {looks text} (h : b.getfifo s looks = some (.ok text)) : text = s.fifo.getD [] := by
  unfold Benchmark.getfifo at h
  split at h
  · rename_i hs
    cases h
    rw [hs, Option.getD_some]
  · rename_i hs
    rw [hs, wait_ok h, Option.getD_none]

/-- A call writes one line and returns, or it raises and nothing is written. -/
def Emits (b : Benchmark) (s : Emitted) (metrics : Data) (t : Emitted) : Prop := t = s ∨ ∃ fs, metrics = .obj fs ∧
  t.fifo = some (s.fifo.getD [] ++ (b.dumps fs ++ ['\n'])) ∧ t.returned = s.returned ++ [.obj fs]

theorem emit_step (h : b.emit s call = some t) : Emits b s call.1 t := by
  unfold Benchmark.emit at h
  split at h
  · exact .inl (Option.some.inj h).symm
  · rename_i line hl
    obtain ⟨fs, hfs, rfl⟩ := serialize_ok hl
    split at h
    · cases h
    · exact .inl (Option.some.inj h).symm
    · rename_i text ht
      cases h
      rw [getfifo_ok ht, hfs]
      exact .inr ⟨fs, rfl, rfl, rfl⟩

theorem readlines_dumps {objects : List Fields} (h : ∀ fs ∈ objects, '\n' ∉ b.dumps fs) :
    readlines (objects.flatMap fun fs => b.dumps fs ++ ['\n']) = objects.map fun fs => b.dumps fs ++ ['\n'] := by
  induction objects with
  | nil => rfl
  | cons fs objects ih =>
    rw [forall_mem_cons] at h
    rw [flatMap_cons, append_assoc, singleton_append, readlines_line h.1, ih h.2, map_cons]

/-- What `json.dumps` writes is one line, and `json.loads` reads it. -/
def Benchmark.Reads (b : Benchmark) (loads : List Char → Except LoopError Data) (fs : Fields) : Prop :=
  '\n' ∉ b.dumps fs ∧ loads (b.dumps fs ++ ['\n']) = .ok (.obj fs)

def Wrote (b : Benchmark) (loads : List Char → Except LoopError Data) (s : Emitted) : Prop :=
  ∃ objects : List Fields, (∀ fs ∈ objects, b.Reads loads fs) ∧ s.returned = objects.map .obj ∧
    s.fifo.getD [] = objects.flatMap fun fs => b.dumps fs ++ ['\n']

theorem wrote_step {loads} (hi : Wrote b loads s) (hc : ∀ fs, call.1 = .obj fs → b.Reads loads fs)
    (h : b.emit s call = some t) : Wrote b loads t := by
  obtain ⟨objects, ho, hr, ht⟩ := hi
  rcases emit_step h with rfl | ⟨fs, hfs, htx, hre⟩
  · exact ⟨objects, ho, hr, ht⟩
  · refine ⟨objects ++ [fs], ?_, by simp [hre, hr], by simp [htx, ht]⟩
    simpa [or_imp, forall_and] using ⟨ho, hc fs hfs⟩

/-- Each call of `emit` writes its line or nothing; and the pusher reads to the end of the FIFO, and calls its backend
with the arguments of the calls that have returned, in their order. -/
theorem listen_emitted {loads backend clock calls text} (h : exec b.emit {} calls = some s) (hf : s.fifo = some text)
    (hr : ∀ call ∈ calls, ∀ fs, call.1 = .obj fs → b.Reads loads fs) :
    (∀ s call t, b.emit s call = some t → Emits b s call.1 t) ∧
    ∃ l, Listener.listen loads backend clock { fifo := text } = (l, none) ∧ l.fifo = [] ∧ l.calls = s.returned := by
  obtain ⟨objects, ho, hre, ht⟩ : Wrote b loads s := exec_inv_along (Wrote b loads)
    (fun _ _ _ hi hc hs => wrote_step hi hc hs) ⟨[], nofun, rfl, rfl⟩ (along_of_forall hr {}) h
  have hl : Forall₂ (fun line fs => loads line = .ok (.obj fs)) (readlines text) objects := by
    rw [hf, Option.getD_some] at ht
    rw [ht, readlines_dumps fun fs hm => (ho fs hm).1, forall₂_map_left_iff, forall₂_same]
    exact fun fs hm => (ho fs hm).2
  rw [@listen_objects loads backend clock { fifo := text } objects hl, hre]
  exact ⟨fun _ _ _ => emit_step, _, rfl, rfl, rfl⟩

def lossBenchmark : Benchmark := ⟨fun _ => lossLine, 20, 1⟩

def lossCalls : List (Data × List Bool) :=
  [(.null, []), (.obj [("loss", .int 1)], [false, true]), (.obj [("loss", .int 1)], [])]

theorem listen_emitted_loss : ∃ s text l, exec lossBenchmark.emit {} lossCalls = some s ∧ s.fifo = some text ∧
    Listener.listen lossLoads lossBackend (fun _ => epoch) { fifo := text } = (l, none) ∧ l.calls = s.returned := by
  obtain ⟨s, text, h, hf⟩ : ∃ s text, exec lossBenchmark.emit {} lossCalls = some s ∧ s.fifo = some text :=
    ⟨_, _, rfl, rfl⟩
  obtain ⟨l, hl, -, hc⟩ := (@listen_emitted lossBenchmark s lossLoads lossBackend (fun _ => epoch) _ _ h hf (by
    simp [lossCalls, lossBenchmark, Benchmark.Reads, lossLine, lossLoads]
    rfl)).2
  exact ⟨s, text, l, h, hf, hl, hc⟩

end BenchmarkAi.Pusher
