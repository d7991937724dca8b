import BenchmarkAi.Lib.Dacite
import BenchmarkAi.Pusher.Args
/-!
# The loop of the metrics pusher

`bai_metrics_pusher/loop.py`: lines are read from the FIFO until its other end is closed, and what
each of them holds goes to the backend. A line that is no JSON is logged, and the backend is then
called with `None`.
-/

open Lib Lib.Dacite List

namespace BenchmarkAi.Pusher

inductive LoopError
  | jsonDecodeError
  | recursionError
  | attributeError
  | typeError
deriving DecidableEq, Repr

/-- `None` is the value that `null` is read as. -/
def deserialize (loads : List Char → Except LoopError Data) (line : List Char) : Except LoopError Data :=
  match loads line with
  | .error .jsonDecodeError => return .null
  | result => result

def readline : List Char → List Char × List Char
  | [] => ([], [])
  | c :: cs => if c = '\n' then ([c], cs) else (c :: (readline cs).1, (readline cs).2)

/-! ## The backends -/

structure Moment where
  timestamp : Int
  isoformat : String

inductive Sent
  | record (topic key : String) (m : KafkaExporterMetric Data)
  | doc (d : Data)
  | logged (d : Data)

inductive Backend
  | kafka (b : KafkaBackend)
  | elasticsearch (action_id client_id : String) (labels : Dict String)
  | logging (labels : Dict String)

def labelsData (labels : Dict String) : Fields := labels.entries.map fun kv => (kv.1, .str kv.2)

def metricDoc (action_id client_id : String) (labels : Dict String) (now : Moment) (metrics : Data) : Data :=
  .obj (Dict.ofFields ([("action-id", .str action_id), ("client-id", .str client_id)] ++ labelsData labels ++
    [("timestamp", .str now.isoformat), ("metrics", metrics), ("tracing", .obj [("service", .str "metrics-pusher")])])).entries

/-- `emit`. Only a dict has `items` and takes a text as an index. -/
def Backend.emit (now : Moment) : Backend → Data → Except LoopError (List Sent)
  | kafka b, .obj fs => return (b.emit (now.timestamp * 1000) fs).map (.record b.topic b.key)
  | kafka _, _ => throw .attributeError
  | elasticsearch action_id client_id labels, metrics => return [.doc (metricDoc action_id client_id labels now metrics)]
  | logging labels, .obj fs => return [.logged (.obj (assign "labels" (.obj (labelsData labels)) fs))]
  | logging _, _ => throw .typeError

def Backend.sentFor (now : Moment) : Backend → Fields → List Sent
  | kafka b, fs => (b.emit (now.timestamp * 1000) fs).map (.record b.topic b.key)
  | elasticsearch action_id client_id labels, fs => [.doc (metricDoc action_id client_id labels now (.obj fs))]
  | logging labels, fs => [.logged (.obj (assign "labels" (.obj (labelsData labels)) fs))]

theorem Backend.emit_obj (now : Moment) (b : Backend) (fs : Fields) : b.emit now (.obj fs) = .ok (b.sentFor now fs) := by
  cases b <;> rfl

/-! ## The loop -/

structure Listener where
  fifo : List Char
  calls : List Data := []
  sent : List Sent := []

variable {l l' : Listener} {line : List Char}

section Loop
variable (loads : List Char → Except LoopError Data) (backend : Backend) (clock : ℕ → Moment)

def Listener.handle (l : Listener) (line : List Char) : Listener × Option LoopError :=
  match deserialize loads line with
  | .error e => (l, some e)
  | .ok metrics =>
    let called := { l with calls := l.calls ++ [metrics] }
    match backend.emit (clock l.calls.length) metrics with
    | .error e => (called, some e)
    | .ok sent => ({ called with sent := l.sent ++ sent }, none)

def Listener.turn (l : Listener) : Option (Listener × Option LoopError) :=
  if (readline l.fifo).1 = [] then none
  else some ({ l with fifo := (readline l.fifo).2 }.handle loads backend clock (readline l.fifo).1)

variable {loads backend clock}

theorem readline_fst_eq_nil {cs} : (readline cs).1 = [] ↔ cs = [] := by
  cases cs with
  | nil => exact iff_of_true rfl rfl
  | cons c cs =>
    refine iff_of_false ?_ (cons_ne_nil c cs)
    rw [readline]
    split <;> exact cons_ne_nil _ _

theorem length_readline_snd (cs : List Char) : (readline cs).2.length ≤ cs.length - 1 := by
  induction cs with
  | nil => exact Nat.le_refl 0
  | cons c cs ih =>
    rw [readline]
    split
    · exact Nat.le_refl _
    · exact Nat.le_trans ih (Nat.sub_le _ _)

theorem fifo_handle (l : Listener) (line : List Char) : (l.handle loads backend clock line).1.fifo = l.fifo := by
  rw [Listener.handle]
  split
  · rfl
  · split <;> rfl

theorem turn_eq_some {r} (h : l.turn loads backend clock = some r) :
    l.fifo ≠ [] ∧ { l with fifo := (readline l.fifo).2 }.handle loads backend clock (readline l.fifo).1 = r := by
  rw [Listener.turn] at h
  split at h
  · cases h
  · rename_i hl
    exact ⟨mt readline_fst_eq_nil.2 hl, Option.some.inj h⟩

theorem turn_shorter {e} (h : l.turn loads backend clock = some (l', e)) : l'.fifo.length < l.fifo.length := by
  obtain ⟨hne, hh⟩ := turn_eq_some h
  have hf := @fifo_handle loads backend clock { l with fifo := (readline l.fifo).2 } (readline l.fifo).1
  rw [hh] at hf
  have hle := length_readline_snd l.fifo
  have hpos := length_pos_iff.2 hne
  rw [show l'.fifo = (readline l.fifo).2 from hf]
  omega

variable (loads backend clock)

def Listener.listen (l : Listener) : Listener × Option LoopError :=
  match _h : l.turn loads backend clock with
  | none => (l, none)
  | some (l', none) => l'.listen
  | some (l', some e) => (l', some e)
termination_by l.fifo.length
decreasing_by exact turn_shorter _h

/-! ## Lines and metrics -/

def readlines : List Char → List (List Char)
  | [] => []
  | c :: cs =>
    if c = '\n' then [c] :: readlines cs
    else match readlines cs with
      | [] => [[c]]
      | line :: lines => (c :: line) :: lines

def metricsOf (line : List Char) : Option Fields :=
  match loads line with
  | .ok (.obj fs) => some fs
  | _ => none

/-- The pusher reads to the end of the file, calls the backend with the metrics of the lines that have
some, and what is sent is what these lead to. -/
structure Survives (text : List Char) : Prop where
  returns : (Listener.listen loads backend clock { fifo := text }).2 = none
  reads_all : (Listener.listen loads backend clock { fifo := text }).1.fifo = []
  calls : (Listener.listen loads backend clock { fifo := text }).1.calls =
    ((readlines text).filterMap (metricsOf loads)).map .obj
  sent : (Listener.listen loads backend clock { fifo := text }).1.sent =
    (((readlines text).filterMap (metricsOf loads)).mapIdx fun i fs => backend.sentFor (clock i) fs).flatten

variable {loads backend clock}

theorem readlines_of_ne_nil {cs} (h : cs ≠ []) : readlines cs = (readline cs).1 :: readlines (readline cs).2 := by
  induction cs with
  | nil => exact absurd rfl h
  | cons c cs ih =>
    rw [readlines, readline]
    split
    · rfl
    · cases cs with
      | nil => rfl
      | cons d ds => rw [ih (cons_ne_nil d ds)]

theorem readlines_line {rest} (h : '\n' ∉ line) :
    readlines (line ++ '\n' :: rest) = (line ++ ['\n']) :: readlines rest := by
  induction line with
  | nil => rfl
  | cons c line ih =>
    rw [mem_cons, not_or] at h
    rw [cons_append, readlines, if_neg (Ne.symm h.1), ih h.2]
    rfl

theorem turn_nil (h : l.fifo = []) : l.turn loads backend clock = none :=
  if_pos (readline_fst_eq_nil.2 h)

theorem turn_of_ne_nil (h : l.fifo ≠ []) : l.turn loads backend clock =
    some ({ l with fifo := (readline l.fifo).2 }.handle loads backend clock (readline l.fifo).1) :=
  if_neg (mt readline_fst_eq_nil.1 h)

theorem listen_eof (h : l.turn loads backend clock = none) : l.listen loads backend clock = (l, none) := by
  rw [Listener.listen, h]

theorem listen_again (h : l.turn loads backend clock = some (l', none)) :
    l.listen loads backend clock = l'.listen loads backend clock := by
  rw [Listener.listen, h]

theorem listen_raised {e} (h : l.turn loads backend clock = some (l', some e)) :
    l.listen loads backend clock = (l', some e) := by
  rw [Listener.listen, h]

theorem handle_ok (h : l.handle loads backend clock line = (l', none)) :
    ∃ metrics sent, deserialize loads line = .ok metrics ∧ backend.emit (clock l.calls.length) metrics = .ok sent ∧
      l' = { l with calls := l.calls ++ [metrics], sent := l.sent ++ sent } := by
  rw [Listener.handle] at h
  split at h
  · cases h
  · rename_i metrics hm
    split at h
    · cases h
    · rename_i sent hs
      exact ⟨metrics, sent, hm, hs, (Prod.mk.inj h).1.symm⟩

theorem listen_ok (l : Listener) (h : (l.listen loads backend clock).2 = none) :
    (l.listen loads backend clock).1.fifo = [] ∧ ∃ values,
      Forall₂ (fun line v => deserialize loads line = .ok v) (readlines l.fifo) values ∧
      (l.listen loads backend clock).1.calls = l.calls ++ values := by
  fun_induction Listener.listen loads backend clock l with
  | case1 l ht =>
    have hnil : l.fifo = [] := by
      by_contra hne
      rw [turn_of_ne_nil hne] at ht
      cases ht
    refine ⟨hnil, [], ?_, (append_nil _).symm⟩
    rw [hnil]
    exact .nil
  | case2 l l' ht ih =>
    obtain ⟨hne, hh⟩ := turn_eq_some ht
    obtain ⟨metrics, sent, hm, -, rfl⟩ := handle_ok hh
    obtain ⟨hf, values, hv, hc⟩ := ih h
    refine ⟨hf, metrics :: values, ?_, ?_⟩
    · rw [readlines_of_ne_nil hne]
      exact .cons hm hv
    · rw [hc, append_assoc]
      rfl
  | case3 => cases h

theorem listen_objects (l : Listener) {objects}
    (h : Forall₂ (fun line fs => loads line = .ok (.obj fs)) (readlines l.fifo) objects) :
    l.listen loads backend clock = ({
      fifo := []
      calls := l.calls ++ objects.map .obj
      sent := l.sent ++ (objects.mapIdx fun i fs => backend.sentFor (clock (l.calls.length + i)) fs).flatten }, none) := by
  induction objects generalizing l with
  | nil =>
    have hnil : l.fifo = [] := by
      by_contra hne
      rw [readlines_of_ne_nil hne] at h
      cases h
    rw [listen_eof (turn_nil hnil)]
    cases l
    subst hnil
    simp
  | cons fs objects ih =>
    have hne : l.fifo ≠ [] := by
      rintro hnil
      rw [hnil] at h
      cases h
    rw [readlines_of_ne_nil hne] at h
    obtain ⟨hl, hr⟩ := forall₂_cons.1 h
    have ht : l.turn loads backend clock = some ({
        fifo := (readline l.fifo).2
        calls := l.calls ++ [.obj fs]
        sent := l.sent ++ backend.sentFor (clock l.calls.length) fs }, none) := by
      rw [turn_of_ne_nil hne, Listener.handle, deserialize, hl]
      simp only [Backend.emit_obj]
    rw [listen_again ht, ih _ hr]
    simp [Nat.add_assoc, Nat.add_comm 1]

theorem metricsOf_eq_some {fs} : metricsOf loads line = some fs ↔ loads line = .ok (.obj fs) := by
  rw [metricsOf]
  split
  · rename_i heq
    rw [heq]
    simp
  · rename_i hne
    exact iff_of_false nofun (hne fs)

theorem deserialize_obj {fs} (h : deserialize loads line = .ok (.obj fs)) : loads line = .ok (.obj fs) := by
  rw [deserialize] at h
  split at h
  · cases h
  · exact h

theorem forall₂_metricsOf {lines : List (List Char)} (h : ∀ line ∈ lines, ∃ fs, loads line = .ok (.obj fs)) :
    Forall₂ (fun line fs => loads line = .ok (.obj fs)) lines (lines.filterMap (metricsOf loads)) := by
  induction lines with
  | nil => exact .nil
  | cons line lines ih =>
    rw [forall_mem_cons] at h
    obtain ⟨fs, hfs⟩ := h.1
    rw [filterMap_cons_some (metricsOf_eq_some.2 hfs)]
    exact .cons hfs (ih h.2)

/-- Whichever the backend is, it is enough for one line to hold no object. -/
theorem survives_iff (text : List Char) :
    Survives loads backend clock text ↔ ∀ line ∈ readlines text, ∃ fs, loads line = .ok (.obj fs) := by
  constructor
  · intro hs line hli
    obtain ⟨-, values, hva, hc⟩ := listen_ok { fifo := text } hs.returns
    obtain ⟨v, hv, hr⟩ := exists_of_forall₂ hva.flip hli
    rw [hs.calls, nil_append] at hc
    rw [← hc] at hv
    obtain ⟨fs, -, rfl⟩ := mem_map.1 hv
    exact ⟨fs, deserialize_obj hr⟩
  · intro h
    have hl := @listen_objects loads backend clock { fifo := text } _ (forall₂_metricsOf h)
    refine ⟨?_, ?_, ?_, ?_⟩
    · rw [hl]
    · rw [hl]
    · rw [hl]
      rfl
    · rw [hl]
      simp

end Loop

def lossLine : List Char := ['\x7b', '"', 'l', 'o', 's', 's', '"', ':', ' ', '1', '\x7d']

def lossLoads (line : List Char) : Except LoopError Data :=
  if line = lossLine ++ ['\n'] then return .obj [("loss", .int 1)] else throw .jsonDecodeError

def lossBackend : Backend := .kafka (.create "action" "client" .empty "topic" ["localhost:9092"] "key")

def epoch : Moment := { timestamp := 0, isoformat := "1970-01-01T00:00:00" }

theorem survives_loss_lines :
    Survives lossLoads lossBackend (fun _ => epoch) (lossLine ++ '\n' :: (lossLine ++ '\n' :: [])) := by
  rw [survives_iff, readlines_line (by decide), readlines_line (by decide)]
  intro line hl
  obtain rfl : line = lossLine ++ ['\n'] := by simpa [readlines] using hl
  exact ⟨_, if_pos rfl⟩

/-- The line after one that is no JSON is not read, or there is a document without metrics. -/
theorem stopped_by_bad_line :
    Listener.listen lossLoads lossBackend (fun _ => epoch) { fifo := 'x' :: '\n' :: (lossLine ++ ['\n']) } =
        ({ fifo := lossLine ++ ['\n'], calls := [.null] }, some .attributeError) ∧
      Listener.listen lossLoads (.logging .empty) (fun _ => epoch) { fifo := 'x' :: '\n' :: (lossLine ++ ['\n']) } =
        ({ fifo := lossLine ++ ['\n'], calls := [.null] }, some .typeError) ∧
      Listener.listen lossLoads (.elasticsearch "action" "client" .empty) (fun _ => epoch)
          { fifo := 'x' :: '\n' :: (lossLine ++ ['\n']) } =
        ({
          fifo := []
          calls := [.null, .obj [("loss", .int 1)]]
          sent := [.doc (metricDoc "action" "client" .empty epoch .null),
            .doc (metricDoc "action" "client" .empty epoch (.obj [("loss", .int 1)]))] }, none) := by
  refine ⟨listen_raised rfl, listen_raised rfl, ?_⟩
  rw [listen_again rfl, listen_again rfl]
  exact listen_eof rfl

end BenchmarkAi.Pusher
