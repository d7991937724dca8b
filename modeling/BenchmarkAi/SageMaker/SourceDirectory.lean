import BenchmarkAi.SageMaker.Engine
import BenchmarkAi.Transpiler.Entrypoint
import Mathlib.Data.List.TakeWhile
/-!
# One command, three places

The command of a descriptor is `benchmark_code` with `args` behind it. The transpiler puts its words
into a container or its text into the script of an MPI job, and `sm_executor/source_dir.py` writes
it to a script for SageMaker. We prove for which descriptors the three are the same command.
-/

open Lib List

namespace BenchmarkAi.SageMaker

open Transpiler

/-! ## The script for SageMaker -/

/-- The lines that `_create_shell_entrypoint` writes, each of them with a line break behind it. It does not
look at `args`. -/
def createShellEntrypoint (d : BenchmarkDescriptor) : Py (List String) :=
  match d.ml.bind (·.benchmark_code) with
  | none => throw .builtin
  | some code =>
    return ["#!/usr/bin/env bash"] ++ d.env.vars.map (fun (var, val) => "export " ++ var ++ "=\"" ++ val ++ "\"") ++ [code]

def commandOf (lines : List String) : String := lines.getLast?.getD ""

/-! ## Words -/

def wordsOf (text : Option String) : Option (List String) := Shlex.split (text.getD "")

def Splits (o : Outside) : Prop := ∀ text words, o.shlexSplit text = .ok words ↔ Shlex.split text = some words

def OneLine (code : String) (args : Option String) : Prop := '\n' ∉ code.toList ∧ '\n' ∉ (args.getD "").toList

/-- The benchmark starts the words, wherever it runs: in the container of a single node or of an inference
client, as the script of an MPI job, and as the script of a SageMaker job. -/
structure SameCommand (code : String) (args : Option String) (words : List String) : Prop where
  container : ∀ o r h ml, Splits o → r.descriptor.ml = some ml → ml.benchmark_code = some code → ml.args = args →
    r.descriptor.hardware.strategy ≠ .horovod → buildBenchmark o r = .ok h →
    Scalars o r.descriptor.hardware.strategy.template (benchmarkValues o r) →
    ∃ spec c, getPodSpec h none = .ok spec ∧ containersNamed benchmarkContainer spec = [(.main, c)] ∧
      c.get? "command" = some (strings words) ∧ c.get? "args" = none
  horovod : OneLine code args → ∀ o r h ml, r.descriptor.ml = some ml → ml.benchmark_code = some code →
    ml.args = args → r.descriptor.hardware.strategy = .horovod → buildBenchmark o r = .ok h →
    (scriptOf ("entrypoint-" ++ r.jobId o) h).bind Shlex.split = some words
  sagemaker : OneLine code args → ∀ (d : BenchmarkDescriptor) ml, d.ml = some ml → ml.benchmark_code = some code →
    ml.args = args → ∃ lines, createShellEntrypoint d = .ok lines ∧ Shlex.split (commandOf lines) = some words

/-- The command has the words also without the white space that Python strips. -/
def StripsBlanks (code : String) (words : List String) : Prop := Shlex.split (String.ofList (strip code.toList)) = some words

/-! ## Stripping -/

theorem pySpace_of_blank {c} (h : Shlex.blank c = true) : pySpace c = true := by
  simp only [Shlex.blank, Bool.or_eq_true, decide_eq_true_eq] at h
  rcases h with ((rfl | rfl) | rfl) | rfl <;> decide

theorem strip_append {cs blanks} (h : ∀ c ∈ blanks, pySpace c = true) : strip (cs ++ blanks) = strip cs := by
  have hr : ∀ c ∈ blanks.reverse, pySpace c = true := fun c hc => h c (mem_reverse.1 hc)
  rw [strip, strip, dropWhile_append]
  split
  · rename_i he
    rw [List.isEmpty_iff.1 he, dropWhile_eq_nil_iff.2 h]
  · rw [reverse_append, dropWhile_append_of_pos hr]

theorem stripLines_of_oneLine {text : String} (h : '\n' ∉ text.toList) :
    stripLines text = String.ofList (strip text.toList) := by
  have hs : text.toList.splitOn '\n' = [text.toList] := by
    refine splitOnP_eq_singleton fun c hc => beq_eq_false_iff_ne.2 ?_
    rintro rfl
    exact h hc
  rw [stripLines, hs]
  simp

theorem commandOf_createShellEntrypoint {d : BenchmarkDescriptor} {ml : MLDescriptor} {code}
    (hml : d.ml = some ml) (hc : ml.benchmark_code = some code) :
    ∃ lines, createShellEntrypoint d = .ok lines ∧ commandOf lines = code := by
  refine ⟨_, by rw [createShellEntrypoint, hml, Option.bind_some, hc]; rfl, ?_⟩
  rw [commandOf, getLast?_concat, Option.getD_some]

theorem splitArgs_ok {o} (ho : Splits o) {text words} : splitArgs o text = .ok words ↔ wordsOf text = some words := by
  have he : Shlex.split "" = some [] := rfl
  unfold splitArgs wordsOf
  split
  · rw [Option.getD_none, he, pure_ok, Option.some.injEq]
  · rw [Option.getD_some, he, pure_ok, Option.some.injEq]
  · exact ho _ _

section Command

variable {code : String} {args : Option String} {codeWords argWords : List String}

theorem container_command (hne : code ≠ "") (hco : wordsOf (some code) = some codeWords)
    (ha : wordsOf args = some argWords) {o} {r : Request} {h} {ml : MLDescriptor} (ho : Splits o)
    (hml : r.descriptor.ml = some ml) (hm : ml.benchmark_code = some code) (hms : ml.args = args)
    (hs : r.descriptor.hardware.strategy ≠ .horovod) (hok : buildBenchmark o r = .ok h)
    (hsc : Scalars o r.descriptor.hardware.strategy.template (benchmarkValues o r)) :
    ∃ spec c, getPodSpec h none = .ok spec ∧ containersNamed benchmarkContainer spec = [(.main, c)] ∧
      c.get? "command" = some (strings (codeWords ++ argWords)) ∧ c.get? "args" = none := by
  obtain ⟨scripts, hss, -⟩ := bind_ok.1 hok
  have hp : (⟨none, r.fetched_data_sources, r.scripts, r.descriptor.output⟩ : PodPlan) ∈ benchmarkPods r := by
    unfold benchmarkPods
    split
    · exact mem_singleton_self _
    · exact mem_singleton_self _
    · rename_i heq
      exact absurd heq hs
  obtain ⟨spec, c, hsp, hc, hsh⟩ := benchmark_container hok hsc hss hp
  refine ⟨spec, c, hsp, hc, ?_⟩
  have hl : Launch o r.descriptor.ml (c.get? "command") (c.get? "args") := hsh.command
  rw [hml] at hl
  generalize c.get? "command" = command, c.get? "args" = args' at hl
  have ht : truthy ((some ml).bind (·.benchmark_code)) = true := by simp [hm, truthy, hne]
  cases hl with
  | code hco' hcmd ha' =>
    rw [splitArgs_ok ho, Option.bind_some] at hcmd ha'
    rw [hm, hco] at hcmd
    rw [hms, ha] at ha'
    cases hcmd
    cases ha'
    exact ⟨rfl, rfl⟩
  | args hco' => exact absurd (ht.symm.trans hco') (by decide)
  | none hco' => exact absurd (ht.symm.trans hco') (by decide)

/-- The script of an MPI job, if the arguments are only blanks. -/
theorem entrypointScript_eq (hl : OneLine code args) (ha : wordsOf args = some []) :
    entrypointScript code args = String.ofList (strip code.toList) := by
  have hb : ∀ c ∈ (args.getD "").toList, pySpace c = true :=
    fun c hc => pySpace_of_blank ((Shlex.split_eq_nil_iff _).1 ha c hc)
  have ht : '\n' ∉ (code ++ args.getD "").toList := by
    rw [String.toList_append, mem_append]
    exact not_or.2 hl
  rw [entrypointScript, stripLines_of_oneLine ht, String.toList_append, strip_append hb]

end Command

/-- The command is the same in the three places exactly if the arguments have no words and the words of the
code do not have the blanks around it. -/
theorem same_command_iff {code : String} {args : Option String} {codeWords argWords : List String} (hne : code ≠ "")
    (hcode : wordsOf (some code) = some codeWords) (hargs : wordsOf args = some argWords) :
    SameCommand code args (codeWords ++ argWords) ↔
      (OneLine code args → argWords = [] ∧ StripsBlanks code codeWords) := by
  constructor
  · intro h hli
    let ml : MLDescriptor := { benchmark_code := some code, args }
    have hnil : argWords = [] := by
      have hd : (mpiRequest (some ml)).descriptor.ml = some ml := rfl
      obtain ⟨lines, hl, hw⟩ := h.sagemaker hli _ ml hd rfl rfl
      obtain ⟨lines', hl', hc⟩ := commandOf_createShellEntrypoint hd rfl
      obtain rfl := Except.ok.inj (hl.symm.trans hl')
      rw [hc] at hw
      have hsa : codeWords = codeWords ++ argWords := Option.some.inj (hcode.symm.trans hw)
      exact self_eq_append_right.1 hsa
    obtain ⟨objects, hb⟩ := exists_mpi_build ml rfl hne
    have hw := h.horovod hli shlexOutside (mpiRequest (some ml)) objects ml rfl rfl rfl rfl hb
    rw [hnil] at hargs
    rw [scriptOf_buildBenchmark hb rfl rfl rfl hne, Option.bind_some, entrypointScript_eq hli hargs, hnil,
      append_nil] at hw
    exact ⟨hnil, hw⟩
  · intro h
    refine ⟨fun o r objects ml ho hml hm hms hs hok hsc =>
      container_command hne hcode hargs ho hml hm hms hs hok hsc, ?_, ?_⟩
    · intro hli o r objects ml hml hm hms hs hok
      obtain ⟨rfl, hst⟩ := h hli
      rw [scriptOf_buildBenchmark hok hs hml hm hne, Option.bind_some, hms, entrypointScript_eq hli hargs, append_nil]
      exact hst
    · intro hli d ml hml hm hms
      obtain ⟨rfl, -⟩ := h hli
      obtain ⟨lines, hl, hc⟩ := commandOf_createShellEntrypoint hml hm
      refine ⟨lines, hl, ?_⟩
      rw [hc, append_nil]
      exact hcode

theorem same_command_without_args : SameCommand "python train.py" none ["python", "train.py"] := by
  have hc : wordsOf (some "python train.py") = some ["python", "train.py"] := by decide +kernel
  refine (@same_command_iff _ none _ [] (by decide) hc (by decide +kernel)).2 fun _ => ⟨rfl, ?_⟩
  unfold StripsBlanks
  decide +kernel

/-- With arguments, SageMaker starts the code without them, and an MPI job starts another word. -/
theorem args_lost_or_glued :
    let ml : MLDescriptor := { benchmark_code := some "python train.py", args := some "--epochs 1" }
    (∃ lines, createShellEntrypoint (mpiRequest (some ml)).descriptor = .ok lines ∧
      Shlex.split (commandOf lines) = some ["python", "train.py"]) ∧
    (∃ h, buildBenchmark shlexOutside (mpiRequest (some ml)) = .ok h ∧
      (scriptOf "entrypoint-job-1" h).bind Shlex.split = some ["python", "train.py--epochs", "1"]) ∧
    (wordsOf ml.benchmark_code, wordsOf ml.args) = (some ["python", "train.py"], some ["--epochs", "1"]) := by
  intro ml
  obtain ⟨lines, hl, hc⟩ := commandOf_createShellEntrypoint (d := (mpiRequest (some ml)).descriptor) rfl rfl
  obtain ⟨h, hok⟩ := exists_mpi_build ml rfl (by decide)
  refine ⟨⟨lines, hl, by rw [hc]; decide +kernel⟩, ⟨h, hok, ?_⟩, by decide +kernel⟩
  have hs := scriptOf_buildBenchmark hok rfl rfl rfl (by decide)
  refine (congrArg (·.bind Shlex.split) hs).trans ?_
  decide +kernel

end BenchmarkAi.SageMaker
