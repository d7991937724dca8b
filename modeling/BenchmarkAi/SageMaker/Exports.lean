import BenchmarkAi.Lib.Shell
import BenchmarkAi.SageMaker.SourceDirectory
/-!
# The environment of a SageMaker job

The script that `_create_shell_entrypoint` writes exports the variables of the descriptor, each in double quotes and
without a backslash before what is special there. The containers of Kubernetes get the variables as they are, but for
their references to other variables.
-/

open Lib List

namespace BenchmarkAi.SageMaker

open Transpiler

def exportText (lines : List String) : List Char := lines.tail.dropLast.flatMap fun line => line.toList ++ ['\n']

/-- What is to become of the variables in a shell, whatever variables there are before. -/
structure Exported (vars : List (String × String)) (env : Dict String) (ran : Dict String × List Shell.Command) : Prop where
  set : ∀ kv ∈ vars, ran.1.get? kv.1 = some kv.2
  kept : ∀ k, k ∉ vars.map Prod.fst → ran.1.get? k = env.get? k
  nothing_else : ran.2 = vars.map fun kv => .assign kv.1 kv.2
  as_kubernetes : ∀ k, ran.1.get? k = (environ env (vars.map fun kv => (kv.1, .text kv.2))).get? k

theorem exportText_eq {d : BenchmarkDescriptor} {lines} (h : createShellEntrypoint d = .ok lines) :
    exportText lines = d.env.vars.flatMap Shell.exportLine := by
  unfold createShellEntrypoint at h
  split at h
  · cases h
  · cases h
    rw [exportText, append_assoc, singleton_append, tail_cons, dropLast_concat, flatMap_map]
    congr 1
    funext kv
    simp [Shell.exportLine, Shell.keyword]

theorem noDollar_of_literal {cs} (h : Shell.literal cs = true) : ∀ c ∈ cs, c ≠ '$' := by
  induction cs with
  | nil => exact nofun
  | cons c cs ih =>
    rw [Shell.literal, Bool.and_eq_true, Bool.and_eq_true, decide_eq_true_eq] at h
    simp only [mem_cons, not_mem_nil, or_false, not_or] at h
    exact forall_mem_cons.2 ⟨h.1.1.2.1, ih h.2⟩

theorem environ_literal {vars : List (String × String)} (h : ∀ kv ∈ vars, Shell.literal kv.2.toList = true) (env : Dict String) :
    environ env (vars.map fun kv => (kv.1, .text kv.2)) = env.update vars := by
  induction vars generalizing env with
  | nil => rfl
  | cons kv vars ih =>
    rw [forall_mem_cons] at h
    refine (ih h.2 _).trans ?_
    rw [Lib.setVariable, Source.value, expand_inert (inert_of_noDollar (noDollar_of_literal h.1))]
    rfl

/-- The script exports the variables in every shell that lets assign them if and only if no value has a `$`, a backquote, a double quote or
a null character in it, and each backslash stands before a character that it does not escape. -/
theorem exported_iff {d : BenchmarkDescriptor} {lines : List String} (hlines : createShellEntrypoint d = .ok lines)
    (hdict : (d.env.vars.map Prod.fst).Nodup) (hnames : ∀ kv ∈ d.env.vars, Shell.isName kv.1.toList = true) :
    (∀ sh env, (∀ kv ∈ d.env.vars, kv.1 ∉ sh.readonly) →
        Exported d.env.vars env (Shell.run sh env (exportText lines))) ↔
      ∀ kv ∈ d.env.vars, Shell.literal kv.2.toList = true := by
  rw [exportText_eq hlines]
  constructor
  · intro h
    exact Shell.literal_of_run hnames (fun _ => ⟨not_mem_nil, not_mem_nil⟩) (h _ .empty fun _ _ => not_mem_nil).nothing_else
  · intro h sh env hsh
    have hget (k : String) : (env.update d.env.vars).get? k = (d.env.vars.lookup k).or (env.get? k) := by
      rw [Dict.get?_update, Dict.lookup_reverse ⟨d.env.vars, hdict⟩]
      rfl
    rw [Shell.run, Shell.run_literal hsh hnames h (Shell.length_le_script _)]
    refine ⟨fun kv hkv => ?_, fun k hk => ?_, rfl, fun k => ?_⟩
    · rw [hget, (mem_entries_iff_lookup hdict).1 hkv, Option.some_or]
    · rw [hget, lookup_eq_none.2 hk, Option.none_or]
    · rw [environ_literal h]

def descriptorWith (var : String × String) : BenchmarkDescriptor :=
  { (mpiRequest (some { benchmark_code := some "python train.py" })).descriptor with
    env := { docker_image := "image", vars := [var] } }

def message : String × String := ("MESSAGE", "it's 100% \\o/")

theorem exported_quotation : ∃ lines, createShellEntrypoint (descriptorWith message) = .ok lines ∧
    ∀ sh env, (∀ kv ∈ [message], kv.1 ∉ sh.readonly) → Exported [message] env (Shell.run sh env (exportText lines)) :=
  ⟨_, rfl, (exported_iff (d := descriptorWith message) rfl (nodup_singleton _) (by decide)).2 (by decide)⟩

/-- A `$` makes the value depend on the variables of the machine. -/
theorem exported_home : ∃ lines, createShellEntrypoint (descriptorWith ("DIR", "$HOME")) = .ok lines ∧
    ∀ sh home, "DIR" ∉ sh.readonly → (Shell.run sh (Dict.empty.set "HOME" home) (exportText lines)).1.get? "DIR" = some home := by
  refine ⟨_, rfl, fun sh home hsh => ?_⟩
  have hq : Shell.quoted (Dict.empty.set "HOME" home) 0 ("$HOME".toList ++ ['"', '\n']) =
      some (home.toList ++ [], ['\n']) := rfl
  have hr := @Shell.readExport_line (Dict.empty.set "HOME" home) ("DIR", "$HOME") (by decide) []
  rw [hq, Option.bind_some, Shell.endLine, append_nil, append_nil, String.ofList_toList, String.ofList_toList] at hr
  have hl : (Shell.exportLine ("DIR", "$HOME")).length = 18 + 1 := by decide
  show (Shell.runFor sh (Shell.exportLine ("DIR", "$HOME") ++ []).length _ (Shell.exportLine ("DIR", "$HOME") ++ [])).1.get? _ = _
  rw [append_nil, hl, Shell.runFor, hr]
  dsimp only
  rw [if_neg hsh]
  exact Dict.get?_set_self _ "DIR" home

end BenchmarkAi.SageMaker
