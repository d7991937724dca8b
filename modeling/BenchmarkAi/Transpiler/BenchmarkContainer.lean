import BenchmarkAi.Lib.Environ
import BenchmarkAi.Transpiler.ContainerBuilders
/-!
# The benchmark container

The container that runs the benchmark, through the builders of the job of a single node, of
the client of an inference benchmark and of the two replica types of an MPI job: where it has
the scripts mounted, what its environment says about that, and what it starts.
-/

open Lib List

namespace BenchmarkAi.Transpiler

/-! ## Merging variables

`add_env_vars` reads the variables of a container into a dict, assigns the new ones, and
writes the dict back. So each name is there once.
-/

variable {s : String} {vars : List Tree} {env : List (String × Tree)}

theorem isStr_iff {t} : isStr s t = true ↔ t = .str s := by
  cases t with
  | str u => simpa [isStr] using eq_comm
  | _ => simp [isStr]

theorem str_pyEq {t} : (Tree.str s).pyEq t = true ↔ t = .str s := by
  cases t with
  | str u => simpa [Tree.pyEq] using eq_comm
  | _ => simp [Tree.pyEq]

theorem pyEq_str {t : Tree} : t.pyEq (.str s) = true ↔ t = .str s := by
  cases t <;> simp [Tree.pyEq]

def entriesOf (k : String) (kvs : List (Tree × Tree)) : List (Tree × Tree) := kvs.filter (isStr k ·.1)

section Assign
variable {k : String} {key v : Tree} {kvs kvs' : List (Tree × Tree)}

theorem entriesOf_cons_self : entriesOf k ((.str k, v) :: kvs) = (.str k, v) :: entriesOf k kvs := by
  simp [entriesOf, isStr]

theorem entriesOf_cons_ne (h : key ≠ .str k) : entriesOf k ((key, v) :: kvs) = entriesOf k kvs := by
  have hf : isStr k key = false := Bool.eq_false_iff.2 (mt isStr_iff.1 h)
  simp [entriesOf, hf]

theorem entriesOf_assignKey_ne (h : assignKey key v kvs = .ok kvs') (hne : key ≠ .str k) :
    entriesOf k kvs' = entriesOf k kvs := by
  induction kvs generalizing kvs' with
  | nil =>
    have hkvs : kvs' = [(key, v)] := by
      unfold assignKey at h
      split at h
      · cases h
      · cases h
      · exact (pure_ok.1 h).symm
    rw [hkvs, entriesOf_cons_ne hne]
  | cons kv kvs ih =>
    obtain ⟨k', v'⟩ := kv
    rw [assignKey] at h
    split at h
    · rename_i heq
      cases h
      have hk' : k' ≠ .str k := by
        rintro rfl
        exact hne (pyEq_str.1 heq)
      rw [entriesOf_cons_ne hk', entriesOf_cons_ne hk']
    · obtain ⟨rest, hr, h⟩ := bind_ok.1 h
      cases h
      by_cases hk' : k' = .str k
      · subst hk'
        rw [entriesOf_cons_self, entriesOf_cons_self, ih hr]
      · rw [entriesOf_cons_ne hk', entriesOf_cons_ne hk', ih hr]

theorem entriesOf_assignKey_self (h : assignKey (.str k) v kvs = .ok kvs') (hone : (entriesOf k kvs).length ≤ 1) :
    entriesOf k kvs' = [(.str k, v)] := by
  induction kvs generalizing kvs' with
  | nil =>
    cases h
    exact entriesOf_cons_self
  | cons kv kvs ih =>
    obtain ⟨k', v'⟩ := kv
    rw [assignKey] at h
    split at h
    · rename_i heq
      cases h
      obtain rfl := str_pyEq.1 heq
      rw [entriesOf_cons_self, length_cons] at hone
      rw [entriesOf_cons_self, eq_nil_of_length_eq_zero (by omega : (entriesOf k kvs).length = 0)]
    · rename_i hne
      obtain ⟨rest, hr, h⟩ := bind_ok.1 h
      cases h
      have hk' : k' ≠ .str k := fun heq => hne (str_pyEq.2 heq)
      rw [entriesOf_cons_ne hk'] at hone ⊢
      exact ih hr hone

theorem length_entriesOf_assignKey (h : assignKey key v kvs = .ok kvs') (hone : (entriesOf k kvs).length ≤ 1) :
    (entriesOf k kvs').length ≤ 1 := by
  by_cases hkey : key = .str k
  · subst hkey
    rw [entriesOf_assignKey_self h hone]
    exact Nat.le_refl 1
  · rw [entriesOf_assignKey_ne h hkey]
    exact hone

end Assign

def readVars (vars : List Tree) (kvs : List (Tree × Tree)) : Py (List (Tree × Tree)) :=
  vars.foldlM (fun kvs var => do assignKey (← attr "name" var) (← attr "value" var) kvs) kvs

def assignVars (env : List (String × Tree)) (kvs : List (Tree × Tree)) : Py (List (Tree × Tree)) :=
  env.foldlM (fun kvs kv => assignKey (.str kv.1) kv.2 kvs) kvs

def writtenVar (kv : Tree × Tree) : Tree := .obj [("name", kv.1), ("value", .str (pyStr kv.2))]

def OneVar (k s : String) (vars : List Tree) : Prop := vars.filter (nameOf · = some k) = [writtenVar (.str k, .str s)]

section Vars
variable {k : String} {kvs kvs' : List (Tree × Tree)}

theorem nameOf_iff_attr {var key} (h : attr "name" var = .ok key) : nameOf var = some k ↔ key = .str k := by
  have hn : named k var = .ok (isStr k key) := by
    rw [named, h]
    rfl
  rw [← isStr_iff, named_ok hn, decide_eq_true_iff]

theorem readVars_cons {var} (h : readVars (var :: vars) kvs = .ok kvs') :
    ∃ key v kvs₁, attr "name" var = .ok key ∧ attr "value" var = .ok v ∧ assignKey key v kvs = .ok kvs₁ ∧
      readVars vars kvs₁ = .ok kvs' := by
  obtain ⟨kvs₁, h₁, h⟩ := bind_ok.1 h
  obtain ⟨key, hkey, h₁⟩ := bind_ok.1 h₁
  obtain ⟨v, hv, h₁⟩ := bind_ok.1 h₁
  exact ⟨key, v, kvs₁, hkey, hv, h₁, h⟩

theorem length_entriesOf_readVars (h : readVars vars kvs = .ok kvs') (hone : (entriesOf k kvs).length ≤ 1) :
    (entriesOf k kvs').length ≤ 1 := by
  induction vars generalizing kvs with
  | nil => rwa [← pure_ok.1 h]
  | cons var vars ih =>
    obtain ⟨key, v, kvs₁, -, -, h₁, hr⟩ := readVars_cons h
    exact ih hr (length_entriesOf_assignKey h₁ hone)

theorem entriesOf_readVars_ne (h : readVars vars kvs = .ok kvs') (hv : vars.filter (nameOf · = some k) = []) :
    entriesOf k kvs' = entriesOf k kvs := by
  induction vars generalizing kvs with
  | nil => rw [pure_ok.1 h]
  | cons var vars ih =>
    obtain ⟨key, v, kvs₁, hkey, -, h₁, hr⟩ := readVars_cons h
    have hn : nameOf var ≠ some k := by
      simpa using filter_eq_nil_iff.1 hv var mem_cons_self
    rw [filter_cons_of_neg (by simpa using hn)] at hv
    rw [ih hr hv, entriesOf_assignKey_ne h₁ (mt (nameOf_iff_attr hkey).2 hn)]

theorem entriesOf_readVars_one (h : readVars vars kvs = .ok kvs') (hone : OneVar k s vars) (hno : entriesOf k kvs = []) :
    entriesOf k kvs' = [(.str k, .str s)] := by
  induction vars generalizing kvs with
  | nil => cases hone
  | cons var vars ih =>
    obtain ⟨key, v, kvs₁, hkey, hv, h₁, hr⟩ := readVars_cons h
    by_cases hna : nameOf var = some k
    · rw [OneVar, filter_cons_of_pos (by simpa using hna), cons.injEq] at hone
      obtain ⟨rfl, hn⟩ := hone
      have hk : key = .str k := (Except.ok.inj hkey).symm
      have hs : v = .str s := (Except.ok.inj hv).symm
      subst hk hs
      rw [entriesOf_readVars_ne hr hn]
      exact entriesOf_assignKey_self h₁ (by rw [hno]; exact Nat.zero_le 1)
    · rw [OneVar, filter_cons_of_neg (by simpa using hna)] at hone
      exact ih hr hone ((entriesOf_assignKey_ne h₁ (mt (nameOf_iff_attr hkey).2 hna)).trans hno)

theorem entriesOf_assignVars_ne (h : assignVars env kvs = .ok kvs') (henv : ∀ kv ∈ env, kv.1 ≠ k) :
    entriesOf k kvs' = entriesOf k kvs := by
  induction env generalizing kvs with
  | nil => rw [pure_ok.1 h]
  | cons kv env ih =>
    rw [forall_mem_cons] at henv
    obtain ⟨kvs₁, h₁, h⟩ := bind_ok.1 h
    rw [ih h henv.2, entriesOf_assignKey_ne h₁ fun heq => henv.1 (Tree.str.inj heq)]

theorem filter_writtenVars (k : String) (kvs : List (Tree × Tree)) :
    (kvs.map writtenVar).filter (nameOf · = some k) = (entriesOf k kvs).map writtenVar := by
  rw [filter_map]
  congr 2
  funext kv
  have ha : attr "name" (writtenVar kv) = .ok kv.1 := rfl
  rw [Function.comp_apply, Bool.eq_iff_iff, decide_eq_true_iff, nameOf_iff_attr ha, isStr_iff]

end Vars

/-- What `add_env_vars` does to the container. -/
theorem exists_addEnvVars (hne : env ≠ []) :
    ∃ f, (∀ container replica, addEnvVars container env replica = editContainer container replica f) ∧
      ∀ c c', f c = .ok c' → ∃ vars old new, (listOf "env" c = vars) ∧ readVars vars [] = .ok old ∧
        assignVars env old = .ok new ∧ c' = c.put "env" (.arr (new.map writtenVar)) ∧
        listOf "env" c' = new.map writtenVar := by
  refine ⟨_, fun container replica => funext fun h => if_neg hne, fun c c' hok => ?_⟩
  obtain ⟨u, hu, hok⟩ := bind_ok.1 hok
  obtain ⟨vars, hv, hok⟩ := bind_ok.1 hok
  obtain ⟨old, hold, hok⟩ := bind_ok.1 hok
  obtain ⟨new, hnew, hok⟩ := bind_ok.1 hok
  cases hok
  refine ⟨vars, old, new, ?_, hold, hnew, rfl, listOf_put_self hu _⟩
  split at hv
  · exact listOf_of_items hu hv
  · -- no list, or an empty one
    rename_i hf
    cases hv
    have he : orEmptyList "env" c = .ok (c.put "env" (.arr [])) := by
      rw [orEmptyList, hu]
      exact if_neg hf
    rw [← listOf_orEmptyList he, listOf_put_self hu]

/-! ## What is followed -/

def mountPaths (volume : String) (c : Tree) : List String :=
  (listed "volumeMounts" volume c).filterMap fun m => (m.get? "mountPath").bind (·.asString)

/-- The container: with scripts, they are mounted at `path`, and once the variables are merged
its environment has the documented path. `C` is about its command and its arguments. -/
structure BenchmarkShows (scripts : List (String × String)) (path : String) (merged : Bool)
    (C : Option Tree → Option Tree → Prop) (t : Tree) : Prop where
  name : nameOf t = some benchmarkContainer
  mounts : scripts ≠ [] → mountPaths scriptsVolumeName t = [path]
  vars : merged = true → scripts ≠ [] → OneVar "BAI_SCRIPTS_PATH" scriptsMountPath (listOf "env" t)
  command : C (t.get? "command") (t.get? "args")

inductive Launch (o : Outside) (ml : Option MLDescriptor) : Option Tree → Option Tree → Prop
  | code {cmd args} (hcode : truthy (ml.bind (·.benchmark_code)) = true)
      (hcmd : splitArgs o (ml.bind (·.benchmark_code)) = .ok cmd) (hargs : splitArgs o (ml.bind (·.args)) = .ok args) :
      Launch o ml (some (strings (cmd ++ args))) none
  | args {args} (hcode : truthy (ml.bind (·.benchmark_code)) = false)
      (hargs : splitArgs o (ml.bind (·.args)) = .ok args) : Launch o ml none (some (strings args))
  | none (hcode : truthy (ml.bind (·.benchmark_code)) = false) (hargs : truthy (ml.bind (·.args)) = false) :
      Launch o ml none none

section Shows
variable {scripts : List (String × String)} {path : String} {merged merged' : Bool} {C : Option Tree → Option Tree → Prop}
  {t t' : Tree}

theorem BenchmarkShows.remounted (h : BenchmarkShows scripts path merged C t) (ht : Remounted t t')
    (hmo : scripts ≠ [] → mountPaths scriptsVolumeName t' = [path]) : BenchmarkShows scripts path merged C t' := by
  refine ⟨ht.nameOf.trans h.name, hmo, fun hm hne => ?_, ?_⟩
  · rw [listOf_congr (ht "env" (by decide))]
    exact h.vars hm hne
  · rw [ht "command" (by decide), ht "args" (by decide)]
    exact h.command

theorem BenchmarkShows.steady : Steady (BenchmarkShows scripts path merged C) := by
  intro t t' hk h
  refine h.remounted hk.1 fun hne => ?_
  rw [mountPaths, hk.2]
  exact h.mounts hne

theorem BenchmarkShows.loose (hs : scripts = []) : Loose (BenchmarkShows scripts path merged C) :=
  fun _ _ ht h => h.remounted ht fun hne => absurd hs hne

theorem BenchmarkShows.put_env (h : BenchmarkShows scripts path merged C t)
    (hv : merged' = true → scripts ≠ [] → OneVar "BAI_SCRIPTS_PATH" scriptsMountPath vars) :
    BenchmarkShows scripts path merged' C (t.put "env" (.arr vars)) := by
  refine ⟨(nameOf_put_ne (by decide)).trans h.name, fun hne => ?_, fun hm hne => ?_, ?_⟩
  · rw [mountPaths, listed, listOf_put_ne (by decide)]
    exact h.mounts hne
  · rw [listOf_of_get? (Tree.get?_put_self (nameIs_of_nameOf h.name) _)]
    exact hv hm hne
  · rw [Tree.get?_put_ne (by decide), Tree.get?_put_ne (by decide)]
    exact h.command

theorem get?_erase_self (t : Tree) (k : String) : (t.erase k).get? k = none := by
  cases t with
  | obj fs => exact lookup_remove_self k fs
  | _ => rfl

theorem BenchmarkShows.commanded {o ml} (h : BenchmarkShows scripts path merged C t)
    (hc : Commanded o ml t t') : BenchmarkShows scripts path merged (Launch o ml) t' := by
  have hn := nameIs_of_nameOf h.name
  have ho (k : String) (hk : k ≠ "command") (hk' : k ≠ "args") : t'.get? k = t.get? k := by
    cases hc with
    | none => rw [Tree.get?_erase_ne hk', Tree.get?_erase_ne hk]
    | code => rw [Tree.get?_erase_ne hk', Tree.get?_put_ne hk]
    | args => rw [Tree.get?_erase_ne hk, Tree.get?_put_ne hk']
  refine ⟨hc.nameOf.trans h.name, fun hne => ?_, fun hm hne => ?_, ?_⟩
  · rw [mountPaths, listed, listOf_congr (ho _ (by decide) (by decide))]
    exact h.mounts hne
  · rw [listOf_congr (ho _ (by decide) (by decide))]
    exact h.vars hm hne
  · cases hc with
    | code hco hcmd ha =>
      rw [get?_erase_self, Tree.get?_erase_ne (by decide), Tree.get?_put_self hn]
      exact .code hco hcmd ha
    | args hco ha =>
      rw [get?_erase_self, Tree.get?_erase_ne (by decide), Tree.get?_put_self hn]
      exact .args hco ha
    | none hco ha =>
      rw [get?_erase_self, Tree.get?_erase_ne (by decide), get?_erase_self]
      exact .none hco ha

end Shows

/-! ## Through the builders -/

variable (o : Outside) (req : Request)

section Steps
variable {r : Option String} {scripts : List (String × String)} {path : String} {merged : Bool}
  {C : Option Tree → Option Tree → Prop}

/-- Variables are merged. What becomes of the path is left to `hpath`. -/
theorem turns_addEnvVars (merged merged' : Bool)
    (hp : merged' = true → scripts ≠ [] → ∀ vars old new, (merged = true → OneVar "BAI_SCRIPTS_PATH" scriptsMountPath vars) → readVars vars [] = .ok old → assignVars env old = .ok new → entriesOf "BAI_SCRIPTS_PATH" new = [(.str "BAI_SCRIPTS_PATH", .str scriptsMountPath)])
    (he : env = [] → merged' = true → scripts ≠ [] → merged = true) :
    Turns r benchmarkContainer (Only [.main] (BenchmarkShows scripts path merged C)) (addEnvVars benchmarkContainer env r)
      (Only [.main] (BenchmarkShows scripts path merged' C)) := by
  by_cases henv : env = []
  · intro h h' hok hfi
    rw [addEnvVars, if_pos henv] at hok
    cases hok
    refine hfi.imp fun xs ho => ?_
    obtain ⟨t, rfl, ht⟩ := only_one.1 ho
    exact only_one.2 ⟨t, rfl, ht.name, ht.mounts, fun hm hne => ht.vars (he henv hm hne) hne, ht.command⟩
  · obtain ⟨f, heq, hf⟩ := exists_addEnvVars henv
    rw [heq]
    refine turns_editContainer fun t t' hok ht => ?_
    obtain ⟨vars, old, new, hv, hold, hnew, rfl, -⟩ := hf t t' hok
    refine ⟨ht.put_env fun hm hne => ?_, nameOf_put_ne (by decide)⟩
    have hen := hp hm hne vars old new (fun hme => hv ▸ ht.vars hme hne) hold hnew
    rw [OneVar, filter_writtenVars, hen]
    rfl

def VarsBefore (env : List (String × Tree)) : Prop := env = [] ∨ env = [("BAI_SCRIPTS_PATH", .str scriptsMountPath)]

theorem has_varsBefore {places R xs} (h : Has (· = []) places R env xs) :
    Has VarsBefore places R env xs := ⟨.inl h.1, h.2⟩

def VarsAfter (scripts : List (String × String)) (env : List (String × Tree)) : Prop :=
  scripts ≠ [] → env = [("BAI_SCRIPTS_PATH", .str scriptsMountPath)]

theorem internalVars_before (h : VarsBefore env) (scripts : List (String × String)) : VarsBefore (internalVars scripts env) := by
  rw [internalVars]
  split
  · exact h
  · rcases h with rfl | rfl <;> exact .inr (by simp [assign])

theorem internalVars_after (h : VarsBefore env) (scripts : List (String × String)) :
    VarsAfter scripts (internalVars scripts env) := by
  intro hne
  rw [internalVars, if_neg hne]
  rcases h with rfl | rfl <;> simp [assign]

/-- The variables of the descriptor and then those of the builder: these count. -/
theorem tracks_addEnvVarsStep (vars : List (String × String)) :
    Tracks r benchmarkContainer (Has (VarsAfter scripts) [.main] (BenchmarkShows scripts path false C)) (addEnvVarsStep vars r)
      (Has (fun _ => True) [.main] (BenchmarkShows scripts path true C)) := by
  intro b b' hok hf
  obtain ⟨spec, hp, hv, ho⟩ := hf
  obtain ⟨h₁, hh₁, hok⟩ := bind_ok.1 hok
  obtain ⟨h₂, hh₂, hok⟩ := bind_ok.1 hok
  cases hok
  have hfi : Finds r benchmarkContainer (Only [.main] (BenchmarkShows scripts path false C)) h₁.root :=
    turns_addEnvVars false false (nomatch ·) (fun _ hm => nomatch hm) _ _ hh₁ ⟨spec, hp, ho⟩
  have hs : Finds r benchmarkContainer (Only [.main] (BenchmarkShows scripts path true C)) h₂.root := by
    refine turns_addEnvVars false true (fun _ hne vars old new _ hold hnew => ?_) (fun hnil _ hne => ?_) _ _ hh₂ hfi
    · rw [hv hne] at hnew
      obtain ⟨new', hnew', hpu⟩ := bind_ok.1 (by rwa [assignVars, foldlM_cons] at hnew)
      cases hpu
      exact entriesOf_assignKey_self hnew' (length_entriesOf_readVars hold (Nat.zero_le 1))
    · rw [hv hne] at hnil
      cases hnil
  obtain ⟨spec', hp', ho⟩ := hs
  exact ⟨spec', hp', trivial, ho⟩

theorem turns_addBenchmarkCmdToContainer (ml : Option MLDescriptor) :
    Turns r benchmarkContainer (Only [.main] (BenchmarkShows scripts path merged C)) (addBenchmarkCmdToContainer o ml r)
      (Only [.main] (BenchmarkShows scripts path merged (Launch o ml))) := by
  obtain ⟨f, heq, hf⟩ := exists_addBenchmarkCmdToContainer o ml
  rw [heq]
  exact turns_editContainer fun t t' hok ht => ⟨ht.commanded (hf t t' hok), (hf t t' hok).nameOf⟩

theorem turns_addServerEnvVars (job_id : String) (server : Option ServerDescriptor) :
    Turns none benchmarkContainer (Only [.main] (BenchmarkShows scripts path true C)) (addServerEnvVars job_id server)
      (Only [.main] (BenchmarkShows scripts path true C)) := by
  unfold addServerEnvVars
  split
  · exact turns_keeps within_throw
  · exact turns_keeps within_throw
  · refine turns_addEnvVars true true (fun _ _ vars old new hv hold hnew => ?_) (fun hnil => by simp at hnil)
    rw [entriesOf_assignVars_ne hnew]
    · exact entriesOf_readVars_one hold (hv rfl) rfl
    · intro kv hkv heq
      simp only [cons_append, nil_append, mem_cons, mem_mapIdx] at hkv
      rcases hkv with rfl | rfl | ⟨i, hi, rfl⟩
      · have hn : "INFERENCE_SERVER_HOST" = "BAI_SCRIPTS_PATH" := heq
        exact absurd hn (by decide)
      · have hn : "INFERENCE_SERVER_PORT" = "BAI_SCRIPTS_PATH" := heq
        exact absurd hn (by decide)
      · have hn : "INFERENCE_SERVER_PORT_" ++ toString (i + 1) = "BAI_SCRIPTS_PATH" := heq
        have hh := congrArg (·.toList.head?) hn
        simp at hh

end Steps

section Builders
variable {scripts : List (String × String)} {path : String} {C : Option Tree → Option Tree → Prop}

theorem tracks_singleRunUpdate_benchmark (scripts : List (String × String)) (hs : req.descriptor.hardware.strategy ≠ .horovod) :
    Tracks none benchmarkContainer (Has (· = []) [.main] (BenchmarkShows scripts path false C)) (singleRunUpdate o req scripts)
      (Has (fun _ => True) [.main] (BenchmarkShows scripts path true (Launch o req.descriptor.ml))) := by
  have hm : none ≠ some "metadata" := nofun
  have hcmd : addBenchmarkCmd o (req.jobId o) req.descriptor none = addBenchmarkCmdToContainer o req.descriptor.ml none := by
    unfold addBenchmarkCmd
    split
    · rfl
    · rfl
    · rename_i hst
      exact absurd hst hs
  refine (tracks_keeps (keeps_setServiceAccount (akin_self _) _)).comp ?_
  refine (tracks_turns (turns_addDataVolumeMounts BenchmarkShows.steady (by decide) o _ _)).comp ?_
  refine (tracks_addScripts BenchmarkShows.loose (by decide) fun env henv => internalVars_after (.inl henv) _).comp ?_
  refine ((tracks_turns (turns_addExtendedShm BenchmarkShows.steady)).doIf _).comp ?_
  refine (tracks_addEnvVarsStep _).comp ?_
  rw [hcmd]
  refine (tracks_turns (turns_addBenchmarkCmdToContainer o _)).comp ?_
  refine (tracks_metricsStep_else (elsewhere_of_ne (by decide)) (elsewhere_of_ne (by decide)) hm o _ _).comp ?_
  refine (tracks_parentStep_else (elsewhere_of_ne (by decide)) hm o _).comp ?_
  refine ((tracks_keeps (keeps_removeAffinity (akin_self _))).doIf _).comp ?_
  split
  · exact (tracks_keeps (keeps_setServiceAccount (akin_self _) _)).comp (tracks_turns (turns_addServerEnvVars _ _))
  · exact (tracks_keeps (keeps_removeContainer (elsewhere_of_ne (by decide)))).doIf _

theorem tracks_horovodReplicaUpdate_benchmark (scripts : List (String × String)) {replica} (hm : replica ≠ "metadata") :
    Tracks (some replica) benchmarkContainer (Has VarsBefore [.main] (BenchmarkShows scripts path false C))
      (horovodReplicaUpdate o req scripts replica)
      (Has (fun _ => True) [.main] (BenchmarkShows scripts path true C)) := by
  have hm' : some replica ≠ some "metadata" := fun heq => hm (Option.some.inj heq)
  refine (tracks_keeps (keeps_setServiceAccount (akin_self _) _)).comp ?_
  refine (tracks_addScripts BenchmarkShows.loose (by decide) fun env henv => internalVars_after henv _).comp ?_
  refine ((tracks_turns (turns_addExtendedShm BenchmarkShows.steady)).doIf _).comp ?_
  refine (tracks_addEnvVarsStep _).comp ?_
  refine (tracks_metricsStep_else (elsewhere_of_ne (by decide)) (elsewhere_of_ne (by decide)) hm' o _ _).comp ?_
  refine (tracks_parentStep_else (elsewhere_of_ne (by decide)) hm' o _).comp ?_
  exact (tracks_keeps (keeps_removeAffinity (akin_self _))).doIf _

def Launches (o : Outside) (ml : Option MLDescriptor) (C : Option Tree → Option Tree → Prop) (command args : Option Tree) :
    Prop :=
  if truthy (ml.bind (·.benchmark_code)) then C command args else Launch o ml command args

theorem tracks_horovodUpdate_launcher (scripts : List (String × String)) (hs : req.descriptor.hardware.strategy = .horovod) :
    Tracks (some "Launcher") benchmarkContainer (Has (· = []) [.main] (BenchmarkShows scripts path false C))
      (horovodUpdate o req scripts)
      (Has (fun _ => True) [.main] (BenchmarkShows scripts path true (Launches o req.descriptor.ml C))) := by
  have hcmd : Turns (some "Launcher") benchmarkContainer (Only [.main] (BenchmarkShows scripts path false C))
      (addBenchmarkCmd o (req.jobId o) req.descriptor (some "Launcher"))
      (Only [.main] (BenchmarkShows scripts path false (Launches o req.descriptor.ml C))) := by
    unfold addBenchmarkCmd Launches
    rw [hs]
    unfold addBenchmarkCmdToConfigMap
    dsimp only
    split
    · exact turns_keeps (keeps_editConfigMap _ _)
    · exact turns_addBenchmarkCmdToContainer o _
  refine (tracks_keeps (within_addDataVolumeMounts (keeps_onPodSpec_ne (by decide)) _ _)).comp ?_
  refine ((tracks_turns hcmd).weaken fun _ _ => has_varsBefore).comp ?_
  refine (tracks_horovodReplicaUpdate_benchmark o req scripts (by decide)).comp ?_
  exact tracks_horovodReplicaUpdate_ne (by decide) (by decide) o req fun _ _ => trivial

theorem tracks_horovodUpdate_worker (scripts : List (String × String)) (hs : req.descriptor.hardware.strategy = .horovod) :
    Tracks (some "Worker") benchmarkContainer (Has (· = []) [.main] (BenchmarkShows scripts path false C))
      (horovodUpdate o req scripts) (Has (fun _ => True) [.main] (BenchmarkShows scripts path true C)) := by
  have hl : Elsewhere (some "Worker") benchmarkContainer (some "Launcher") benchmarkContainer :=
    ⟨rfl, .inl (by decide)⟩
  refine ((tracks_turns (turns_addDataVolumeMounts BenchmarkShows.steady (by decide) o _ _)).weaken
    fun _ _ => has_varsBefore).comp ?_
  refine (tracks_keeps (keeps_addBenchmarkCmd hl o _ _ (.inr hs))).comp ?_
  have hne : "Worker" ≠ "Launcher" := by decide
  refine (tracks_horovodReplicaUpdate_ne (K := VarsBefore) hne (by decide) o req
    fun env henv => internalVars_before henv scripts).comp ?_
  exact tracks_horovodReplicaUpdate_benchmark o req scripts (by decide)

end Builders

/-! ## The containers of the templates -/

theorem benchmarkShows_read {scalar} {fs : List (String × Doc)} {c : Tree} {ms} {mounts : List Tree} {path C scripts}
    (hc : (Doc.obj fs).read scalar = some c) (hn : fs.lookup "name" = some (Template.text benchmarkContainer))
    (hm : fs.lookup "volumeMounts" = some (.arr ms)) (hms : (Doc.arr ms).read scalar = some (.arr mounts))
    (hp : ((mounts.filter (nameOf · = some scriptsVolumeName)).filterMap fun m => (m.get? "mountPath").bind (·.asString)) = [path])
    (hC : C (c.get? "command") (c.get? "args")) : BenchmarkShows scripts path false C c := by
  refine ⟨nameOf_read (d := .obj fs) (by rw [Doc.name?, hn]; rfl) hc, fun _ => ?_, nofun, hC⟩
  obtain ⟨u, hu, hr⟩ := get?_read hc hm
  obtain rfl := Option.some.inj (hms.symm.trans hr)
  rw [mountPaths, listed, listOf_of_get? hu]
  exact hp

theorem contains_jobSingleNode_benchmark : ∃ d : Values → Doc, Template.Contains .job_single_node "Job" none benchmarkContainer (fun v => [(.main, d v)]) ∧
    ∀ v scalar c scripts, (d v).read scalar = some c →
      BenchmarkShows scripts "/bai/scripts" false (fun _ _ => True) c := by
  refine ⟨_, fun v => ⟨[], _, _, _, _, rfl, rfl, rfl, rfl, rfl, rfl, rfl, rfl⟩, fun v scalar c scripts hc => ?_⟩
  exact benchmarkShows_read hc rfl rfl rfl rfl trivial

def LauncherCommand (command args : Option Tree) : Prop := command = some (strings ["/bin/entrypoint.sh"]) ∧ args = none

theorem contains_mpiJobHorovod_launcher :
    ∃ d : Values → Doc, Template.Contains .mpi_job_horovod "MPIJob" (some "Launcher") benchmarkContainer (fun v => [(.main, d v)]) ∧
      ∀ v scalar c scripts, (d v).read scalar = some c → BenchmarkShows scripts "/bai/scipts" false LauncherCommand c := by
  refine ⟨_, fun v => ⟨[_, _], _, _, _, _, rfl, rfl, rfl, rfl, rfl, rfl, rfl, rfl⟩, fun v scalar c scripts hc => ?_⟩
  refine benchmarkShows_read hc rfl rfl rfl rfl ⟨?_, get?_read_none hc rfl⟩
  obtain ⟨u, hu, hr⟩ := get?_read (k := "command") hc rfl
  rw [hu, ← hr]
  rfl

theorem contains_mpiJobHorovod_worker :
    ∃ d : Values → Doc, Template.Contains .mpi_job_horovod "MPIJob" (some "Worker") benchmarkContainer (fun v => [(.main, d v)]) ∧
      ∀ v scalar c scripts, (d v).read scalar = some c → BenchmarkShows scripts "/bai/scipts" false (fun _ _ => True) c := by
  refine ⟨_, fun v => ⟨[_, _], _, _, _, _, rfl, rfl, rfl, rfl, rfl, rfl, rfl, rfl⟩, fun v scalar c scripts hc => ?_⟩
  exact benchmarkShows_read hc rfl rfl rfl rfl trivial

/-! ## The containers of a specification -/

def templateScriptsPath : Option String → String
  | none => "/bai/scripts"
  | some _ => "/bai/scipts"

def Started (o : Outside) (ml : Option MLDescriptor) : Option String → Option Tree → Option Tree → Prop
  | none => Launch o ml
  | some replica => if replica = "Launcher" then Launches o ml LauncherCommand else fun _ _ => True

/-- Every pod of a benchmark job has one benchmark container. -/
theorem benchmark_container {o} {r : Request} {h} (hok : buildBenchmark o r = .ok h)
    (hs : Scalars o r.descriptor.hardware.strategy.template (benchmarkValues o r)) {scripts}
    (hsc : r.scripts.mapM (fun dst => s3Object o "script" (some dst)) = .ok scripts) {plan : PodPlan}
    (hp : plan ∈ benchmarkPods r) :
    ∃ spec c, getPodSpec h plan.replica = .ok spec ∧ containersNamed benchmarkContainer spec = [(.main, c)] ∧
      BenchmarkShows scripts (templateScriptsPath plan.replica) true (Started o r.descriptor.ml plan.replica) c := by
  let Q (replica : Option String) := Has (fun _ => True) [.main]
    (BenchmarkShows scripts (templateScriptsPath replica) true (Started o r.descriptor.ml replica))
  have hsi (v : Values) (_ : benchmarkValues o r = .ok v) (hst : r.descriptor.hardware.strategy ≠ .horovod) :
      Follows o .job_single_node v "Job" none benchmarkContainer .main (singleRunUpdate o r scripts) (Q none) := by
    obtain ⟨d, hd, hsh⟩ := contains_jobSingleNode_benchmark
    exact ⟨d, _, hd, BenchmarkShows.steady, fun c hc => hsh v _ c scripts hc,
      tracks_singleRunUpdate_benchmark o r scripts hst⟩
  have hl (v : Values) (_ : benchmarkValues o r = .ok v) (hst : r.descriptor.hardware.strategy = .horovod) :
      Follows o .mpi_job_horovod v "MPIJob" (some "Launcher") benchmarkContainer .main (horovodUpdate o r scripts)
        (Q (some "Launcher")) := by
    obtain ⟨d, hd, hsh⟩ := contains_mpiJobHorovod_launcher
    exact ⟨d, _, hd, BenchmarkShows.steady, fun c hc => hsh v _ c scripts hc,
      tracks_horovodUpdate_launcher o r scripts hst⟩
  have hw (v : Values) (_ : benchmarkValues o r = .ok v) (hst : r.descriptor.hardware.strategy = .horovod) :
      Follows o .mpi_job_horovod v "MPIJob" (some "Worker") benchmarkContainer .main (horovodUpdate o r scripts)
        (Q (some "Worker")) := by
    obtain ⟨d, hd, hsh⟩ := contains_mpiJobHorovod_worker
    exact ⟨d, _, hd, BenchmarkShows.steady, fun c hc => hsh v _ c scripts hc,
      tracks_horovodUpdate_worker o r scripts hst⟩
  obtain ⟨env, hf⟩ := finds_buildBenchmark hok hs hsc hsi hl hw hp
  exact finds_getPodSpec (hf.imp fun xs hhas => hhas.2)

/-! ## The environment of a container -/

/-- Where the value of a variable comes from; `refs` has the values that are only referred to. -/
def varSource (refs : Tree → String) (var : Tree) : Source :=
  match var.get? "value" with
  | some (.str s) => .text s
  | _ => .given (refs var)

def containerVars (refs : Tree → String) (c : Tree) : List (String × Source) :=
  (listOf "env" c).filterMap fun var => (nameOf var).map fun name => (name, varSource refs var)

/-- The environment that a container is started with, on top of the variables that are there for
every container. -/
def containerEnviron (refs : Tree → String) (base : Dict String) (c : Tree) : Dict String :=
  environ base (containerVars refs c)

theorem filter_containerVars (refs : Tree → String) (k : String) (c : Tree) : (containerVars refs c).filter (·.1 = k) =
      ((listOf "env" c).filter (nameOf · = some k)).map fun var => (k, varSource refs var) := by
  rw [containerVars]
  induction listOf "env" c with
  | nil => rfl
  | cons var vars ih =>
    cases hn : nameOf var with
    | none => simp [hn, ih]
    | some name =>
      by_cases hk : name = k
      · simp [hn, hk, ih]
      · simp [hn, hk, ih]

theorem containerEnviron_of_oneVar {c k} (h : OneVar k s (listOf "env" c)) (hs : Inert s.toList)
    (refs : Tree → String) (base : Dict String) : (containerEnviron refs base c).get? k = some s := by
  have hv : (containerVars refs c).filter (·.1 = k) = [(k, .text s)] := by
    rw [filter_containerVars, h]
    rfl
  obtain ⟨env, henv⟩ := @environ_get?_once base _ _ _ hv
  rw [containerEnviron, henv]
  exact congrArg some (expand_inert hs)

end BenchmarkAi.Transpiler
