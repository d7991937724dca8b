import BenchmarkAi.Lib.Except
import BenchmarkAi.Transpiler.Builders
/-!
# Edits of a few fields

Most edits of a builder change a few fields of one container, and most of what is shown of the
objects is about other fields. What an edit needs of a relation between the objects before and
after it is said here once: that the relation allows edits of those fields.
-/

open Lib List

namespace BenchmarkAi.Transpiler

def Touches (ks : List String) (f : Tree → Py Tree) : Prop := ∀ t t', f t = .ok t' → ∀ k, k ∉ ks → t'.get? k = t.get? k

def Allows (R : RootObjectHelper → RootObjectHelper → Prop) (container : String) (replica : Option String)
    (ks : List String) : Prop := ∀ f, Touches ks f → Within R (editContainer container replica f)

def AllowsPod (R : RootObjectHelper → RootObjectHelper → Prop) (replica : Option String) (ks : List String) : Prop :=
  ∀ f, Touches ks f → Within R (onPodSpec replica f)

variable {o : Outside} {t t' : Tree} {k : String} {R : RootObjectHelper → RootObjectHelper → Prop} {replica : Option String}
  {container : String} {ks : List String} {f : Tree → Py Tree}

theorem extend_ok {new} (h : extend k new t = .ok t') :
    ∃ old, attr k t = .ok (.arr old) ∧ t' = t.put k (.arr (old ++ new)) := by
  obtain ⟨u, hu, h⟩ := bind_ok.1 h
  obtain ⟨old, hold, h⟩ := bind_ok.1 h
  cases u with
  | arr ts =>
    exact ⟨ts, hu, (pure_ok.1 h).symm⟩
  | _ => cases hold

theorem touches_pure : Touches ks pure := by
  intro t t' hok k hk
  rw [pure_ok.1 hok]

theorem touches_put (h : ∀ t t', f t = .ok t' → ∃ v, t' = t.put k v) : Touches [k] f := by
  intro t t' hok k' hk
  obtain ⟨v, rfl⟩ := h t t' hok
  exact Tree.get?_put_ne (ne_of_not_mem_cons hk) t v

theorem touches_extend (k : String) (new : List Tree) : Touches [k] (extend k new) :=
  touches_put fun _ _ hok => ⟨_, (extend_ok hok).choose_spec.2⟩

/-! ## Commands -/

inductive Commanded (o : Outside) (ml : Option MLDescriptor) (c : Tree) : Tree → Prop
  | code {cmd args} (hcode : truthy (ml.bind (·.benchmark_code)) = true)
      (hcmd : splitArgs o (ml.bind (·.benchmark_code)) = .ok cmd) (hargs : splitArgs o (ml.bind (·.args)) = .ok args) :
      Commanded o ml c ((c.put "command" (strings (cmd ++ args))).erase "args")
  | args {args} (hcode : truthy (ml.bind (·.benchmark_code)) = false)
      (hargs : splitArgs o (ml.bind (·.args)) = .ok args) :
      Commanded o ml c ((c.put "args" (strings args)).erase "command")
  | none (hcode : truthy (ml.bind (·.benchmark_code)) = false) (hargs : truthy (ml.bind (·.args)) = false) :
      Commanded o ml c ((c.erase "command").erase "args")

theorem Commanded.get? {ml c c'} (h : Commanded o ml c c') (hk : k ∉ ["command", "args"]) : c'.get? k = c.get? k := by
  obtain ⟨hc, ha⟩ : k ≠ "command" ∧ k ≠ "args" := by simpa using hk
  cases h with
  | code => rw [Tree.get?_erase_ne ha, Tree.get?_put_ne hc]
  | args => rw [Tree.get?_erase_ne hc, Tree.get?_put_ne ha]
  | none => rw [Tree.get?_erase_ne ha, Tree.get?_erase_ne hc]

theorem exists_addBenchmarkCmdToContainer (o : Outside) (ml : Option MLDescriptor) :
    ∃ f, (∀ replica, addBenchmarkCmdToContainer o ml replica = editContainer benchmarkContainer replica f) ∧
      ∀ c c', f c = .ok c' → Commanded o ml c c' := by
  refine ⟨_, fun _ => rfl, fun c c' hok => ?_⟩
  dsimp only at hok
  split at hok
  · rename_i hc
    obtain ⟨cmd, hcmd, hok⟩ := bind_ok.1 hok
    obtain ⟨args, ha, hok⟩ := bind_ok.1 hok
    cases hok
    exact .code hc hcmd ha
  · rename_i hc
    split at hok
    · obtain ⟨args, ha, hok⟩ := bind_ok.1 hok
      cases hok
      exact .args (Bool.eq_false_iff.2 hc) ha
    · rename_i ha
      cases hok
      exact .none (Bool.eq_false_iff.2 hc) (Bool.eq_false_iff.2 ha)

/-! ## Edits -/

theorem within_setServiceAccount (ha : AllowsPod R replica ["serviceAccountName"]) (name : String) :
    Within R (setServiceAccount name replica) := ha _ (touches_put fun _ _ hok => ⟨_, (pure_ok.1 hok).symm⟩)

theorem within_removeAffinity (ha : AllowsPod R replica ["affinity"]) : Within R (removeAffinity replica) := by
  refine ha _ fun t t' hok k hk => ?_
  split at hok
  · rw [← pure_ok.1 hok, Tree.get?_erase_ne (ne_of_not_mem_cons hk)]
  · cases hok

theorem within_addContainerPorts (ha : Allows R container none ["ports"]) (ports : List Int) :
    Within R (addContainerPorts container ports) := by
  refine ha _ (touches_put fun t t' hok => ?_)
  obtain ⟨old, -, hok⟩ := bind_ok.1 hok
  exact ⟨_, (pure_ok.1 hok).symm⟩

theorem within_addServerCommand (ha : Allows R inferenceServerContainer none ["command", "args"]) (o : Outside)
    (env : ServerEnvDescriptor) : Within R (addServerCommand o env) := by
  refine ha _ fun t t' hok k hk => ?_
  obtain ⟨cmd, -, hok⟩ := bind_ok.1 hok
  obtain ⟨args, -, hok⟩ := bind_ok.1 hok
  obtain ⟨hc, ha⟩ : k ≠ "command" ∧ k ≠ "args" := by simpa using hk
  rw [← pure_ok.1 hok, Tree.get?_erase_ne ha, Tree.get?_put_ne hc]

theorem within_addBenchmarkCmdToContainer (ha : Allows R benchmarkContainer replica ["command", "args"]) (o : Outside)
    (ml : Option MLDescriptor) : Within R (addBenchmarkCmdToContainer o ml replica) := by
  obtain ⟨f, heq, hf⟩ := exists_addBenchmarkCmdToContainer o ml
  rw [heq]
  exact ha f fun c c' hok k hk => (hf c c' hok).get? hk

/-- The command of a job is in its one pod, and that of an MPI job in the config map or in the pod of a replica type. -/
theorem within_addBenchmarkCmd {d : BenchmarkDescriptor} (hm : ∀ name f, Touches ["data"] f → Within R (editConfigMap name f))
    (hs : d.hardware.strategy ≠ .horovod → Allows R benchmarkContainer none ["command", "args"])
    (hh : d.hardware.strategy = .horovod → Allows R benchmarkContainer replica ["command", "args"]) (o : Outside)
    (job_id : String) : Within R (addBenchmarkCmd o job_id d replica) := by
  unfold addBenchmarkCmd
  split
  · rename_i heq
    exact within_addBenchmarkCmdToContainer (hs (by rw [heq]; decide)) o _
  · rename_i heq
    exact within_addBenchmarkCmdToContainer (hs (by rw [heq]; decide)) o _
  · rename_i heq
    unfold addBenchmarkCmdToConfigMap
    dsimp only
    split
    · refine hm _ _ (touches_put fun t t' hok => ?_)
      obtain ⟨data, -, hok⟩ := bind_ok.1 hok
      split at hok
      · exact ⟨_, (pure_ok.1 hok).symm⟩
      · cases hok
    · exact within_addBenchmarkCmdToContainer (hh heq) o _

section Preorder
variable [IsPreorder _ R]

theorem within_addEnvVars (ha : Allows R container replica ["env"]) (env : List (String × Tree)) :
    Within R (addEnvVars container env replica) := by
  unfold addEnvVars
  split
  · exact within_pure
  · refine ha _ (touches_put fun t t' hok => ?_)
    iterate 4 obtain ⟨_, -, hok⟩ := bind_ok.1 hok
    exact ⟨_, (pure_ok.1 hok).symm⟩

theorem within_addServerEnvVars (ha : Allows R benchmarkContainer none ["env"]) (job_id : String)
    (server : Option ServerDescriptor) : Within R (addServerEnvVars job_id server) := by
  unfold addServerEnvVars
  split
  · exact within_throw
  · exact within_throw
  · exact within_addEnvVars ha _

theorem within_addProbe (ha : Allows R inferenceServerContainer none ["readinessProbe"]) (env : ServerEnvDescriptor) :
    Within R (addProbe env) := by
  unfold addProbe
  split
  · exact within_pure
  · exact within_throw
  · refine ha _ (touches_put fun t t' hok => ?_)
    obtain ⟨scheme, -, hok⟩ := bind_ok.1 hok
    exact ⟨_, (pure_ok.1 hok).symm⟩

theorem within_addMetricsPusherEnvVar (ha : Allows R metricsPusherContainer replica ["env"]) (o : Outside)
    (key value : String) : Within R (addMetricsPusherEnvVar o key value replica) := by
  intro h h' hok
  unfold addMetricsPusherEnvVar at hok
  dsimp only at hok
  split at hok
  · split at hok
    · exact within_pure h h' hok
    · cases hok
  · rename_i he
    cases hok
    refine ha _ (fun t t' hok => ?_) h _ he
    split at hok
    · exact touches_pure t t' hok
    · exact touches_extend "env" _ t t' hok

theorem within_addExtendedShm (hp : AllowsPod R replica ["volumes"]) (ha : Allows R container replica ["volumeMounts"]) :
    Within R (addExtendedShm container replica) :=
  (ha _ touches_pure).comp ((hp _ (touches_extend _ _)).comp (ha _ (touches_extend _ _)))

/-! ## Edits of a pod that is not looked at -/

variable (hp : ∀ f, Within R (onPodSpec replica f))
include hp

theorem within_updateDataPuller (config : BaiConfig) (volumes : List (String × String))
    (sources : List DownloadableContent) : Within R (updateDataPuller o config volumes sources replica) := by
  cases sources with
  | nil => exact (hp _).comp (hp _)
  | cons s ss => exact hp _

theorem within_addDataVolumeMounts (config : BaiConfig) (sources : List DownloadableContent) :
    Within R (addDataVolumeMounts o config sources container replica) :=
  (hp _).comp ((within_updateDataPuller hp config _ sources).comp (hp _))

theorem within_removeMetricsSidecars : Within R (removeMetricsSidecars replica) := (hp _).comp (hp _)

end Preorder

/-! ## Steps -/

/-- The objects are related, and what `K` says of the variables of the builder still holds. -/
def Onward (K : List (String × Tree) → Prop) (R : RootObjectHelper → RootObjectHelper → Prop) (b b' : BuilderState) : Prop :=
  (K b.internal_env_vars → K b'.internal_env_vars) ∧ R b.root b'.root

def internalVars (scripts : List (String × String)) (env : List (String × Tree)) : List (String × Tree) :=
  if scripts = [] then env else assign "BAI_SCRIPTS_PATH" (.str scriptsMountPath) env

section Steps
variable {K : List (String × Tree) → Prop} [IsPreorder _ R]

instance : IsPreorder _ (Onward K R) where
  refl b := ⟨id, refl_of R b.root⟩
  trans _ _ _ h₁ h₂ := ⟨h₂.1 ∘ h₁.1, trans_of R h₁.2 h₂.2⟩

omit [IsPreorder _ R] in
theorem within_edit {f} (hf : Within R f) : Within (Onward K R) (edit f) := by
  intro b b' hok
  obtain ⟨h, hh, hok⟩ := bind_ok.1 hok
  cases hok
  exact ⟨id, hf b.root h hh⟩

theorem within_doIf {s} (hs : Within (Onward K R) s) (c : Bool) : Within (Onward K R) (doIf c s) := by
  cases c with
  | true => exact hs
  | false => exact within_pure

theorem within_addEnvVarsStep (ha : Allows R benchmarkContainer replica ["env"]) (vars : List (String × String)) :
    Within (Onward K R) (addEnvVarsStep vars replica) := by
  intro b b' hok
  obtain ⟨h, hh, hok⟩ := bind_ok.1 hok
  obtain ⟨h', hh', hok⟩ := bind_ok.1 hok
  cases hok
  exact ⟨id, trans_of R (within_addEnvVars ha _ _ _ hh) (within_addEnvVars ha _ _ _ hh')⟩

section Metrics
variable (hl : ∀ key value, Within R (addLabel key value)) (ha : Allows R metricsPusherContainer replica ["env"])
include hl

theorem within_addParentLabel (parent : Option String) : Within (Onward K R) (addParentLabel parent) :=
  within_doIf (within_edit (hl _ _)) _

include ha

theorem within_addCustomParams (params : Option CustomParamsDescriptor) :
    Within (Onward K R) (addCustomParams o params replica) := by
  have hone (key : String) (value : Tree) (var : String) :
      Within (Onward K R) (edit (addLabel key value) >=> edit (addMetricsPusherEnvVar o key var replica)) :=
    (within_edit (hl key value)).comp (within_edit (within_addMetricsPusherEnvVar ha o key var))
  exact (within_doIf (hone _ _ _) _).comp (within_doIf (hone _ _ _) _)

theorem within_parentStep (parent : Option String) : Within (Onward K R) (parentStep o parent replica) :=
  (within_addParentLabel hl parent).comp (within_doIf (within_edit (within_addMetricsPusherEnvVar ha o _ _)) _)

theorem within_metricsStep {output} (hr : output = false → Within R (removeMetricsSidecars replica))
    (d : BenchmarkDescriptor) : Within (Onward K R) (metricsStep o d output replica) := by
  cases output with
  | true =>
    exact (within_edit (.foldlM (fun kv : String × String => within_addMetricsPusherEnvVar ha o kv.1 kv.2) _)).comp
      (within_addCustomParams hl ha _)
  | false => exact within_edit (hr rfl)

end Metrics

section Other
variable {scripts : List (String × String)} (hK : ∀ env, K env → K (internalVars scripts env))
  (hp : ∀ f, Within R (onPodSpec replica f))
include hK hp

theorem within_addScripts : Within (Onward K R) (addScripts scripts replica) := by
  intro b b' hok
  have hk := hK b.internal_env_vars
  cases scripts with
  | nil =>
    obtain ⟨h, hh, hok⟩ := bind_ok.1 hok
    obtain ⟨h', hh', hok⟩ := bind_ok.1 hok
    cases hok
    exact ⟨hk, trans_of R (hp _ _ _ hh) (hp _ _ _ hh')⟩
  | cons script scripts =>
    obtain ⟨h, hh, hok⟩ := bind_ok.1 hok
    cases hok
    exact ⟨hk, hp _ _ _ hh⟩

end Other

theorem within_horovodReplicaUpdate {scripts b} (hK : ∀ env, K env → K (internalVars scripts env))
    (hl : ∀ key value, Within R (addLabel key value)) (hp : ∀ f, Within R (onPodSpec (some b) f)) (req : Request) :
    Within (Onward K R) (horovodReplicaUpdate o req scripts b) := by
  refine (within_edit (hp _)).comp ?_
  refine (within_addScripts hK hp).comp ?_
  refine (within_doIf (within_edit ((hp _).comp ((hp _).comp (hp _)))) _).comp ?_
  refine (within_addEnvVarsStep (fun f _ => hp _) _).comp ?_
  refine (within_metricsStep hl (fun f _ => hp _) (fun _ => within_removeMetricsSidecars hp) _).comp ?_
  refine (within_parentStep hl (fun f _ => hp _) _).comp ?_
  exact within_doIf (within_edit (hp _)) _

end Steps

end BenchmarkAi.Transpiler
