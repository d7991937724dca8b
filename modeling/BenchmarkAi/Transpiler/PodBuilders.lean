import BenchmarkAi.Transpiler.PodEdits
/-!
# The builders, on pods

The steps that add and remove containers, volumes and mounts, and with them the updates
of the three builders of benchmark jobs.
-/

open Lib List

namespace BenchmarkAi.Transpiler

variable {f : Tree → Py Tree} {volume : String} {new : List Tree} {t t' : Tree}

section Edits
variable {r : Option String} {P Q : Pod → Prop}

theorem shapes_onPodSpec
    (hf : ∀ spec spec' (p : Pod), Shows spec p.toPodShape → P p → f spec = .ok spec' → ∃ q : Pod, Shows spec' q.toPodShape ∧ Q q) :
    Shapes r P (onPodSpec r f) Q := by
  intro h h' p hok hat hp
  obtain ⟨spec, hget, hs⟩ := hat
  obtain ⟨spec', hsp', hr⟩ := onPodSpec_root hget hok
  obtain ⟨q, hq, hQ⟩ := hf spec spec' p hs hp hsp'
  exact ⟨q, ⟨spec', hr ▸ Tree.getPath?_set_self hget spec', hq⟩, hQ⟩

theorem shapes_removeContainer {name} (h : ∀ p, P p → Q (p.removeContainer name)) :
    Shapes r P (removeContainer name r) Q :=
  shapes_onPodSpec fun _ _ p hs hp hok => ⟨p.removeContainer name, onContainer_remove hs hok, h p hp⟩

theorem shapes_removeVolume (h : ∀ p : Pod, P p → p.Single volume ∧ Q (p.removeVolume volume)) :
    Shapes r P (removeVolume volume r) Q := by
  refine shapes_onPodSpec fun spec spec' p hs hp hok => ?_
  obtain ⟨hsi, hQ⟩ := h p hp
  refine ⟨p.removeVolume volume, ?_, hQ⟩
  obtain ⟨u, hu, hok⟩ := bind_ok.1 hok
  obtain ⟨volumes, hvo, hok⟩ := bind_ok.1 hok
  have hvo := hs.volumes.items (bind_ok.2 ⟨u, hu, hvo⟩)
  obtain ⟨found, hf, hok⟩ := bind_ok.1 hok
  obtain ⟨hsp, -⟩ | ⟨before, t, after, bs, x, as, hsp, heq, rfl, -, hb, -, ha⟩ :=
    @splitNamed_spec String NameIs id (fun _ _ h => h) volume _ _ hvo
  · obtain rfl := Except.ok.inj (hsp.symm.trans hf)
    obtain ⟨names, -, hok⟩ := bind_ok.1 hok
    cases hok
  · obtain rfl := Except.ok.inj (hsp.symm.trans hf)
    obtain ⟨u, hu, hok⟩ := bind_ok.1 hok
    obtain ⟨mains, hma, hok⟩ := bind_ok.1 hok
    have hma := hs.mains.items (bind_ok.2 ⟨u, hu, hma⟩)
    obtain ⟨mains', hma', hok⟩ := bind_ok.1 hok
    obtain ⟨u, hu, hok⟩ := bind_ok.1 hok
    obtain ⟨inits, hin, hok⟩ := bind_ok.1 hok
    have hin := hs.inits.items (bind_ok.2 ⟨u, hu, hin⟩)
    obtain ⟨inits', hin', hok⟩ := bind_ok.1 hok
    cases hok
    have hv : ListShows NameIs (spec.put "volumes" (.arr (before ++ after))) "volumes" (p.removeVolume (id x)).volumes := by
      refine hs.volumes.put_self ?_
      have hfi : (p.removeVolume (id x)).volumes = bs ++ as := by
        have hn := p.volumes_nodup
        rw [heq, ← map_id (bs ++ x :: as)] at hn
        exact (congrArg (filter _) heq).trans (filter_at_first hn)
      rw [hfi]
      exact rel_append hb ha
    have hm := forall₂_dropVolume hma (fun c hc => hsi c (mem_append_right _ hc)) hma'
    have hi := forall₂_dropVolume hin (fun c hc => hsi c (mem_append_left _ hc)) hin'
    exact ⟨((hs.inits.put_ne (by decide)).put_ne (by decide)).put_self hi,
      ((hs.mains.put_ne (by decide)).put_self hm).put_ne (by decide), (hv.put_ne (by decide)).put_ne (by decide)⟩

theorem shapes_mounts {container names} (hnew : Forall₂ MountShows new names)
    (h : ∀ p : Pod, P p → ∃ hv : ∀ v ∈ names, v ∈ p.volumes, Q (p.mountAt container names hv)) :
    Shapes r P (editContainer container r (extend "volumeMounts" new)) Q := by
  refine shapes_onPodSpec fun spec spec' p hs hp hok => ?_
  obtain ⟨hv, hQ⟩ := h p hp
  refine ⟨p.mountAt container names hv, onContainer_edit hs (fun t c t' ht _ hok => ?_) hok, hQ⟩
  obtain ⟨old, ha, rfl⟩ := extend_ok hok
  rcases ht.mounts with ⟨hn, -⟩ | ⟨ms, hget, hall⟩
  · -- without a list of mounts there is nothing to append to
    cases t with
    | obj fs =>
      rw [attr] at ha
      rw [Tree.get?] at hn
      rw [hn] at ha
      cases ha
    | _ => cases ha
  · obtain rfl := Tree.arr.inj (Except.ok.inj ((attr_of_get? hget).symm.trans ha))
    exact ht.put_mounts (rel_append hall hnew)

theorem shapes_pull {name bucket objects} (hf : ∀ t t', f t = .ok t' → t' = t.put "args" (pullerArgs (bucket, objects)))
    (h : ∀ p, P p → Q (p.pullAt name bucket objects)) : Shapes r P (editContainer name r f) Q := by
  refine shapes_onPodSpec fun spec spec' p hs hp hok =>
    ⟨p.pullAt name bucket objects, onContainer_edit hs (fun t c t' ht _ hok => ?_) hok, h p hp⟩
  obtain rfl := hf t t' hok
  exact ht.put_args bucket objects

theorem shapes_volume {new} (hnew : NameIs new volume)
    (h : ∀ p : Pod, P p → ∃ hv : volume ∉ p.volumes, Q (p.addVolume volume hv)) :
    Shapes r P (onPodSpec r (extend "volumes" [new])) Q := by
  refine shapes_onPodSpec fun spec spec' p hs hp hok => ?_
  obtain ⟨hv, hQ⟩ := h p hp
  refine ⟨p.addVolume volume hv, ?_, hQ⟩
  obtain ⟨old, ha, rfl⟩ := extend_ok hok
  obtain ⟨ts, hget, hall⟩ := hs.volumes
  obtain rfl := Tree.arr.inj (Except.ok.inj ((attr_of_get? hget).symm.trans ha))
  exact ⟨hs.inits.put_ne (by decide), hs.mains.put_ne (by decide),
    hs.volumes.put_self (rel_append hall (.cons hnew .nil))⟩

end Edits

theorem editContainer_ok {name r h h'} (hok : editContainer name r f h = .ok h') : ∃ t t', f t = .ok t' := by
  iterate 2 obtain ⟨_, -, hok⟩ := bind_ok.1 hok
  obtain ⟨_, hok, -⟩ := bind_ok.1 hok
  iterate 3 obtain ⟨_, -, hok⟩ := bind_ok.1 hok
  split at hok
  · obtain ⟨_, hf, -⟩ := bind_ok.1 hok
    obtain ⟨t', ht', -⟩ := bind_ok.1 hf
    exact ⟨_, t', ht'⟩
  · obtain ⟨_, -, hok⟩ := bind_ok.1 hok
    iterate 2 obtain ⟨_, -, hok⟩ := bind_ok.1 hok
    split at hok
    · obtain ⟨_, hf, -⟩ := bind_ok.1 hok
      obtain ⟨t', ht', -⟩ := bind_ok.1 hf
      exact ⟨_, t', ht'⟩
    · obtain ⟨_, -, hok⟩ := bind_ok.1 hok
      cases hok

/-! ## Data and scripts -/

variable (o : Outside) (req : Request) (scripts : List (String × String))

section Steps
variable {r : Option String} {m : Option (Option String)} {d s : Option (Option (String × String))} {vs : List String}
  {b : Bool}

theorem mountShows_data (data_volumes : List (String × String)) :
    Forall₂ MountShows (containerVolumeMounts data_volumes) (data_volumes.map fun _ => datasetsVolumeName) := by
  induction data_volumes with
  | nil => exact .nil
  | cons dv dvs ih =>
    refine .cons ⟨rfl, ?_⟩ ih
    simp [Tree.pyEq, Tree.pyEqFields, lookup_cons_if]

theorem shapes_find {P} (container : String) : Shapes r P (editContainer container r pure) P :=
  shapes_quiet (allows_shape rfl (fun k (hk : k ∈ []) => nomatch hk) _ touches_pure)

/-- The arguments that an edit of a puller writes, told from how it comes by them. -/
theorem putArgs_ok {x : Py (String × String)} {objects}
    (h : (x >>= fun b => objects >>= fun os => pure (t.put "args" (.arr [.str b.1, .str (":".intercalate os)]))) = .ok t') :
    ∃ a, (x >>= fun b => objects >>= fun os => pure (b.1, ":".intercalate os)) = .ok a ∧
      t' = t.put "args" (pullerArgs a) := by
  obtain ⟨bucket, hb, h⟩ := bind_ok.1 h
  obtain ⟨os, hos, h⟩ := bind_ok.1 h
  cases h
  exact ⟨(bucket.1, ":".intercalate os), bind_ok.2 ⟨bucket, hb, bind_ok.2 ⟨os, hos, rfl⟩⟩, rfl⟩

theorem shapes_updateDataPuller (config : BaiConfig) (first : DownloadableContent) (rest : List DownloadableContent) :
    Shapes r (Stage m (some none) s vs b) (updateDataPuller o config (getDataMounts (first :: rest)) (first :: rest) r)
      (Stage m (pulledData o config (first :: rest)) s vs b) := by
  intro h h' p hok hat hp
  obtain ⟨t, t', ht⟩ := editContainer_ok hok
  obtain ⟨a, har, -⟩ := putArgs_ok ht
  have ha : dataPulls o config (first :: rest) = .ok a := har
  have hpu : pulledData o config (first :: rest) = some (some a) := by
    rw [pulledData, ha]
    rfl
  rw [hpu]
  refine shapes_pull (fun t t' ht => ?_) (fun p hp => hp.pullData a.1 a.2) h h' p hok hat hp
  obtain ⟨a', ha', ht'⟩ := putArgs_ok ht
  obtain rfl := Except.ok.inj (har.symm.trans ha')
  exact ht'

theorem shapes_addDataVolumeMounts (config : BaiConfig) (sources : List DownloadableContent) (container : String)
    (hvs : datasetsVolumeName ∉ vs) :
    Shapes r (Stage m (some none) s (datasetsVolumeName :: vs) b) (addDataVolumeMounts o config sources container r)
      (Stage m (pulledData o config sources) s vs b) := by
  refine (shapes_find container).bind ?_
  cases sources with
  | nil =>
    refine Shapes.bind (Q := Stage m none s vs b) ?_ ?_
    · refine (shapes_removeContainer fun p hp => hp.removeData).bind (shapes_removeVolume fun p hp => ?_)
      exact ⟨(hp.pending _ mem_cons_self).2, hp.removeVolume hvs⟩
    · exact shapes_mounts .nil fun p hp => ⟨nofun, hp.mountAt _ fun v _ => not_mem_nil⟩
  | cons first rest =>
    refine (shapes_updateDataPuller o config first rest).bind ?_
    refine shapes_mounts (mountShows_data _) fun p hp => ⟨fun v hv => ?_, ?_⟩
    · obtain ⟨-, -, rfl⟩ := mem_map.1 hv
      exact (hp.pending _ mem_cons_self).1
    · have hl : Stage m (pulledData o config (first :: rest)) s vs b p :=
        ⟨hp.metrics, hp.data, hp.scripts, fun v hv => hp.pending v (mem_cons_of_mem _ hv), hp.shm⟩
      refine hl.mountAt _ fun v hv hmem => ?_
      obtain ⟨-, -, rfl⟩ := mem_map.1 hmem
      exact hvs hv

theorem leads_addScripts (hvs : scriptsVolumeName ∉ vs) :
    Leads r (Stage m d (some none) (scriptsVolumeName :: vs) b) (addScripts scripts r)
      (Stage m d (pulledScripts scripts) vs b) := by
  cases scripts with
  | nil =>
    intro st st' p hok hat hp
    obtain ⟨h, hh, hok⟩ := bind_ok.1 hok
    obtain ⟨h', hh', hok⟩ := bind_ok.1 hok
    cases hok
    obtain ⟨q, hq, hs⟩ := shapes_removeContainer (fun p hp => Stage.removeScripts hp) _ _ p hh hat hp
    exact shapes_removeVolume (fun p hp => ⟨(hp.pending _ mem_cons_self).2, hp.removeVolume hvs⟩) _ _ q hh' hq hs
  | cons script scripts =>
    intro st st' p hok hat hp
    obtain ⟨bucket, object⟩ := script
    obtain ⟨root, hr, hok⟩ := bind_ok.1 hok
    cases hok
    have hl : Stage m d (some none) vs b p :=
      ⟨hp.metrics, hp.data, hp.scripts, fun v hv => hp.pending v (mem_cons_of_mem _ hv), hp.shm⟩
    refine shapes_pull (fun t t' ht => ?_) (fun p hp => hp.pullScripts bucket _) _ _ p hr hat hl
    exact (pure_ok.1 ht).symm

theorem leads_addExtendedShm (container : String) (hvs : sharedMemoryVolume ∉ vs) :
    Leads r (Stage m d s vs false) (edit (addExtendedShm container r)) (Stage m d s vs true) := by
  refine leads_edit ((shapes_find container).bind ?_)
  refine Shapes.bind (Q := fun p => Stage m d s vs true p ∧ sharedMemoryVolume ∈ p.volumes) ?_ ?_
  · refine shapes_volume rfl fun p hp => ⟨hp.shm rfl, hp.addVolume, ?_⟩
    exact mem_append_right _ mem_cons_self
  · have hs : Forall₂ MountShows [.obj [("name", .str sharedMemoryVolume),
        ("mountPath", .str sharedMemoryVolumeMount)]] [sharedMemoryVolume] := .cons ⟨rfl, rfl⟩ .nil
    refine shapes_mounts hs fun p hp => ⟨?_, hp.1.mountAt _ ?_⟩
    · intro v hv
      exact mem_singleton.1 hv ▸ hp.2
    · intro v hv hmem
      exact hvs (mem_singleton.1 hmem ▸ hv)

end Steps

/-! ## Steps that a pod does not show -/

section Still
variable {r : Option String}

theorem still_metricsStep (hm : r ≠ some "metadata") (d : BenchmarkDescriptor) :
    Within (Onward (fun _ => True) (SameShape r)) (metricsStep o d true r) :=
  within_metricsStep (quiet_addLabel hm) (allows_shape rfl (by decide)) (fun h => absurd h (by decide)) d

theorem still_parentStep (hm : r ≠ some "metadata") (parent : Option String) :
    Within (Onward (fun _ => True) (SameShape r)) (parentStep o parent r) :=
  within_parentStep (quiet_addLabel hm) (allows_shape rfl (by decide)) parent

variable {a b : String}

theorem quiet_onPodSpec_ne (h : a ≠ b) (f : Tree → Py Tree) : Within (SameShape (some a)) (onPodSpec (some b) f) :=
  fun _ _ hok _ hat => at_onPodSpec_ne h hat hok

theorem still_horovodReplicaUpdate (h : a ≠ b) (hm : a ≠ "metadata") :
    Within (Onward (fun _ => True) (SameShape (some a))) (horovodReplicaUpdate o req scripts b) :=
  within_horovodReplicaUpdate (fun _ => id) (quiet_addLabel fun heq => hm (Option.some.inj heq)) (quiet_onPodSpec_ne h) req

end Still

/-! ## The builders -/

section Builders
variable {r : Option String} {m : Option (Option String)} {d s : Option (Option (String × String))} {vs : List String}
  {b : Bool}

def keptMetrics (output : Bool) (metrics : Option (Option String)) : Option (Option String) :=
  if output then metrics else none

theorem leads_metricsStep (hm : r ≠ some "metadata") (o : Outside) (desc : BenchmarkDescriptor) (output : Bool) :
    Leads r (Stage m d s vs b) (metricsStep o desc output r) (Stage (keptMetrics output m) d s vs b) := by
  cases output with
  | true => exact leads_still (still_metricsStep o hm desc)
  | false =>
    have he : Shapes r (Stage m d s vs b) (removeContainer metricsExtractorContainer r) (Stage none d s vs b) :=
      shapes_removeContainer fun p hp => hp.removeMetrics
    exact leads_edit (he.bind (shapes_removeContainer fun p hp => hp.removeContainer (by decide)))

theorem leads_singleRunUpdate (hs : req.descriptor.hardware.strategy ≠ .horovod) :
    Leads none (Stage m (some none) (some none) [datasetsVolumeName, scriptsVolumeName] false) (singleRunUpdate o req scripts)
      (Stage (keptMetrics req.descriptor.output.isSome m) (pulledData o req.config.bai_config req.fetched_data_sources)
        (pulledScripts scripts) [] true) := by
  have hm : none ≠ some "metadata" := nofun
  refine (leads_quiet (within_setServiceAccount (allowsPod_shape rfl (by decide)) _)).comp ?_
  refine (leads_edit (shapes_addDataVolumeMounts o _ _ _ (by decide))).comp ?_
  refine (leads_addScripts scripts not_mem_nil).comp ?_
  refine ((leads_addExtendedShm _ not_mem_nil).doIf _ fun _ _ hp => hp.later).comp ?_
  refine (leads_still (within_addEnvVarsStep (allows_shape rfl (by decide)) _)).comp ?_
  refine (leads_quiet (within_addBenchmarkCmd (fun _ _ _ => quiet_editConfigMap _ _) (fun _ => allows_shape rfl (by decide)) (absurd · hs) o _)).comp ?_
  refine (leads_metricsStep hm o _ _).comp ?_
  refine (leads_still (still_parentStep o hm _)).comp ?_
  refine (leads_still (within_doIf (within_edit (within_removeAffinity (allowsPod_shape rfl (by decide)))) _)).comp ?_
  split
  · exact (leads_quiet (within_setServiceAccount (allowsPod_shape rfl (by decide)) _)).comp (leads_quiet (within_addServerEnvVars (allows_shape rfl (by decide)) _ _))
  · exact (leads_edit (shapes_removeContainer fun p hp => hp.removeContainer (by decide))).doIf _ fun _ _ hp => hp

theorem leads_horovodReplicaUpdate {replica} (hm : replica ≠ "metadata") :
    Leads (some replica) (Stage m d (some none) [scriptsVolumeName] false) (horovodReplicaUpdate o req scripts replica)
      (Stage (keptMetrics req.descriptor.output.isSome m) d (pulledScripts scripts) [] true) := by
  have hm' : some replica ≠ some "metadata" := fun heq => hm (Option.some.inj heq)
  refine (leads_quiet (within_setServiceAccount (allowsPod_shape rfl (by decide)) _)).comp ?_
  refine (leads_addScripts scripts not_mem_nil).comp ?_
  refine ((leads_addExtendedShm _ not_mem_nil).doIf _ fun _ _ hp => hp.later).comp ?_
  refine (leads_still (within_addEnvVarsStep (allows_shape rfl (by decide)) _)).comp ?_
  refine (leads_metricsStep hm' o _ _).comp ?_
  refine (leads_still (still_parentStep o hm' _)).comp ?_
  exact leads_still (within_doIf (within_edit (within_removeAffinity (allowsPod_shape rfl (by decide)))) _)

theorem leads_horovodUpdate_launcher (hs : req.descriptor.hardware.strategy = .horovod) :
    Leads (some "Launcher") (Stage m none (some none) [scriptsVolumeName] false) (horovodUpdate o req scripts)
      (Stage (keptMetrics req.descriptor.output.isSome m) none (pulledScripts scripts) [] true) := by
  refine (leads_quiet (within_addDataVolumeMounts (quiet_onPodSpec_ne (by decide)) _ _)).comp ?_
  refine (leads_quiet (within_addBenchmarkCmd (fun _ _ _ => quiet_editConfigMap _ _) (absurd hs ·) (fun _ => allows_shape (akin_some _ _) (by decide)) o _)).comp ?_
  refine (leads_horovodReplicaUpdate o req scripts (by decide)).comp ?_
  exact leads_still (still_horovodReplicaUpdate o req scripts (by decide) (by decide))

theorem leads_horovodUpdate_worker (hs : req.descriptor.hardware.strategy = .horovod) :
    Leads (some "Worker") (Stage m (some none) (some none) [datasetsVolumeName, scriptsVolumeName] false)
      (horovodUpdate o req scripts)
      (Stage (keptMetrics req.descriptor.output.isSome m) (pulledData o req.config.bai_config req.fetched_data_sources)
        (pulledScripts scripts) [] true) := by
  refine (leads_edit (shapes_addDataVolumeMounts o _ _ _ (by decide))).comp ?_
  refine (leads_quiet (within_addBenchmarkCmd (fun _ _ _ => quiet_editConfigMap _ _) (absurd hs ·) (fun _ => allows_shape (akin_some _ _) (by decide)) o _)).comp ?_
  refine (leads_still (still_horovodReplicaUpdate o req scripts (by decide) (by decide))).comp ?_
  exact leads_horovodReplicaUpdate o req scripts (by decide)

theorem leads_inferenceServerUpdate (server : ServerDescriptor) :
    Leads none (Stage m (some none) none [datasetsVolumeName] false) (inferenceServerUpdate o req server)
      (Stage (keptMetrics server.output.isSome m) (pulledData o req.config.bai_config req.fetched_models) none [] true) := by
  have hm : none ≠ some "metadata" := nofun
  refine (leads_quiet (within_setServiceAccount (allowsPod_shape rfl (by decide)) _)).comp ?_
  refine ((leads_addExtendedShm _ (by decide)).doIf _ fun _ _ hp => hp.later).comp ?_
  refine (leads_quiet (within_addServerCommand (allows_shape rfl (by decide)) o _)).comp ?_
  refine (leads_edit (shapes_addDataVolumeMounts o _ _ _ not_mem_nil)).comp ?_
  refine (leads_quiet (within_addEnvVars (allows_shape rfl (by decide)) _)).comp ?_
  refine (leads_quiet (quiet_addTcpPorts _ _)).comp ?_
  refine (leads_quiet (within_addContainerPorts (allows_shape rfl (by decide)) _)).comp ?_
  refine (leads_quiet (within_addProbe (allows_shape rfl (by decide)) _)).comp ?_
  refine (leads_still (within_addParentLabel (quiet_addLabel hm) _)).comp ?_
  refine (leads_metricsStep hm o _ _).comp ?_
  exact leads_still (within_doIf (within_edit (within_removeAffinity (allowsPod_shape rfl (by decide)))) _)

end Builders

end BenchmarkAi.Transpiler
