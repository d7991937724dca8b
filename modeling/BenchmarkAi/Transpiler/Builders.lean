import BenchmarkAi.Transpiler.Descriptor
import BenchmarkAi.Transpiler.Templates
/-!
# From a descriptor to Kubernetes objects

`transpiler/bai_knowledge.py`: the builders of the Kubernetes objects for a
scheduled benchmark, a single node job, an MPI job and an inference server. Each
formats its template, adds the labels of the descriptor and then makes its own
edits, in the order of the source.
-/

open Lib

namespace BenchmarkAi.Transpiler

/-! ## Constants -/

def benchmarkContainer : String := "benchmark"
def dataPullerContainer : String := "data-puller"
def metricsPusherContainer : String := "metrics-pusher"
def metricsExtractorContainer : String := "metrics-extractor"
def datasetsVolumeName : String := "datasets-volume"
def scriptsVolumeName : String := "scripts-volume"
def scriptsPullerContainer : String := "script-puller"
def inferenceServerLockContainer : String := "inference-server-lock"
def inferenceServerContainer : String := "inference-server"
def scriptsMountPath : String := "/bai/scripts"
def scriptPullerChmod : String := "777"
def scriptUnpackModificator : String := "unpack_in_place"
def sharedMemoryVolume : String := "dshm"
def sharedMemoryVolumeMount : String := "/dev/shm"
def benchmarkServiceAccount : String := "benchmark"
def inferenceServerServiceAccount : String := "inference-benchmark"
def metricsPusherCustomLabelPrefix : String := "custom_label_"

/-! ## Inputs -/

structure BaiConfig where
  puller_mount_chmod : String
  puller_docker_image : String
  cron_job_docker_image : String
  metrics_pusher_docker_image : String
  metrics_extractor_docker_image : String
  job_status_trigger_docker_image : String
  suppress_job_affinity : Bool := false

structure ExecutorConfig where
  descriptor_config : DescriptorConfig
  bai_config : BaiConfig
  availability_zones : List (String × String)

structure Url where
  scheme : String
  netloc : String
  path : String

structure Outside where
  yaml : Yaml
  lower : String → String
  upper : String → String
  cronValid : String → Bool
  instanceGpus : String → Py Nat
  urlparse : String → Py Url
  shlexSplit : String → Py (List String)
  base64 : String → String
  dumpMetrics : List MetricDescriptor → String
  choice : List String → Py String

/-- The arguments of `create_job_yaml_spec` and `create_scheduled_job_yaml_spec`. Of
the event's payload only the JSON text of the event is read, which is `event_json_str`. -/
structure Request where
  descriptor : BenchmarkDescriptor
  config : ExecutorConfig
  fetched_data_sources : List DownloadableContent := []
  fetched_models : List DownloadableContent := []
  scripts : List String := []
  job_id : String
  event : BenchmarkEvent Unit
  event_json_str : String := ""

/-- A builder at work: the objects, and the variables it adds to the environment
of the benchmark. -/
structure BuilderState where
  root : RootObjectHelper
  internal_env_vars : List (String × Tree) := []

abbrev Step := BuilderState → Py BuilderState

def edit (f : RootObjectHelper → Py RootObjectHelper) : Step := fun b => return { b with root := ← f b.root }

def doIf (c : Bool) (s : Step) : Step := if c then s else pure

/-! ## Data sources and scripts -/

/-- Bucket and object of a fetched file: `BaiScriptSource.__init__` and
`_get_s3_bucket_and_object_from_uri`. The message goes on with the file. -/
def s3Object (o : Outside) (what : String) (dst : Option String) : Py (String × String) :=
  match dst with
  | none => throw (.descriptorError ("Unexpected scheme in " ++ what ++ " src: b''."))
  | some dst => do
    let uri ← o.urlparse dst
    if o.lower uri.scheme ≠ "s3" then
      throw (.descriptorError ("Unexpected scheme in " ++ what ++ " src: " ++ uri.scheme ++ "."))
    return (uri.netloc, String.ofList (uri.path.toList.drop 1))

/-- `_get_data_mounts`: the name of the directory for each path, `p` and the index
of the first source with that path. -/
def getDataMounts (data_sources : List DownloadableContent) : List (String × String) :=
  (data_sources.mapIdx fun i s => (s.path, s!"p{i}")).foldl
    (fun vols kv => if (vols.lookup kv.1).isSome then vols else vols ++ [kv]) []

def containerVolumeMounts (data_volumes : List (String × String)) : List Tree :=
  data_volumes.map fun (path, name) =>
    .obj [("name", .str datasetsVolumeName), ("mountPath", .str path), ("subPath", .str name)]

def updateDataPuller (o : Outside) (config : BaiConfig) (data_volumes : List (String × String))
    (data_sources : List DownloadableContent) (replica : Option String) (h : RootObjectHelper) :
    Py RootObjectHelper :=
  match data_sources with
  | [] => do
    let h ← removeContainer dataPullerContainer replica h
    removeVolume datasetsVolumeName replica h
  | first :: _ => editContainer dataPullerContainer replica (fun c => do
    let (s3_bucket, _) ← s3Object o "data source" first.dst
    let s3_objects ← data_sources.mapM fun s => do
      let (_, object) ← s3Object o "data source" s.dst
      return object ++ "," ++ config.puller_mount_chmod ++ "," ++ (data_volumes.lookup s.path).getD ""
    return c.put "args" (.arr [.str s3_bucket, .str (":".intercalate s3_objects)])) h

def extend (k : String) (new : List Tree) (c : Tree) : Py Tree := do
  return c.put k (.arr ((← list (← attr k c)) ++ new))

/-- `add_data_volume_mounts`. The container is looked up before the puller is
changed; the mounts are added to it after. -/
def addDataVolumeMounts (o : Outside) (config : BaiConfig) (data_sources : List DownloadableContent)
    (container : String) (replica : Option String) (h : RootObjectHelper) : Py RootObjectHelper := do
  let h ← editContainer container replica pure h
  let data_mounts := getDataMounts data_sources
  let h ← updateDataPuller o config data_mounts data_sources replica h
  editContainer container replica (extend "volumeMounts" (containerVolumeMounts data_mounts)) h

def addScripts (scripts : List (String × String)) (replica : Option String) : Step := fun b =>
  match scripts with
  | [] => do
    let h ← removeContainer scriptsPullerContainer replica b.root
    return { b with root := ← removeVolume scriptsVolumeName replica h }
  | (bucket, _) :: _ => do
    let s3_objects := scripts.mapIdx fun i s =>
      s.2 ++ "," ++ scriptPullerChmod ++ "," ++ scriptsMountPath ++ s!"/s{i}" ++ "," ++ scriptUnpackModificator
    let root ← editContainer scriptsPullerContainer replica
      (fun c => return c.put "args" (.arr [.str bucket, .str (":".intercalate s3_objects)])) b.root
    return { root, internal_env_vars := assign "BAI_SCRIPTS_PATH" (.str scriptsMountPath) b.internal_env_vars }

/-! ## Edits of the benchmark container -/

def addExtendedShm (container : String) (replica : Option String) (h : RootObjectHelper) : Py RootObjectHelper := do
  let h ← editContainer container replica pure h
  let h ← onPodSpec replica (extend "volumes" [.obj [("name", .str sharedMemoryVolume),
    ("emptyDir", .obj [("medium", .str "Memory")])]]) h
  editContainer container replica (extend "volumeMounts" [.obj [("name", .str sharedMemoryVolume),
    ("mountPath", .str sharedMemoryVolumeMount)]]) h

def strings (ss : List String) : Tree := .arr (ss.map .str)

def splitArgs (o : Outside) (command : Option String) : Py (List String) :=
  match command with
  | none | some "" => return []
  | some command => o.shlexSplit command

def addBenchmarkCmdToContainer (o : Outside) (ml : Option MLDescriptor) (replica : Option String) :
    RootObjectHelper → Py RootObjectHelper :=
  editContainer benchmarkContainer replica fun c => do
    let code := ml.bind (·.benchmark_code)
    let args := ml.bind (·.args)
    if truthy code then
      let cmd ← splitArgs o code
      let args ← splitArgs o args
      return (c.put "command" (strings (cmd ++ args))).erase "args"
    else if truthy args then
      return (c.put "args" (strings (← splitArgs o args))).erase "command"
    else return (c.erase "command").erase "args"

def pySpace (c : Char) : Bool :=
  let n := c.toNat
  (9 ≤ n && n ≤ 13) || (28 ≤ n && n ≤ 32) || n == 0x85 || n == 0xa0 || n == 0x1680 || (0x2000 ≤ n && n ≤ 0x200a) ||
    n == 0x2028 || n == 0x2029 || n == 0x202f || n == 0x205f || n == 0x3000

def strip (cs : List Char) : List Char := ((cs.dropWhile pySpace).reverse.dropWhile pySpace).reverse

def stripLines (s : String) : String :=
  "\n".intercalate ((s.toList.splitOn '\n').map fun line => String.ofList (strip line))

def addBenchmarkCmdToConfigMap (o : Outside) (job_id : String) (ml : Option MLDescriptor) (replica : Option String)
    (h : RootObjectHelper) : Py RootObjectHelper :=
  let code := ml.bind (·.benchmark_code)
  if truthy code then
    let benchmark_cmd := code.getD "" ++ (ml.bind (·.args)).getD ""
    editConfigMap ("entrypoint-" ++ job_id) (fun config_map => do
      match ← attr "data" config_map with
      | .obj data => return config_map.put "data" (.obj (assign "entrypoint.sh" (.str (stripLines benchmark_cmd)) data))
      | _ => throw .builtin) h
  else addBenchmarkCmdToContainer o ml replica h

def addBenchmarkCmd (o : Outside) (job_id : String) (d : BenchmarkDescriptor) (replica : Option String) :
    RootObjectHelper → Py RootObjectHelper :=
  match d.hardware.strategy with
  | .single_node | .inference => addBenchmarkCmdToContainer o d.ml none
  | .horovod => addBenchmarkCmdToConfigMap o job_id d.ml replica

def addEnvVarsStep (vars : List (String × String)) (replica : Option String) : Step := fun b => do
  let h ← addEnvVars benchmarkContainer (vars.map fun (k, v) => (k, .str v)) replica b.root
  return { b with root := ← addEnvVars benchmarkContainer b.internal_env_vars replica h }

def addServerEnvVars (inference_server_job_id : String) (server : Option ServerDescriptor) (h : RootObjectHelper) :
    Py RootObjectHelper :=
  match server.map (·.env.ports) with
  | none | some [] => throw .builtin
  | some (port :: ports) =>
    addEnvVars benchmarkContainer
      ([("INFERENCE_SERVER_HOST", .str (inference_server_job_id ++ ".default")),
        ("INFERENCE_SERVER_PORT", .num port)] ++
       ports.mapIdx fun i p => (s!"INFERENCE_SERVER_PORT_{i + 1}", .num p)) none h

/-! ## Labels of the metrics -/

/-- `add_metrics_pusher_env_var`: nothing to do without the container. A container
without an environment does not get one. -/
def addMetricsPusherEnvVar (o : Outside) (key : String) (value : String) (replica : Option String)
    (h : RootObjectHelper) : Py RootObjectHelper :=
  let var : Tree := .obj [("name", .str (o.upper metricsPusherCustomLabelPrefix ++ o.upper key)), ("value", .str value)]
  match editContainer metricsPusherContainer replica (fun c =>
      if (c.get? "env").isNone then return c else extend "env" [var] c) h with
  | .error e => if e.isValueError then return h else throw e
  | .ok h => return h

def removeMetricsSidecars (replica : Option String) (h : RootObjectHelper) : Py RootObjectHelper := do
  let h ← removeContainer metricsExtractorContainer replica h
  removeContainer metricsPusherContainer replica h

def labelValue : Option String → Tree
  | some s => .str s
  | none => .null

/-- Dashboard and region as labels and as variables of the metrics pusher. The
label `region` gets the dashboard. -/
def addCustomParams (o : Outside) (params : Option CustomParamsDescriptor) (replica : Option String) : Step :=
  let dashboard := params.bind (·.dashboard)
  let region := params.bind (·.region)
  doIf (truthy dashboard)
    (edit (addLabel "dashboard-name" (labelValue dashboard)) >=>
     edit (addMetricsPusherEnvVar o "dashboard-name" (dashboard.getD "") replica)) >=>
  doIf (truthy region)
    (edit (addLabel "region" (labelValue dashboard)) >=>
     edit (addMetricsPusherEnvVar o "region" (region.getD "") replica))

def metricsStep (o : Outside) (d : BenchmarkDescriptor) (output : Bool) (replica : Option String) : Step :=
  if output then
    edit (fun h => d.info.labels.entries.foldlM (fun h kv => addMetricsPusherEnvVar o kv.1 kv.2 replica h) h) >=>
    addCustomParams o d.custom_params replica
  else edit (removeMetricsSidecars replica)

def addParentLabel (parent : Option String) : Step :=
  doIf (truthy parent) (edit (addLabel "parent-action-id" (labelValue parent)))

def parentStep (o : Outside) (parent : Option String) (replica : Option String) : Step :=
  addParentLabel parent >=>
  doIf (truthy parent) (edit (addMetricsPusherEnvVar o "parent-action-id" (parent.getD "") replica))

/-! ## The edits of each builder -/

def Request.jobId (o : Outside) (r : Request) : String := o.lower r.job_id

def Request.inferenceServerJobId (o : Outside) (r : Request) : String := "is-" ++ r.jobId o

/-- `SingleRunBenchmarkKubernetesObjectBuilder._update_root_k8s_object`. -/
def singleRunUpdate (o : Outside) (r : Request) (scripts : List (String × String)) : Step :=
  edit (setServiceAccount benchmarkServiceAccount none) >=>
  edit (addDataVolumeMounts o r.config.bai_config r.fetched_data_sources benchmarkContainer none) >=>
  addScripts scripts none >=>
  doIf r.descriptor.env.extended_shm (edit (addExtendedShm benchmarkContainer none)) >=>
  addEnvVarsStep r.descriptor.env.vars none >=>
  edit (addBenchmarkCmd o (r.jobId o) r.descriptor none) >=>
  metricsStep o r.descriptor r.descriptor.output.isSome none >=>
  parentStep o r.event.parent_action_id none >=>
  doIf r.config.bai_config.suppress_job_affinity (edit (removeAffinity none)) >=>
  if r.descriptor.isInferenceStrategy then
    edit (setServiceAccount inferenceServerServiceAccount none) >=>
    edit (addServerEnvVars (r.inferenceServerJobId o) r.descriptor.server)
  else doIf (r.descriptor.hardware.strategy = .single_node) (edit (removeContainer inferenceServerLockContainer none))

def horovodReplicaUpdate (o : Outside) (r : Request) (scripts : List (String × String)) (replica : String) : Step :=
  edit (setServiceAccount benchmarkServiceAccount (some replica)) >=>
  addScripts scripts (some replica) >=>
  doIf r.descriptor.env.extended_shm (edit (addExtendedShm benchmarkContainer (some replica))) >=>
  addEnvVarsStep r.descriptor.env.vars (some replica) >=>
  metricsStep o r.descriptor r.descriptor.output.isSome (some replica) >=>
  parentStep o r.event.parent_action_id (some replica) >=>
  doIf r.config.bai_config.suppress_job_affinity (edit (removeAffinity (some replica)))

/-- `HorovodJobKubernetesObjectBuilder._update_root_k8s_object`. -/
def horovodUpdate (o : Outside) (r : Request) (scripts : List (String × String)) : Step :=
  edit (addDataVolumeMounts o r.config.bai_config r.fetched_data_sources benchmarkContainer (some "Worker")) >=>
  edit (addBenchmarkCmd o (r.jobId o) r.descriptor (some "Launcher")) >=>
  horovodReplicaUpdate o r scripts "Launcher" >=>
  horovodReplicaUpdate o r scripts "Worker"

def addServerCommand (o : Outside) (env : ServerEnvDescriptor) : RootObjectHelper → Py RootObjectHelper :=
  editContainer inferenceServerContainer none fun c => do
    let cmd ← splitArgs o env.start_command
    let args ← splitArgs o env.start_command_args
    return (c.put "command" (strings (cmd ++ args))).erase "args"

def addProbe (env : ServerEnvDescriptor) (h : RootObjectHelper) : Py RootObjectHelper :=
  match env.readiness_probe, env.ports with
  | none, _ => return h
  | some _, [] => throw .builtin
  | some probe, port :: _ => addReadinessProbe inferenceServerContainer probe port h

/-- `InferenceServerJobKubernetedObjectBuilder._update_root_k8s_object`. -/
def inferenceServerUpdate (o : Outside) (r : Request) (server : ServerDescriptor) : Step :=
  edit (setServiceAccount inferenceServerServiceAccount none) >=>
  doIf server.env.extended_shm (edit (addExtendedShm inferenceServerContainer none)) >=>
  edit (addServerCommand o server.env) >=>
  edit (addDataVolumeMounts o r.config.bai_config r.fetched_models inferenceServerContainer none) >=>
  edit (addEnvVars inferenceServerContainer (server.env.vars.map fun (k, v) => (k, .str v)) none) >=>
  edit (addTcpPorts (r.inferenceServerJobId o) server.env.ports) >=>
  edit (addContainerPorts inferenceServerContainer server.env.ports) >=>
  edit (addProbe server.env) >=>
  addParentLabel r.event.parent_action_id >=>
  metricsStep o r.descriptor server.output.isSome none >=>
  doIf r.config.bai_config.suppress_job_affinity (edit (removeAffinity none))

/-! ## Building -/

/-- The pattern as it is written into the template. The source writes it back into the
descriptor too, which is not read again for the same objects. -/
def MetricDescriptor.encode (o : Outside) (m : MetricDescriptor) : MetricDescriptor :=
  { m with pattern := o.base64 m.pattern }

def chooseAvailabilityZone (o : Outside) (r : Request) : Py String :=
  let zones := r.config.availability_zones
  match r.descriptor.hardware.availability_zone, r.descriptor.hardware.aws_zone_id with
  | some zone, zone_id =>
    if zone ≠ "" then
      if (zones.map Prod.snd).contains zone then return zone
      else throw (.descriptorError ("Invalid zone name " ++ zone))
    else byId zones zone_id
  | none, zone_id => byId zones zone_id
where
  byId (zones : List (String × String)) : Option String → Py String
    | none | some "" => o.choice (zones.map Prod.snd)
    | some zone_id =>
      match zones.lookup zone_id with
      | some zone => return zone
      | none => throw (.descriptorError ("Invalid zone id " ++ zone_id))

def formatBool (b : Bool) : String := if b then "True" else "False"

def commonValues (o : Outside) (r : Request) : Py Values := do
  return {
    job_id := r.jobId o
    inference_server_job_id := r.inferenceServerJobId o
    service_name := executorService
    action_id := r.event.action_id
    client_id := r.event.client_id
    scheduling := r.descriptor.info.scheduling
    cron_job_docker_image := r.config.bai_config.cron_job_docker_image
    puller_docker_image := r.config.bai_config.puller_docker_image
    metrics_pusher_docker_image := r.config.bai_config.metrics_pusher_docker_image
    metrics_extractor_docker_image := r.config.bai_config.metrics_extractor_docker_image
    job_status_trigger_docker_image := r.config.bai_config.job_status_trigger_docker_image
    docker_image := r.descriptor.env.docker_image
    privileged := formatBool r.descriptor.env.privileged
    gpus_per_instance := toString (← o.instanceGpus r.descriptor.hardware.instance_type)
    instance_type := r.descriptor.hardware.instance_type
    num_instances := toString r.descriptor.hardware.num_instances }

def metricsText (o : Outside) (output : Option (List MetricDescriptor)) : String :=
  o.dumpMetrics ((output.getD []).map (·.encode o))

def scheduledValues (o : Outside) (r : Request) : Py Values := do
  return { ← commonValues o r with event_json_str := r.event_json_str }

def benchmarkValues (o : Outside) (r : Request) : Py Values := do
  let v ← commonValues o r
  return { v with
    availability_zone := ← chooseAvailabilityZone o r
    metrics := metricsText o r.descriptor.output }

def serverValues (o : Outside) (r : Request) (server : ServerDescriptor) : Py Values := do
  let v ← commonValues o r
  return { v with
    availability_zone := ← chooseAvailabilityZone o r
    server_metrics := metricsText o server.output
    server_docker_image := server.env.docker_image
    server_privileged := formatBool server.env.privileged
    server_gpus_per_instance := toString (← o.instanceGpus server.hardware.instance_type)
    server_instance_type := server.hardware.instance_type }

def fillTemplate (o : Outside) (t : Template) (v : Py Values) : Py RootObjectHelper := do
  ofDocs (← o.yaml.load t (← v))

def build (o : Outside) (t : Template) (v : Py Values) (labels : Dict String) (update : Step) :
    Py RootObjectHelper := do
  let h ← fillTemplate o t v
  let h ← labels.entries.foldlM (fun h kv => addLabel kv.1 (.str kv.2) h) h
  let b ← update { root := h }
  return b.root

def DistributedStrategy.template : DistributedStrategy → Template
  | single_node | inference => .job_single_node
  | horovod => .mpi_job_horovod

def benchmarkUpdate (o : Outside) (r : Request) (scripts : List (String × String)) : Step :=
  match r.descriptor.hardware.strategy with
  | .single_node | .inference => singleRunUpdate o r scripts
  | .horovod => horovodUpdate o r scripts

/-- `create_single_run_benchmark_bai_k8s_builder`. -/
def buildBenchmark (o : Outside) (r : Request) : Py RootObjectHelper := do
  let scripts ← r.scripts.mapM fun dst => s3Object o "script" (some dst)
  build o r.descriptor.hardware.strategy.template (benchmarkValues o r) r.descriptor.info.labels
    (benchmarkUpdate o r scripts)

/-- `create_inference_server_bai_k8s_builder`. -/
def buildInferenceServer (o : Outside) (r : Request) (server : ServerDescriptor) : Py RootObjectHelper :=
  build o .inference_server_job (serverValues o r server) r.descriptor.info.labels (inferenceServerUpdate o r server)

def createJobSpec (o : Outside) (r : Request) : Py (List Tree) := do
  let d ← r.descriptor.fromDict o.cronValid r.config.descriptor_config
  let job ← buildBenchmark o r
  if d.hardware.strategy ≠ .inference then return job.objects
  else
    match d.server with
    | none => throw .builtin
    | some server => return job.objects ++ (← buildInferenceServer o r server).objects

def createScheduledJobSpec (o : Outside) (r : Request) : Py (List Tree) := do
  let _ ← r.descriptor.fromDict o.cronValid r.config.descriptor_config
  let job ← build o .cron_job (scheduledValues o r) r.descriptor.info.labels pure
  return job.objects

end BenchmarkAi.Transpiler
