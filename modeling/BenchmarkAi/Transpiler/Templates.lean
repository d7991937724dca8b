import BenchmarkAi.Lib.Scalar
import BenchmarkAi.Transpiler.Spec
/-!
# The job templates

The files under `transpiler/templates`. A template is a YAML text with fields that
`str.format` replaces; `Doc` is the structure of such a text with the values put
in. A scalar that holds a value is a text, plain or in quotes, that the YAML loader
still has to read: a number or a truth value among the texts is not read as a string.
-/

open Lib

namespace BenchmarkAi.Transpiler

inductive Doc
  | lit (t : Tree)
  | plain (text : String)
  | single (text : String)
  | double (text : String)
  | arr (items : List Doc)
  | obj (fields : List (String × Doc))

mutual
/-- How the loader reads a document. `scalar` is what it reads a plain text as, if the text is one
node in its place; a text between single quotes is read by their rule, and one between double
quotes is itself if it has no quotes, escapes and line breaks. -/
def Doc.read (scalar : String → Option Tree) : Doc → Option Tree
  | .lit t => some t
  | .plain s => scalar s
  | .single s => (Scalar.single s).map .str
  | .double s => if s.toList.any (['"', '\\', '\n'].contains ·) then none else some (.str s)
  | .arr ds => (readItems scalar ds).map .arr
  | .obj fs => (readFields scalar fs).map .obj

def Doc.readItems (scalar : String → Option Tree) : List Doc → Option (List Tree)
  | [] => some []
  | d :: ds => do return (← d.read scalar) :: (← readItems scalar ds)

def Doc.readFields (scalar : String → Option Tree) : List (String × Doc) → Option (List (String × Tree))
  | [] => some []
  | (k, d) :: fs => do return (k, ← d.read scalar) :: (← readFields scalar fs)
end

structure Values where
  job_id : String
  inference_server_job_id : String
  service_name : String
  action_id : String
  client_id : String
  scheduling : String
  event_json_str : String := ""
  cron_job_docker_image : String
  puller_docker_image : String
  metrics_pusher_docker_image : String
  metrics_extractor_docker_image : String
  job_status_trigger_docker_image : String
  docker_image : String
  privileged : String
  gpus_per_instance : String
  instance_type : String
  num_instances : String
  server_docker_image : String := ""
  server_privileged : String := ""
  server_gpus_per_instance : String := ""
  server_instance_type : String := ""
  availability_zone : String := ""
  metrics : String := ""
  server_metrics : String := ""

inductive Template
  | cron_job | job_single_node | mpi_job_horovod | inference_server_job
deriving DecidableEq, Repr

namespace Template

/-! ## What the templates share -/

def text (s : String) : Doc := .lit (.str s)

def idLabels (v : Values) : List (String × Doc) :=
  [("action-id", .plain v.action_id), ("client-id", .plain v.client_id), ("created-by", .plain v.service_name)]

def appLabels (v : Values) : List (String × Doc) := ("app", text "benchmark-ai") :: idLabels v

def envValue (name : String) (value : Doc) : Doc := .obj [("name", text name), ("value", value)]

def envField (name path : String) : Doc :=
  .obj [("name", text name), ("valueFrom", .obj [("fieldRef", .obj [("fieldPath", text path)])])]

def envConfig (name : String) (config key : Doc) : Doc :=
  .obj [("name", text name), ("valueFrom", .obj [("configMapKeyRef", .obj [("name", config), ("key", key)])])]

def envOptional (name config key : String) : Doc :=
  .obj [("name", text name), ("valueFrom", .obj [("configMapKeyRef", .obj [("name", text config), ("key", text key),
    ("optional", .lit (.bool true))])])]

def mount (name path : String) : Doc := .obj [("name", text name), ("mountPath", text path)]

def mountFile (name path file : String) : Doc :=
  .obj [("name", text name), ("mountPath", text path), ("readOnly", .lit (.bool true)), ("subPath", text file)]

def emptyDir (name : String) : Doc := .obj [("name", text name), ("emptyDir", .obj [])]

def affinity : Doc :=
  .obj [("podAntiAffinity", .obj [("requiredDuringSchedulingIgnoredDuringExecution", .arr [.obj [
    ("labelSelector", .obj [("matchExpressions", .arr [.obj [("key", text "app"), ("operator", text "In"),
      ("values", .arr [text "benchmark-ai"])]])]),
    ("topologyKey", text "kubernetes.io/hostname")]])])]

def annotations : Doc := .obj [("iam.amazonaws.com/role", text "benchmark-host")]

def pullerEnv : List Doc :=
  [envConfig "S3_ENDPOINT" (text "outputs-infrastructure") (text "s3_endpoint"),
   envOptional "AWS_ACCESS_KEY_ID" "s3" "access-key-id",
   envOptional "AWS_SECRET_ACCESS_KEY" "s3" "secret-access-key"]

def benchmarkEnv : Doc :=
  .arr [envValue "BENCHMARK_AI" (text "fifo"), envValue "BENCHMARK_AI_FIFO_FILEPATH" (text "/tmp/benchmark-ai/fifo"),
    envValue "BENCHMARK_AI_FIFO_MAX_WAIT_TIME" (text "60")]

def metricsPusher (v : Values) : Doc :=
  .obj [("name", text "metrics-pusher"), ("image", .plain v.metrics_pusher_docker_image),
    ("env", .arr [
      envValue "BENCHMARK_AI_FIFO_FILEPATH" (text "/tmp/benchmark-ai/fifo"),
      envValue "BACKEND" (text "kafka"),
      envValue "BACKEND_ARG_ACTION_ID" (.plain v.action_id),
      envValue "BACKEND_ARG_CLIENT_ID" (.plain v.client_id),
      envConfig "BACKEND_ARG_BOOTSTRAP_SERVERS" (text "outputs-infrastructure") (text "msk_bootstrap_brokers"),
      envValue "BACKEND_ARG_KEY" (.plain v.client_id),
      envValue "BACKEND_ARG_TOPIC" (text "BAI_METRICS"),
      envField "POD_NAME" "metadata.name",
      envField "POD_NAMESPACE" "metadata.namespace"]),
    ("volumeMounts", .arr [mount "benchmark-ai" "/tmp/benchmark-ai"])]

/-- `container` is what the inference server's extractor is told besides. -/
def metricsExtractor (v : Values) (container : List Doc) (metrics : String) : Doc :=
  .obj [("name", text "metrics-extractor"), ("image", .plain v.metrics_extractor_docker_image),
    ("env", .arr ([envField "ANUBIS_POD_NAME" "metadata.name", envField "ANUBIS_POD_NAMESPACE" "metadata.namespace"] ++
      container ++
      [envValue "ANUBIS_METRICS" (.single metrics), envValue "BENCHMARK_AI" (text "fifo"),
       envValue "BENCHMARK_AI_FIFO_FILEPATH" (text "/tmp/benchmark-ai/fifo")])),
    ("volumeMounts", .arr [mount "benchmark-ai" "/tmp/benchmark-ai"])]

def nodeSelector (instance_type : String) (v : Values) : Doc :=
  .obj [("beta.kubernetes.io/instance-type", .plain instance_type), ("node.type", text "bai-worker"),
    ("failure-domain.beta.kubernetes.io/zone", .plain v.availability_zone)]

/-! ## The four files -/

def cronJob (v : Values) : List Doc :=
  [.obj [("apiVersion", text "batch/v1beta1"), ("kind", text "CronJob"),
    ("metadata", .obj [("name", .plain v.job_id), ("labels", .obj (appLabels v))]),
    ("spec", .obj [("schedule", .double v.scheduling),
      ("jobTemplate", .obj [("spec", .obj [("template", .obj [
        ("metadata", .obj [("labels", .obj (appLabels v))]),
        ("spec", .obj [("serviceAccountName", text "scheduled-benchmark"),
          ("containers", .arr [.obj [("name", text "benchmark-starter"), ("image", .plain v.cron_job_docker_image),
            ("env", .arr [
              envConfig "KAFKA_BOOTSTRAP_SERVERS" (text "outputs-infrastructure") (text "msk_bootstrap_brokers"),
              envConfig "PRODUCER_TOPIC" (.plain v.service_name) (text "consumer_topic"),
              envConfig "STATUS_TOPIC" (.plain v.service_name) (text "status_topic"),
              envValue "BENCHMARK_EVENT" (.plain v.event_json_str)])]]),
          ("nodeSelector", .obj [("node.type", text "bai-services-cheap")]),
          ("restartPolicy", text "Never")])])])])])]]

def puller (name volume path : String) (v : Values) : Doc :=
  .obj [("name", text name), ("image", .plain v.puller_docker_image), ("env", .arr pullerEnv),
    ("volumeMounts", .arr [mount volume path])]

def statusTrigger (name job statuses : String) (command : Doc) (v : Values) : Doc :=
  .obj [("name", text name), ("image", .plain v.job_status_trigger_docker_image),
    ("env", .arr [envField "JOB_NAMESPACE" "metadata.namespace", envValue "JOB_NAME" (.plain job),
      envValue "TRIGGER_STATUSES" (text statuses), envValue "COMMAND" command,
      envValue "JOB_NOT_FOUND_GRACE_PERIOD_SECONDS" (text "30")])]

def jobSingleNode (v : Values) : List Doc :=
  [.obj [("apiVersion", text "batch/v1"), ("kind", text "Job"),
    ("metadata", .obj [("name", .plain v.job_id), ("labels", .obj (appLabels v))]),
    ("spec", .obj [
      ("template", .obj [
        ("metadata", .obj [("labels", .obj (appLabels v)), ("annotations", annotations)]),
        ("spec", .obj [("serviceAccountName", text "TBD"), ("affinity", affinity),
          ("initContainers", .arr [puller "data-puller" "datasets-volume" "/data" v,
            puller "script-puller" "scripts-volume" "/bai/scripts" v,
            statusTrigger "inference-server-lock" v.inference_server_job_id "[RUNNING_AT_MAIN_CONTAINERS]"
              (text "exit 0") v]),
          ("containers", .arr [
            .obj [("name", text "benchmark"), ("image", .plain v.docker_image),
              ("resources", .obj [("limits", .obj [("nvidia.com/gpu", .plain v.gpus_per_instance)])]),
              ("command", .arr []), ("args", .arr []),
              ("securityContext", .obj [("privileged", .plain v.privileged)]),
              ("env", benchmarkEnv),
              ("volumeMounts", .arr [mount "benchmark-ai" "/tmp/benchmark-ai", mount "scripts-volume" "/bai/scripts"])],
            metricsPusher v, metricsExtractor v [] v.metrics]),
          ("nodeSelector", nodeSelector v.instance_type v),
          ("restartPolicy", text "OnFailure"),
          ("volumes", .arr [emptyDir "benchmark-ai", emptyDir "datasets-volume", emptyDir "scripts-volume"])])]),
      ("backoffLimit", .lit (.num 4))])]]

def inferenceServerJob (v : Values) : List Doc :=
  let labels := appLabels v ++ [("inference-server-name", .plain v.inference_server_job_id)]
  [.obj [("apiVersion", text "v1"), ("kind", text "Service"),
    ("metadata", .obj [("name", .plain v.inference_server_job_id), ("labels", .obj (idLabels v))]),
    ("spec", .obj [("selector", .obj [("inference-server-name", .plain v.inference_server_job_id)]),
      ("ports", .arr [])])],
   .obj [("apiVersion", text "batch/v1"), ("kind", text "Job"),
    ("metadata", .obj [("name", .plain v.inference_server_job_id), ("labels", .obj labels)]),
    ("spec", .obj [
      ("template", .obj [
        ("metadata", .obj [("labels", .obj labels), ("annotations", annotations)]),
        ("spec", .obj [("serviceAccountName", text "metrics-pusher"), ("affinity", affinity),
          ("initContainers", .arr [puller "data-puller" "datasets-volume" "/data" v]),
          ("containers", .arr [
            .obj [("name", text "inference-server"), ("image", .plain v.server_docker_image),
              ("resources", .obj [("limits", .obj [("nvidia.com/gpu", .plain v.server_gpus_per_instance)])]),
              ("command", .arr []), ("args", .arr []),
              ("securityContext", .obj [("privileged", .plain v.server_privileged)])],
            statusTrigger "client-lock" v.job_id "[SUCCEEDED, FAILED, JOB_NOT_FOUND]"
              (.single ("/opt/env/bin/kubectl delete job,service " ++ v.inference_server_job_id)) v,
            metricsPusher v,
            metricsExtractor v [envValue "ANUBIS_POD_CONTAINER" (text "inference-server")] v.server_metrics]),
          ("nodeSelector", nodeSelector v.server_instance_type v),
          ("restartPolicy", text "OnFailure"),
          ("volumes", .arr [emptyDir "benchmark-ai", emptyDir "datasets-volume"])])]),
      ("backoffLimit", .lit (.num 4))])]]

def mpiPuller (name volume path : String) (v : Values) : Doc :=
  .obj [("name", text name), ("image", .plain v.puller_docker_image),
    ("command", .arr [text "/bin/puller_entrypoint.sh"]),
    ("volumeMounts", .arr [mountFile "entrypoints-volume" "/bin/puller_entrypoint.sh" "puller_entrypoint.sh",
      mount volume path]),
    ("env", .arr (envField "ROLE" "metadata.labels['mpi_role_type']" :: pullerEnv))]

/-- The benchmark container of an MPI job; `extra` is where launcher and worker differ.
The scripts are mounted at `/bai/scipts`. -/
def mpiBenchmark (extra : String × Doc) (v : Values) : Doc :=
  .obj [("image", .plain v.docker_image), ("name", text "benchmark"), extra,
    ("volumeMounts", .arr [mountFile "entrypoints-volume" "/bin/entrypoint.sh" "entrypoint.sh",
      mount "benchmark-ai" "/tmp/benchmark-ai", mount "scripts-volume" "/bai/scipts"]),
    ("env", benchmarkEnv)]

def mpiReplica (replicas : Doc) (initContainers : List Doc) (extra : String × Doc) (volumes : List Doc) (v : Values) :
    Doc :=
  .obj [("replicas", replicas),
    ("template", .obj [
      ("metadata", .obj [("annotations", annotations), ("labels", .obj (appLabels v))]),
      ("spec", .obj [("serviceAccountName", text "benchmark"), ("affinity", affinity),
        ("initContainers", .arr initContainers),
        ("containers", .arr [mpiBenchmark extra v, metricsPusher v, metricsExtractor v [] v.metrics]),
        ("volumes", .arr (.obj [("name", text "entrypoints-volume"),
            ("configMap", .obj [("defaultMode", .lit (.num 700)), ("name", .plain ("entrypoint-" ++ v.job_id))])] ::
          emptyDir "benchmark-ai" :: emptyDir "scripts-volume" :: volumes)),
        ("nodeSelector", nodeSelector v.instance_type v)])])]

def mpiJobHorovod (v : Values) : List Doc :=
  [.obj [("apiVersion", text "v1"), ("kind", text "ConfigMap"),
    ("metadata", .obj [("name", .plain ("entrypoint-" ++ v.job_id)), ("namespace", text "default"),
      ("labels", .obj (("benchmark", .plain v.job_id) :: idLabels v))]),
    ("data", .obj [("entrypoint.sh", text "echo \"Entrypoint\""),
      ("puller_entrypoint.sh", text "#!/bin/bash\n/opt/puller/download-s3-files \"$@\"")])],
   .obj [("kind", text "RoleBinding"), ("apiVersion", text "rbac.authorization.k8s.io/v1"),
    ("metadata", .obj [("name", .plain ("metrics-pusher-" ++ v.job_id)), ("namespace", text "default"),
      ("labels", .obj (("benchmark", .plain v.job_id) :: idLabels v))]),
    ("subjects", .arr [.obj [("kind", text "ServiceAccount"), ("name", .plain (v.job_id ++ "-launcher")),
      ("namespace", text "default")]]),
    ("roleRef", .obj [("kind", text "Role"), ("name", text "pod-status"), ("apiGroup", text "")])],
   .obj [("apiVersion", text "kubeflow.org/v1alpha2"), ("kind", text "MPIJob"),
    ("metadata", .obj [("name", .plain v.job_id), ("labels", .obj (appLabels v))]),
    ("spec", .obj [("cleanPodPolicy", text "Running"), ("slotsPerWorker", .plain v.gpus_per_instance),
      ("mpiReplicaSpecs", .obj [
        ("Launcher", mpiReplica (.lit (.num 1)) [mpiPuller "script-puller" "scripts-volume" "/bai/scripts" v]
          ("command", .arr [text "/bin/entrypoint.sh"]) [] v),
        ("Worker", mpiReplica (.plain v.num_instances)
          [mpiPuller "data-puller" "datasets-volume" "/data" v,
           mpiPuller "script-puller" "scripts-volume" "/bai/scripts" v]
          ("resources", .obj [("limits", .obj [("nvidia.com/gpu", .plain v.gpus_per_instance)])])
          [emptyDir "datasets-volume"] v)])])]]

def docs : Template → Values → List Doc
  | cron_job => cronJob
  | job_single_node => jobSingleNode
  | mpi_job_horovod => mpiJobHorovod
  | inference_server_job => inferenceServerJob

end Template

/-- The YAML loader. `load` formats a template and reads the text; where each value
is one scalar in its place it reads the template's documents with these scalars. Of
other values nothing is assumed. -/
structure Yaml where
  scalar : String → Option Tree
  load : Template → Values → Py (List Tree)
  load_scalars : ∀ t v docs, Doc.readItems scalar (t.docs v) = some docs → load t v = .ok docs

end BenchmarkAi.Transpiler
