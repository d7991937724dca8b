import BenchmarkAi.CronJob.Events
import BenchmarkAi.Kafka.Service
import BenchmarkAi.Transpiler.Scheduled
/-!
# The runs of a scheduled benchmark

The executor makes a scheduled benchmark a cron job whose container gets the event as JSON. Each
run of the container, `anubis_cron_job/__main__.py`, reads the event and sends it again for a
single run. On the way the text is quoted twice, read as YAML, and its references are replaced
when the container is started.
-/

open Lib Lib.Dacite BenchmarkAi.Kafka

namespace BenchmarkAi.CronJob

open Transpiler

/-! ## A run -/

inductive Failure
  | usage
  | notRead (e : Error TypeError)
  | typeError
  | runtimeError (msg : String)

structure AnubisCronJobConfig where
  kafka_bootstrap_servers : List String
  producer_topic : String
  status_topic : String
  benchmark_event : Data

def argument (env : Dict String) (env_var : String) : Except Failure String :=
  match env.get? env_var with
  | some value => return value
  | none => throw .usage

def getConfig (env : Dict String) : Except Failure AnubisCronJobConfig := do
  let kafka_bootstrap_servers ← argument env "KAFKA_BOOTSTRAP_SERVERS"
  let producer_topic ← argument env "PRODUCER_TOPIC"
  let status_topic ← argument env "STATUS_TOPIC"
  let benchmark_event ← argument env "BENCHMARK_EVENT"
  match Data.loads benchmark_event with
  | some benchmark_event =>
    return ⟨kafka_bootstrap_servers.splitOn ",", producer_topic, status_topic, benchmark_event⟩
  | none => throw .usage

/-- Python's truth value. A number with a fraction is zero if its digits are. -/
def truthyData : Data → Bool
  | .null => false
  | .bool b => b
  | .int n => n ≠ 0
  | .float s => (s.toList.takeWhile (· ≠ 'e')).any ("123456789NI".toList.contains ·)
  | .str s => s ≠ ""
  | .arr ds => !ds.isEmpty
  | .obj fs => !fs.isEmpty

def infoMissing : String := "Event does not contain valid benchmark descriptor: 'info' section is missing."

def FetcherPayload.singleRun (p : FetcherPayload) (info : Fields) : FetcherPayload :=
  { p with toml := { p.toml with
    contents := assign "info" (.obj (assign "scheduling" (.str singleRunScheduling) info)) p.toml.contents } }

/-- `create_benchmark_event`. A section that is no dict has no items to set. -/
def createBenchmarkEvent (scheduled : FetcherBenchmarkEvent) (action_id : Uuid) : Except Failure FetcherBenchmarkEvent :=
  match scheduled.payload.toml.contents.lookup "info" with
  | none => throw (.runtimeError infoMissing)
  | some info =>
    if truthyData info then
      match info with
      | .obj info =>
        return { scheduled with
          action_id := action_id.text
          parent_action_id := some scheduled.action_id
          payload := scheduled.payload.singleRun info }
      | _ => throw .typeError
    else throw (.runtimeError infoMissing)

def serviceName : String := "anubis-cron-job"
def serviceVersion : String := "1.0"

/-- What a run takes from outside: the new ids, the name of its pod and the clock. -/
structure Run where
  action_id : Uuid
  message_id : Uuid
  pod_name : String
  clock : Nat → Int

def submit (config : AnubisCronJobConfig) (run : Run) : Except Failure FetcherBenchmarkEvent := do
  let scheduled ← (fromDict config.benchmark_event).mapError .notRead
  let event ← createBenchmarkEvent scheduled run.action_id
  let emitter : EventEmitter := ⟨serviceName, serviceVersion, run.pod_name⟩
  return emitter.sendEvent event config.producer_topic run.message_id run.clock

def main (env : Dict String) (run : Run) : Except Failure FetcherBenchmarkEvent := do
  submit (← getConfig env) run

/-! ## From the executor to a run -/

structure ScheduledEvent where
  event : FetcherBenchmarkEvent
  proper : (Data.obj event.payload.toml.contents).proper = true
  info : Fields
  has_info : event.payload.toml.contents.lookup "info" = some (.obj info)

namespace ScheduledEvent

def jsonStr (e : ScheduledEvent) : String := (Data.str (toJson e.event)).dumps

/-- The event again, for a single run of a new action. What `send_event` stamps is left open. -/
structure Respawned (e : ScheduledEvent) (action_id : Uuid) (sent : FetcherBenchmarkEvent) : Prop where
  action_id : sent.action_id = action_id.text
  parent_action_id : sent.parent_action_id = some e.event.action_id
  client_id : sent.client_id = e.event.client_id
  client_version : sent.client_version = e.event.client_version
  client_username : sent.client_username = e.event.client_username
  authenticated : sent.authenticated = e.event.authenticated
  visited : ∃ entry, sent.visited = e.event.visited ++ [entry]
  payload : sent.payload = e.event.payload.singleRun e.info

/-- An event that a run sends again as `e`: the same but for what is set anew, with items in its
`info` section. -/
structure Kept (e : ScheduledEvent) (scheduled : FetcherBenchmarkEvent) : Prop where
  action_id : scheduled.action_id = e.event.action_id
  client_id : scheduled.client_id = e.event.client_id
  client_version : scheduled.client_version = e.event.client_version
  client_username : scheduled.client_username = e.event.client_username
  authenticated : scheduled.authenticated = e.event.authenticated
  visited : scheduled.visited = e.event.visited
  payload : ∃ info, info ≠ [] ∧ scheduled.payload.toml.contents.lookup "info" = some (.obj info) ∧
    scheduled.payload.singleRun info = e.event.payload.singleRun e.info

/-- A JSON text of such an event. -/
def Restored (e : ScheduledEvent) (text : String) : Prop :=
  ∃ d scheduled, Data.loads text = some d ∧ fromDict d = .ok scheduled ∧ e.Kept scheduled

/-- The container of the cron job sends the event again. -/
def RoundTrip (e : ScheduledEvent) (objs : List Tree) (refs : Tree → String) (base : Dict String) (run : Run) : Prop :=
  ∃ c sent, objs.head?.bind starter = some c ∧ main (containerEnviron refs base c) run = .ok sent ∧
    e.Respawned run.action_id sent

end ScheduledEvent

section Environment
variable {e : ScheduledEvent}

theorem printable_toJson (e : ScheduledEvent) : ∀ c ∈ (toJson e.event).toList, Data.Printable c := by
  rw [toJson, Data.dumps, String.toList_ofList]
  exact Data.printable_dump _ (proper_eventFields e.proper)

/-- A string in JSON is a scalar in double quotes, if its characters are printable. -/
def ReadsJson (y : Yaml) : Prop :=
  ∀ s : String, (∀ c ∈ s.toList, Data.Printable c) → y.scalar (Data.str s).dumps = some (.str s)

theorem readsJson_plainYaml : ReadsJson plainYaml := by
  intro s h
  have hd : (Data.str s).dumps = String.ofList (Json.quote s) := by rw [Data.dumps, Data.dump]
  have hr : plainYaml.scalar = Scalar.read := by rfl
  rw [hd, hr, Data.read_quote h]

theorem read_jsonStr (e : ScheduledEvent) : Scalar.read e.jsonStr = some (.str (toJson e.event)) :=
  Data.read_quote (printable_toJson e)

/-- The text of the event with its references replaced by the variables in front of it: the values that
three trees refer to. -/
def eventText (refs : Tree → String) (base : Dict String) (config : Tree × Tree × Tree) (e : ScheduledEvent) : String :=
  expand (environ base (starterVars (refs config.1) (refs config.2.1) (refs config.2.2))).get? (toJson e.event)

structure Told (env : Dict String) (text : String) : Prop where
  brokers : ∃ brokers, env.get? "KAFKA_BOOTSTRAP_SERVERS" = some brokers
  producer : ∃ producer, env.get? "PRODUCER_TOPIC" = some producer
  status : ∃ status, env.get? "STATUS_TOPIC" = some status
  event : env.get? "BENCHMARK_EVENT" = some text

theorem told_starter {o : Outside} (hjson : ReadsJson o.yaml) {r : Request} (hs : Scalars o .cron_job (scheduledValues o r))
    (hr : r.event_json_str = e.jsonStr) {objs : List Tree} (hok : createScheduledJobSpec o r = .ok objs)
    (refs : Tree → String) (base : Dict String) :
    ∃ c config, objs.head?.bind starter = some c ∧ Told (containerEnviron refs base c) (eventText refs base config e) := by
  obtain ⟨root, value, rfl, hv, hst⟩ := starts_createScheduledJobSpec hs hok
  rw [hr, ScheduledEvent.jsonStr, hjson _ (printable_toJson e)] at hv
  cases hv
  obtain ⟨c, brokers, producer, status, hc, hva⟩ := hst.containerVars
  refine ⟨c, (brokers, producer, status), hc, ?_⟩
  rw [containerEnviron, hva refs]
  -- the event comes last, behind the three topics
  refine ⟨⟨refs brokers, ?_⟩, ⟨refs producer, ?_⟩, ⟨refs status, ?_⟩, Dict.get?_set_self _ _ _⟩
  · exact (Dict.get?_set_ne _ (by simp) _).trans
      ((Dict.get?_set_ne _ (by simp) _).trans ((Dict.get?_set_ne _ (by simp) _).trans (Dict.get?_set_self _ _ _)))
  · exact (Dict.get?_set_ne _ (by simp) _).trans ((Dict.get?_set_ne _ (by simp) _).trans (Dict.get?_set_self _ _ _))
  · exact (Dict.get?_set_ne _ (by simp) _).trans (Dict.get?_set_self _ _ _)

end Environment

/-! ## Sending the event again -/

theorem Told.getConfig {env text} (h : Told env text) : CronJob.getConfig env = match Data.loads text with
    | some d => .ok ⟨((env.get? "KAFKA_BOOTSTRAP_SERVERS").getD "").splitOn ",", (env.get? "PRODUCER_TOPIC").getD "",
        (env.get? "STATUS_TOPIC").getD "", d⟩
    | none => .error .usage := by
  obtain ⟨⟨brokers, hb⟩, ⟨producer, hp⟩, ⟨status, hs⟩, he⟩ := h
  unfold CronJob.getConfig argument
  rw [hb, hp, hs, he]
  rfl

theorem createBenchmarkEvent_ok {scheduled action_id event} : createBenchmarkEvent scheduled action_id = .ok event ↔
    ∃ info, info ≠ [] ∧ scheduled.payload.toml.contents.lookup "info" = some (.obj info) ∧
      event = { scheduled with
        action_id := action_id.text
        parent_action_id := some scheduled.action_id
        payload := scheduled.payload.singleRun info } := by
  unfold createBenchmarkEvent
  cases scheduled.payload.toml.contents.lookup "info" with
  | none =>
    refine ⟨fun h => ?_, fun ⟨_, _, h, _⟩ => ?_⟩
    · cases h
    · cases h
  | some info =>
    dsimp only
    constructor
    · intro h
      split at h
      · rename_i ht
        cases info with
        | obj info => exact ⟨info, fun hn => by simp [truthyData, hn] at ht, rfl, (Except.ok.inj h).symm⟩
        | _ => cases h
      · cases h
    · rintro ⟨info', hne, hi, rfl⟩
      cases hi
      rw [if_pos (by simpa [truthyData] using hne)]
      rfl

/-- A run that is told a text sends an event again exactly if the text can be read as that event, but for
what is set anew. -/
theorem Told.sends_iff {env text} (h : Told env text) (e : ScheduledEvent) (run : Run) :
    (∃ sent, main env run = .ok sent ∧ e.Respawned run.action_id sent) ↔ e.Restored text := by
  rw [main, h.getConfig]
  cases hl : Data.loads text with
  | none =>
    refine ⟨fun ⟨_, hm, _⟩ => ?_, fun ⟨_, _, hl', _⟩ => ?_⟩
    · cases hm
    · cases hl.symm.trans hl'
  | some d =>
    constructor
    · rintro ⟨sent, hm, hre⟩
      obtain ⟨_, hco, hm⟩ := bind_ok.1 hm
      cases hco
      obtain ⟨scheduled, hs, hm⟩ := bind_ok.1 hm
      obtain ⟨event, hc, hm⟩ := bind_ok.1 hm
      obtain ⟨info, hne, hi, rfl⟩ := createBenchmarkEvent_ok.1 hc
      cases hm
      obtain ⟨entry, hv⟩ := hre.visited
      refine ⟨d, scheduled, hl, mapError_ok.1 hs, Option.some.inj hre.parent_action_id, hre.client_id, hre.client_version,
        hre.client_username, hre.authenticated, (List.append_inj' hv rfl).1, info, hne, hi, hre.payload⟩
    · rintro ⟨d', scheduled, hl', hs, hk⟩
      obtain rfl := Option.some.inj (hl.symm.trans hl')
      obtain ⟨info, hne, hi, hp⟩ := hk.payload
      refine ⟨_, bind_ok.2 ⟨_, rfl, bind_ok.2 ⟨scheduled, mapError_ok.2 hs,
        bind_ok.2 ⟨_, createBenchmarkEvent_ok.2 ⟨info, hne, hi, rfl⟩, rfl⟩⟩⟩, ?_⟩
      exact ⟨rfl, congrArg some hk.action_id, hk.client_id, hk.client_version, hk.client_username, hk.authenticated,
        ⟨_, by rw [← hk.visited]; rfl⟩, hp⟩

/-- The text of the event itself is read as the event exactly if none of its contents has been fetched. -/
theorem restored_toJson (e : ScheduledEvent) : e.Restored (toJson e.event) ↔ Unfetched e.event.payload ∧ e.info ≠ [] := by
  have hl : Data.loads (toJson e.event) = some (.obj (eventFields e.event)) := Data.loads_dumps (proper_eventFields e.proper)
  constructor
  · rintro ⟨d, scheduled, hl', hs, hk⟩
    obtain rfl := Option.some.inj (hl.symm.trans hl')
    obtain ⟨hu, rfl⟩ := fromDict_eventFields_iff.1 hs
    obtain ⟨info, hne, hi, -⟩ := hk.payload
    obtain rfl := Data.obj.inj (Option.some.inj (e.has_info.symm.trans hi))
    exact ⟨hu, hne⟩
  · rintro ⟨hu, hi⟩
    exact ⟨_, e.event, hl, fromDict_eventFields_iff.2 ⟨hu, rfl⟩, rfl, rfl, rfl, rfl, rfl, rfl, e.info, hi, e.has_info, rfl⟩

section RoundTrip
variable {o : Outside} (hjson : ReadsJson o.yaml) {r : Request} (hs : Scalars o .cron_job (scheduledValues o r))
  {e : ScheduledEvent} (hr : r.event_json_str = e.jsonStr) {objs : List Tree} (hok : createScheduledJobSpec o r = .ok objs)
  (refs : Tree → String) (base : Dict String) (run : Run)
include hjson hs hr hok

/-- The event comes back from the container as it was, but for what a single run changes, exactly if
its text can be read as the event when its references have been replaced. Where that changes nothing
in the text, it can exactly if none of the contents has been fetched and the `info` section has an
item. -/
theorem round_trip_iff : ∃ config, (e.RoundTrip objs refs base run ↔ e.Restored (eventText refs base config e)) ∧
    (eventText refs base config e = toJson e.event →
      (e.RoundTrip objs refs base run ↔ Unfetched e.event.payload ∧ e.info ≠ [])) := by
  obtain ⟨c, config, hc, ht⟩ := told_starter hjson hs hr hok refs base
  have hiff : e.RoundTrip objs refs base run ↔ e.Restored (eventText refs base config e) := by
    refine Iff.trans ?_ (ht.sends_iff e run)
    constructor
    · rintro ⟨c', sent, hc', hs⟩
      obtain rfl := Option.some.inj (hc.symm.trans hc')
      exact ⟨sent, hs⟩
    · rintro ⟨sent, hs⟩
      exact ⟨c, sent, hc, hs⟩
  refine ⟨config, hiff, fun heq => hiff.trans ?_⟩
  rw [heq]
  exact restored_toJson e

end RoundTrip

def minutely (benchmark_code : String) (datasets : List DownloadableContent) : ScheduledEvent where
  event := {
    action_id := "action-1", message_id := "m1", client_id := "client-1", client_version := "0.1.0", client_username := "bob"
    authenticated := false, tstamp := 1565094802391, visited := [⟨"bai-bff", 1565094802391, "0.2.0", some "bai-bff-1"⟩]
    type := "BAI_APP_FETCHER"
    payload := {
      toml := {
        contents := [
          ("info", .obj [("description", .str "hello world"), ("scheduling", .str "*/1 * * * *")]),
          ("ml", .obj [("benchmark_code", .str benchmark_code)])]
        doc := "", sha1 := "6e38ce3d" }
      datasets } }
  proper := rfl
  info := [("description", .str "hello world"), ("scheduling", .str "*/1 * * * *")]
  has_info := rfl

def exampleRun : Run where
  action_id := ⟨"728ff542-b332-4520-bb2e-51d5e32cfc0a", rfl⟩
  message_id := ⟨"5b137a70-cbf1-4d52-9c5c-e208e4f3cbb1", rfl⟩
  pod_name := "benchmark-starter-1"
  clock := fun _ => 1565094862000

def scheduledOutside : Outside := { plainOutside with cronValid := fun _ => true }

def scheduledRequest (e : ScheduledEvent) : Request :=
  { exampleRequest .empty with
    descriptor := { (exampleRequest .empty).descriptor with info := { scheduling := "*/1 * * * *", labels := .empty } }
    event := { e.event with payload := () }
    event_json_str := e.jsonStr }

theorem event_json_str_scheduledRequest (e : ScheduledEvent) : (scheduledRequest e).event_json_str = e.jsonStr := rfl

theorem createScheduledJobSpec_minutely (benchmark_code : String) (datasets : List DownloadableContent) :
    ∃ objs, createScheduledJobSpec scheduledOutside (scheduledRequest (minutely benchmark_code datasets)) = .ok objs := by
  have hde : ((scheduledRequest (minutely "" [])).descriptor.fromDict scheduledOutside.cronValid
      (scheduledRequest (minutely "" [])).config.descriptor_config).toOption.any (fun _ => true) = true := by decide +kernel
  obtain ⟨d, hd, -⟩ := exists_ok_of_any hde
  have hva : ∃ v, scheduledValues scheduledOutside (scheduledRequest (minutely benchmark_code datasets)) = .ok v ∧
      v.job_id = "job-1" ∧ v.action_id = "action-1" ∧ v.client_id = "client-1" ∧ v.service_name = "executor" ∧
      v.cron_job_docker_image = "helper-image" ∧ v.scheduling = "*/1 * * * *" ∧
      v.event_json_str = (minutely benchmark_code datasets).jsonStr := ⟨_, rfl, rfl, rfl, rfl, rfl, rfl, rfl, rfl⟩
  obtain ⟨v, hv, hjob, ha, hc, hse, hi, hsc, he⟩ := hva
  have hp {s t : String} (hs : s = t) (h : Scalar.PlainText t) : Scalar.read s = some (.str t) := by
    rw [hs]
    exact Scalar.read_eq_str_iff.2 h
  obtain ⟨docs, h, hre, hdo⟩ := exists_ofDocs_cronJob (hp hjob (by decide +kernel)) (hp ha (by decide +kernel))
    (hp hc (by decide +kernel)) (hp hse (by decide +kernel)) (hp hi (by decide +kernel))
    (he ▸ read_jsonStr _) (hsc ▸ by decide)
  have hl : plainYaml.load .cron_job v = .ok docs := plainYaml.load_scalars .cron_job v docs hre
  have hb : build scheduledOutside .cron_job (scheduledValues scheduledOutside
      (scheduledRequest (minutely benchmark_code datasets))) .empty pure = .ok h :=
    bind_ok.2 ⟨h, bind_ok.2 ⟨v, hv, bind_ok.2 ⟨docs, hl, hdo⟩⟩, rfl⟩
  exact ⟨h.objects, bind_ok.2 ⟨d, hd, bind_ok.2 ⟨h, hb, rfl⟩⟩⟩

theorem readsJson_scheduledOutside : ReadsJson scheduledOutside.yaml := readsJson_plainYaml

theorem scalars_minutely {e objs} (hok : createScheduledJobSpec scheduledOutside (scheduledRequest e) = .ok objs) :
    Scalars scheduledOutside .cron_job (scheduledValues scheduledOutside (scheduledRequest e)) := by
  obtain ⟨_, -, hok⟩ := bind_ok.1 hok
  obtain ⟨job, hjob, -⟩ := bind_ok.1 hok
  exact scalars_of_build rfl hjob

theorem eventText_bare (config : Tree × Tree × Tree) {e e' : ScheduledEvent}
    (h : expandFrom (environ .empty (starterVars "" "" "")).get? 0 (Data.obj (eventFields e.event)).dump =
      (Data.obj (eventFields e'.event)).dump) : eventText (fun _ => "") .empty config e = toJson e'.event := by
  rw [eventText, expand, toJson, toJson, Data.dumps, Data.dumps, String.toList_ofList]
  exact congrArg String.ofList h

theorem told_minutely {e : ScheduledEvent} {objs}
    (hok : createScheduledJobSpec scheduledOutside (scheduledRequest e) = .ok objs) :
    ∃ c config, objs.head?.bind starter = some c ∧
      Told (containerEnviron (fun _ => "") .empty c) (eventText (fun _ => "") .empty config e) :=
  told_starter readsJson_scheduledOutside (scalars_minutely hok) (event_json_str_scheduledRequest e) hok _ _

/-- A benchmark without datasets whose command looks like a reference to a variable. -/
theorem round_trip_without_datasets : ∃ objs,
    createScheduledJobSpec scheduledOutside (scheduledRequest (minutely "echo $(date)" [])) = .ok objs ∧
    (minutely "echo $(date)" []).RoundTrip objs (fun _ => "") .empty exampleRun := by
  obtain ⟨objs, hok⟩ := createScheduledJobSpec_minutely "echo $(date)" []
  obtain ⟨config, -, hiff⟩ := round_trip_iff readsJson_scheduledOutside (scalars_minutely hok)
    (event_json_str_scheduledRequest (minutely "echo $(date)" [])) hok (fun _ => "") .empty exampleRun
  have hte : eventText (fun _ => "") .empty config (minutely "echo $(date)" []) = toJson (minutely "echo $(date)" []).event :=
    eventText_bare config (by decide +kernel)
  refine ⟨objs, hok, (hiff hte).2 ⟨?_, List.cons_ne_nil _ _⟩⟩
  intro c hc
  cases hc

def fetchedDataset : DownloadableContent :=
  { src := "s3://data", path := "/data", dst := some "s3://cache", type := some .file, status := some .done }

/-- If a dataset has been fetched, the run of the container fails. And a command with two `$` comes
back as another command. -/
theorem event_not_respawned :
    (∃ objs, createScheduledJobSpec scheduledOutside (scheduledRequest (minutely "python3 hello.py" [fetchedDataset])) = .ok objs ∧
      ¬ (minutely "python3 hello.py" [fetchedDataset]).RoundTrip objs (fun _ => "") .empty exampleRun) ∧
    ∃ objs, createScheduledJobSpec scheduledOutside (scheduledRequest (minutely "echo $$" [])) = .ok objs ∧
      ¬ (minutely "echo $$" []).RoundTrip objs (fun _ => "") .empty exampleRun := by
  constructor
  · obtain ⟨objs, hok⟩ := createScheduledJobSpec_minutely "python3 hello.py" [fetchedDataset]
    obtain ⟨c, config, hc, ht⟩ := told_minutely hok
    have hte : eventText (fun _ => "") .empty config (minutely "python3 hello.py" [fetchedDataset]) =
        toJson (minutely "python3 hello.py" [fetchedDataset]).event := eventText_bare config (by decide +kernel)
    refine ⟨objs, hok, ?_⟩
    rintro ⟨c', sent, hc', hs⟩
    obtain rfl := Option.some.inj (hc.symm.trans hc')
    have hre := (ht.sends_iff _ exampleRun).1 ⟨sent, hs⟩
    rw [hte, restored_toJson] at hre
    cases (hre.1 fetchedDataset List.mem_cons_self).1
  · obtain ⟨objs, hok⟩ := createScheduledJobSpec_minutely "echo $$" []
    obtain ⟨c, config, hc, ht⟩ := told_minutely hok
    have hte : eventText (fun _ => "") .empty config (minutely "echo $$" []) = toJson (minutely "echo $" []).event :=
      eventText_bare config (by decide +kernel)
    refine ⟨objs, hok, ?_⟩
    rintro ⟨c', sent, hc', hs⟩
    obtain rfl := Option.some.inj (hc.symm.trans hc')
    obtain ⟨d, scheduled, hl, hf, hk⟩ := (ht.sends_iff _ exampleRun).1 ⟨sent, hs⟩
    rw [hte] at hl
    obtain rfl := Option.some.inj ((Data.loads_dumps (proper_eventFields (minutely "echo $" []).proper)).symm.trans hl)
    obtain ⟨-, rfl⟩ := fromDict_eventFields_iff.1 hf
    obtain ⟨info, -, -, hp⟩ := hk.payload
    have hco : some (Data.obj [("benchmark_code", .str "echo $")]) = some (.obj [("benchmark_code", .str "echo $$")]) :=
      congrArg (fun p => p.toml.contents.lookup "ml") hp
    simp at hco

end BenchmarkAi.CronJob
