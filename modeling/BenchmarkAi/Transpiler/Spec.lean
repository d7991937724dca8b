import BenchmarkAi.Lib.Tree
/-!
# The Kubernetes objects of a job

`transpiler/kubernetes_spec_logic.py`: the objects a job template holds, one of
them the root with the pod specs, and the edits the builders make to them. The
objects are `addict` dicts, where a missing attribute reads as an empty dict.
-/

open Lib

namespace BenchmarkAi.Transpiler

/-! ## Python -/

/-- What an edit can raise. `builtin` is an error of the interpreter (`KeyError`,
`AttributeError`, `TypeError`, `IndexError`) or another exception that no clause
names, `notFound` the `ValueError` of a search, with the names there are. -/
inductive Raised
  | valueError (msg : String)
  | notFound (what name : String) (available : List Tree)
  | descriptorError (msg : String)
  | builtin
deriving Repr

def Raised.isValueError : Raised → Bool
  | valueError _ | notFound .. => true
  | _ => false

abbrev Py := Except Raised

def attr (k : String) : Tree → Py Tree
  | .obj fs => .ok ((fs.lookup k).getD (.obj []))
  | _ => .error .builtin

def attrs (ks : List String) (t : Tree) : Py Tree := ks.foldlM (fun t k => attr k t) t

/-- What a loop over the value runs through; the loops read attributes of the
items, so keys and characters are as bad as no items. -/
def items : Tree → Py (List Tree)
  | .arr ts => .ok ts
  | .obj [] | .str "" => .ok []
  | _ => .error .builtin

def list : Tree → Py (List Tree)
  | .arr ts => .ok ts
  | _ => .error .builtin

def isStr (s : String) : Tree → Bool
  | .str t => s == t
  | _ => false

def named (name : String) (t : Tree) : Py Bool := return isStr name (← attr "name" t)

/-- The characters that `repr` escapes; other control characters do not occur here. -/
def escaped (quote : Char) (c : Char) : List Char :=
  if c = '\\' ∨ c = quote then ['\\', c]
  else if c = '\n' then ['\\', 'n']
  else if c = '\r' then ['\\', 'r']
  else if c = '\t' then ['\\', 't']
  else [c]

def reprStr (s : String) : String :=
  let quote := if '\'' ∈ s.toList ∧ '"' ∉ s.toList then '"' else '\''
  String.ofList (quote :: s.toList.flatMap (escaped quote) ++ [quote])

mutual
def pyRepr : Tree → String
  | .null => "None"
  | .bool b => if b then "True" else "False"
  | .num n => toString n
  | .str s => reprStr s
  | .arr ts => "[" ++ ", ".intercalate (pyReprItems ts) ++ "]"
  | .obj fs => "\x7b" ++ ", ".intercalate (pyReprFields fs) ++ "\x7d"

def pyReprItems : List Tree → List String
  | [] => []
  | t :: ts => pyRepr t :: pyReprItems ts

def pyReprFields : List (String × Tree) → List String
  | [] => []
  | (k, t) :: fs => (reprStr k ++ ": " ++ pyRepr t) :: pyReprFields fs
end

def pyStr : Tree → String
  | .str s => s
  | t => pyRepr t

/-! ## The objects -/

structure RootObjectHelper where
  root : Tree
  config_maps : List Tree
  role_bindings : List Tree
  services : List Tree

def RootObjectHelper.objects (h : RootObjectHelper) : List Tree :=
  h.role_bindings ++ h.config_maps ++ h.services ++ [h.root]

/-- Where `get_pod_spec` finds the pod spec, for one replica type of an MPI job or
for the job itself. -/
def podSpecPath (root : Tree) : Option String → Py (List String)
  | some mpiReplicaType => do
    let path := ["spec", "mpiReplicaSpecs", mpiReplicaType, "template", "spec"]
    if (← attrs path root).truthy then return path else throw .builtin
  | none => do
    if (← attrs ["spec", "template"] root).truthy then return ["spec", "template", "spec"]
    else if (← attrs ["spec", "jobTemplate"] root).truthy then
      if (← attrs ["spec", "jobTemplate", "spec", "template"] root).truthy then
        return ["spec", "jobTemplate", "spec", "template", "spec"]
      else return ["spec", "jobTemplate", "spec"]
    else throw .builtin

def getPodSpec (h : RootObjectHelper) (replica : Option String) : Py Tree := do
  attrs (← podSpecPath h.root replica) h.root

def onPodSpec (replica : Option String) (f : Tree → Py Tree) (h : RootObjectHelper) : Py RootObjectHelper := do
  let path ← podSpecPath h.root replica
  let spec ← f (← attrs path h.root)
  return { h with root := h.root.set path spec }

/-! ## Reading the documents -/

/-- The loop over the documents, with the kind of the last one. -/
structure Loading where
  root : Option Tree := none
  config_maps : List Tree := []
  role_bindings : List Tree := []
  services : List Tree := []
  kind : Option Tree := none

def readDoc (l : Loading) (d : Tree) : Py Loading :=
  match d.get? "kind" with
  | none => throw .builtin
  | some kind =>
    let l := { l with kind := some kind }
    if isStr "ConfigMap" kind then return { l with config_maps := l.config_maps ++ [d] }
    else if isStr "CronJob" kind || isStr "Job" kind || isStr "MPIJob" kind then return { l with root := some d }
    else if isStr "RoleBinding" kind then return { l with role_bindings := l.role_bindings ++ [d] }
    else if isStr "Service" kind then return { l with services := l.services ++ [d] }
    else throw (.valueError ("Kubernetes yaml object is of an unsupported kind type: " ++ pyStr kind))

def require (ok : Bool) (msg : String) : Py Unit := if ok then return () else throw (.valueError msg)

def validate (h : RootObjectHelper) : Py Unit := do
  require (← attr "spec" h.root).truthy "Spec of root object not found at yaml definition of the Kubernetes object"
  require (← getPodSpec h none).truthy "Pod not found at yaml definition of the Kubernetes object"
  require (← attr "containers" (← getPodSpec h none)).truthy "A Pod must have at least 1 container on its definition"

def validateReplica (h : RootObjectHelper) (r : String) : Py Unit := do
  require (← attrs ["spec", "mpiReplicaSpecs", r] h.root).truthy ("The replica specs of MPIJob must have " ++ r)
  require (← getPodSpec h (some r)).truthy
    ("Pod not found at yaml definition of the " ++ r ++ " Kubernetes object")
  require (← attr "containers" (← getPodSpec h (some r))).truthy
    ("A Pod must have at least 1 container on its " ++ r ++ " replica definition")

def validateMpiSpec (h : RootObjectHelper) : Py Unit := do
  require (← attr "spec" h.root).truthy "Spec of root object not found at yaml definition of the Kubernetes object"
  require (← attrs ["spec", "mpiReplicaSpecs"] h.root).truthy "MPIJob must have mpiReplicaSpecs"
  validateReplica h "Launcher"
  validateReplica h "Worker"

def orEmptyList (k : String) (t : Tree) : Py Tree := do
  if (← attr k t).truthy then return t else return t.put k (.arr [])

def emptyFields (spec : Tree) : Py Tree := do
  let spec ← orEmptyList "initContainers" spec
  let spec ← orEmptyList "volumes" spec
  let containers ← items (← attr "containers" spec)
  return spec.put "containers" (.arr (← containers.mapM (orEmptyList "volumeMounts")))

def createEmptyFields (replica : Option String) : RootObjectHelper → Py RootObjectHelper := onPodSpec replica emptyFields

/-- `KubernetesRootObjectHelper.__init__`, after the loader has read the documents.
The kind of the last document says which validation is made. -/
def ofDocs (docs : List Tree) : Py RootObjectHelper := do
  let l ← docs.foldlM readDoc {}
  match l.kind, l.root with
  | some kind, some root =>
    let h : RootObjectHelper := ⟨root, l.config_maps, l.role_bindings, l.services⟩
    if isStr "MPIJob" kind then
      validateMpiSpec h
      createEmptyFields (some "Worker") (← createEmptyFields (some "Launcher") h)
    else
      validate h
      createEmptyFields none h
  | _, _ => throw .builtin

/-! ## Containers and volumes -/

def splitNamed (name : String) : List Tree → Py (Option (List Tree × Tree × List Tree))
  | [] => return none
  | t :: ts => do
    if ← named name t then return some ([], t, ts)
    else return (← splitNamed name ts).map fun (before, c, after) => (t :: before, c, after)

/-- Replaces the first container with the name, in `containers` or in
`initContainers`: by its edited version, or by nothing. -/
def onContainer (name : String) (f : Tree → Py (List Tree)) (spec : Tree) : Py Tree := do
  let containers ← items (← attr "containers" spec)
  match ← splitNamed name containers with
  | some (before, c, after) => return spec.put "containers" (.arr (before ++ (← f c) ++ after))
  | none =>
    let initContainers ← items (← attr "initContainers" spec)
    match ← splitNamed name initContainers with
    | some (before, c, after) => return spec.put "initContainers" (.arr (before ++ (← f c) ++ after))
    | none => throw (.notFound "Container" name (← (containers ++ initContainers).mapM (attr "name")))

def editContainer (name : String) (replica : Option String) (f : Tree → Py Tree) :
    RootObjectHelper → Py RootObjectHelper :=
  onPodSpec replica (onContainer name fun c => return [← f c])

def removeContainer (name : String) (replica : Option String) : RootObjectHelper → Py RootObjectHelper :=
  onPodSpec replica (onContainer name fun _ => return [])

def removeAffinity (replica : Option String) : RootObjectHelper → Py RootObjectHelper :=
  onPodSpec replica fun spec =>
    if (spec.get? "affinity").isSome then return spec.erase "affinity" else throw .builtin

def setServiceAccount (name : String) (replica : Option String) : RootObjectHelper → Py RootObjectHelper :=
  onPodSpec replica fun spec => return spec.put "serviceAccountName" (.str name)

def removeFirst (t : Tree) : List Tree → List Tree
  | [] => []
  | u :: us => if t.pyEq u then us else u :: removeFirst t us

/-- The loop over the mounts in `remove_volume`, at position `i`. It removes from
the list it runs through, so the item after a removed one is not looked at. -/
def dropMounts (volume : String) : Nat → Nat → List Tree → Py (List Tree)
  | 0, _, mounts => return mounts
  | n + 1, i, mounts =>
    match mounts[i]? with
    | none => return mounts
    | some m => do
      if ← named volume m then dropMounts volume n (i + 1) (removeFirst m mounts)
      else dropMounts volume n (i + 1) mounts

def dropVolume (volume : String) (c : Tree) : Py Tree := do
  let mounts ← items (← attr "volumeMounts" c)
  if mounts = [] then return c
  else return c.put "volumeMounts" (.arr (← dropMounts volume mounts.length 0 mounts))

def withoutVolume (volume : String) (spec : Tree) : Py Tree := do
  let volumes ← items (← attr "volumes" spec)
  match ← splitNamed volume volumes with
  | none => throw (.notFound "Volume" volume (← volumes.mapM (attr "name")))
  | some (before, _, after) =>
    let containers ← (← items (← attr "containers" spec)).mapM (dropVolume volume)
    let initContainers ← (← items (← attr "initContainers" spec)).mapM (dropVolume volume)
    return ((spec.put "volumes" (.arr (before ++ after))).put "containers" (.arr containers)).put
      "initContainers" (.arr initContainers)

def removeVolume (volume : String) (replica : Option String) : RootObjectHelper → Py RootObjectHelper :=
  onPodSpec replica (withoutVolume volume)

/-! ## Environment, ports and probes -/

def assignKey (k v : Tree) : List (Tree × Tree) → Py (List (Tree × Tree))
  | [] =>
    match k with
    | .obj _ | .arr _ => throw .builtin
    | _ => return [(k, v)]
  | (k', v') :: kvs => do if k.pyEq k' then return (k', v) :: kvs else return (k', v') :: (← assignKey k v kvs)

/-- The merge of `add_env_vars`. An entry that holds no value, only a reference to one, has an
empty dict for its value here. -/
def mergeVars (env : List (String × Tree)) (c : Tree) : Py Tree := do
  let vars ← attr "env" c
  let vars ← items (if vars.truthy then vars else .arr [])
  let old ← vars.foldlM (fun kvs var => do assignKey (← attr "name" var) (← attr "value" var) kvs) []
  let new ← env.foldlM (fun kvs kv => assignKey (.str kv.1) kv.2 kvs) old
  return c.put "env" (.arr (new.map fun kv => .obj [("name", kv.1), ("value", .str (pyStr kv.2))]))

def addEnvVars (container : String) (env : List (String × Tree)) (replica : Option String)
    (h : RootObjectHelper) : Py RootObjectHelper :=
  if env = [] then return h else editContainer container replica (mergeVars env) h

def addContainerPorts (container : String) (ports : List Int) : RootObjectHelper → Py RootObjectHelper :=
  editContainer container none fun c => do
    let old := (c.get? "ports").getD .null
    let old ← list (if old.truthy then old else .arr [])
    return c.put "ports" (.arr (ports.map (fun port => .obj [("containerPort", .num port)]) ++ old))

inductive HttpProbeScheme
  | http | https
deriving DecidableEq, Repr

structure HttpProbeDescriptor where
  path : String
  port : Option Int := none
  scheme : Option HttpProbeScheme := some .http
  initial_delay_seconds : Option Int := some 10
  period_seconds : Option Int := some 10
  timeout_seconds : Option Int := some 1
  success_threshold : Option Int := some 1
  failure_threshold : Option Int := some 3
deriving DecidableEq, Repr

def ofOption : Option Int → Tree
  | some n => .num n
  | none => .null

def upperScheme : Option HttpProbeScheme → Py String
  | some .http => return "HTTP"
  | some .https => return "HTTPS"
  | none => throw .builtin

/-- `add_readiness_probe`. A port 0 counts as none. -/
def addReadinessProbe (container : String) (probe : HttpProbeDescriptor) (default_port : Int) :
    RootObjectHelper → Py RootObjectHelper :=
  editContainer container none fun c => do
    return c.put "readinessProbe" (.obj [
      ("httpGet", .obj [
        ("path", .str probe.path),
        ("port", .num (if probe.port.getD 0 ≠ 0 then probe.port.getD 0 else default_port)),
        ("scheme", .str (← upperScheme probe.scheme))]),
      ("initialDelaySeconds", ofOption probe.initial_delay_seconds),
      ("periodSeconds", ofOption probe.period_seconds),
      ("timeoutSeconds", ofOption probe.timeout_seconds),
      ("successThreshold", ofOption probe.success_threshold),
      ("failureThreshold", ofOption probe.failure_threshold)])

def editFirst (p : Tree → Py Bool) (f : Tree → Py Tree) : List Tree → Py (Option (List Tree))
  | [] => return none
  | t :: ts => do
    if ← p t then return some ((← f t) :: ts) else return (← editFirst p f ts).map (t :: ·)

def metadataName (name : String) (t : Tree) : Py Bool := return isStr name (← attrs ["metadata", "name"] t)

def servicePort (i : Nat) (port : Int) : Tree :=
  .obj [("name", .str s!"port-{i}"), ("protocol", .str "TCP"), ("port", .num port)]

/-- `add_tcp_ports_to_service`: ports of a service without a list of ports are dropped. -/
def addTcpPorts (name : String) (ports : List Int) (h : RootObjectHelper) : Py RootObjectHelper := do
  let services ← editFirst (metadataName name) (fun service => do
    let spec := (service.get? "spec").getD (.obj [])
    match spec with
    | .obj fs =>
      match fs.lookup "ports" with
      | none => return service
      | some old => return service.set ["spec", "ports"] (.arr ((← list old) ++ ports.mapIdx servicePort))
    | _ => throw .builtin) h.services
  return { h with services := services.getD h.services }

def editConfigMap (name : String) (f : Tree → Py Tree) (h : RootObjectHelper) : Py RootObjectHelper := do
  match ← editFirst (metadataName name) f h.config_maps with
  | some config_maps => return { h with config_maps }
  | none => throw (.notFound "ConfigMap" name (← h.config_maps.mapM (attrs ["metadata", "name"])))

/-! ## Labels -/

/-- The label at one dict that has metadata. Metadata or labels that are no dict
are left as they are. -/
def setLabel (key : String) (value : Tree) (fs : List (String × Tree)) : List (String × Tree) :=
  match fs.lookup "metadata" with
  | some (.obj (m :: ms)) =>
    match (m :: ms).lookup "labels" with
    | some (.obj ls) => assign "metadata" (.obj (assign "labels" (.obj (assign key value ls)) (m :: ms))) fs
    | some l =>
      if l.truthy then fs else assign "metadata" (.obj (assign "labels" (.obj [(key, value)]) (m :: ms))) fs
    | none => assign "metadata" (.obj (assign "labels" (.obj [(key, value)]) (m :: ms))) fs
  | _ => fs

def labelable (fs : List (String × Tree)) : Bool :=
  match fs.lookup "metadata" with
  | some (.obj ms) =>
    match ms.lookup "labels" with
    | some (.obj _) | none => true
    | some l => !l.truthy
  | some m => !m.truthy
  | none => true

/-- `_add_label`. The loop visits every dict below the object, those it makes
included, and a visit changes nothing that another one looks at but the labels
themselves. So the label is set at all of them, and it is an error if the loop
comes to a dict where it can not be set. -/
def addLabelTo (key : String) (value : Tree) (t : Tree) : Py Tree :=
  let labelled := t.mapDicts (setLabel key value)
  if labelled.allDicts labelable then return labelled else throw .builtin

def addLabel (key : String) (value : Tree) (h : RootObjectHelper) : Py RootObjectHelper := do
  return {
    root := ← addLabelTo key value h.root
    config_maps := ← h.config_maps.mapM (addLabelTo key value)
    role_bindings := ← h.role_bindings.mapM (addLabelTo key value)
    services := ← h.services.mapM (addLabelTo key value) }

end BenchmarkAi.Transpiler
