import Noda.Config.MiddlewareRefs
import Noda.Config.Settings
import Noda.Config.WorkflowCycles
import Noda.Lib.Strconv

/-!
# References between the files of a config

`ValidateCrossRefs` of `crossrefs.go`, as a whole: the references of routes, workers, schedules, connections and
workflow nodes to workflows, services, endpoints and middlewares, the durations and the server settings.  Its guards
`rc.Root != nil` always hold, as `Resolve` makes the root a map before; so there are none here.

* `workflowRef_mem`, `acyclic_of_accepted`: in a config without errors every reference to a workflow is to one that is
  there, and workflows do not run in circles.
-/

namespace Noda.Config

/-- What `ValidateCrossRefs` reads: a resolved config with its workers and schedules. -/
structure LoadedConfig extends ResolvedConfig where
  workers : Section
  schedules : Section

/-! ### What can be referred to -/

/-- `collectIDs`. -/
def collectIDs (configs : Section) : List String := configs.toPairs.filterMap fun e => strField e.2 "id"

/-- `collectEndpoints`. -/
def collectEndpoints (connections : Section) : List String :=
  connections.toPairs.flatMap fun e => ((mapField e.2 "endpoints").map AList.keys).getD []

/-- `collectServices`: the plugin of each service. -/
def collectServices (root : AnyMap) : GoMap String :=
  filterMapValues (fun svc => svc.asMap.bind fun m => strField m "plugin") ((mapField root "services").getD ∅)

/-! ### References -/

def workflowError (filePath jsonPath wfID : String) : ValidationError :=
  ⟨filePath, jsonPath, "references non-existent workflow " ++ wfID.goQuote⟩

/-- A reference to a workflow. -/
def checkWorkflow (ids : List String) (filePath jsonPath : String) : Option String → List ValidationError
  | some wfID => if wfID ∈ ids then [] else [workflowError filePath jsonPath wfID]
  | none => []

/-- A reference to a service that must be of this plugin. -/
def checkService (services : GoMap String) (expected filePath jsonPath : String) : Option String → List ValidationError
  | some name =>
    match services.lookup name with
    | none => [⟨filePath, jsonPath, "references non-existent service " ++ name.goQuote⟩]
    | some plugin =>
      if plugin = expected then []
      else [⟨filePath, jsonPath,
        "service " ++ name.goQuote ++ " has plugin " ++ plugin.goQuote ++ ", expected " ++ expected.goQuote⟩]
  | none => []

/-- The workflow of the trigger of a route, a worker or a schedule. -/
def triggerWorkflow (m : AnyMap) : Option String := (mapField m "trigger").bind (strField · "workflow")

def slotService (m : AnyMap) (slot : String) : Option String := (mapField m "services").bind (strField · slot)

/-- `lock["enabled"]`. -/
def lockEnabled (schedule : AnyMap) : Bool := ((mapField schedule "lock").map (boolField · "enabled")).getD false

def routeErrors (rc : LoadedConfig) (filePath : String) (route : AnyMap) : List ValidationError :=
  checkWorkflow (collectIDs rc.workflows) filePath "/trigger/workflow" (triggerWorkflow route) ++
    validateMiddlewareRefs filePath route (collectPresets rc.root) (collectInstances rc.root)

def workerErrors (rc : LoadedConfig) (filePath : String) (worker : AnyMap) : List ValidationError :=
  checkService (collectServices rc.root) "stream" filePath "/services/stream" (slotService worker "stream") ++
    checkWorkflow (collectIDs rc.workflows) filePath "/trigger/workflow" (triggerWorkflow worker)

/-- The texts of the lock's time to live and of the timeout of the job, where both are durations. -/
def lockTimes (schedule : AnyMap) : Option ((String × Int) × String × Int) := do
  let lock ← mapField schedule "lock"
  let ttlStr ← strField lock "ttl"
  let timeoutStr ← strField schedule "timeout"
  return ((ttlStr, ← Duration.parse ttlStr), timeoutStr, ← Duration.parse timeoutStr)

def lockErrors (filePath : String) (schedule : AnyMap) : List ValidationError :=
  match lockTimes schedule with
  | some ((ttlStr, ttl), timeoutStr, timeout) =>
    if ttl < timeout then
      [⟨filePath, "/lock/ttl", "lock TTL (" ++ ttlStr ++ ") is less than job timeout (" ++ timeoutStr ++
        ") — lock may expire before the job finishes"⟩]
    else []
  | none => []

def scheduleErrors (rc : LoadedConfig) (filePath : String) (schedule : AnyMap) : List ValidationError :=
  (if lockEnabled schedule then
    checkService (collectServices rc.root) "cache" filePath "/services/lock" (slotService schedule "lock")
  else []) ++
    checkWorkflow (collectIDs rc.workflows) filePath "/trigger/workflow" (triggerWorkflow schedule)

/-- The endpoints of a connections file that are objects. -/
def endpointsOf (conn : AnyMap) : GoMap AnyMap := filterMapValues Json.asMap ((mapField conn "endpoints").getD ∅)

def endpointPath (epName field : String) : String := "/endpoints/" ++ epName ++ "/" ++ field

def endpointErrors (fields : List String) (check : String → Option String → List ValidationError) (conn : AnyMap) :
    List ValidationError :=
  (endpointsOf conn).toPairs.flatMap fun e => fields.flatMap fun field =>
    check (endpointPath e.1 field) (strField e.2 field)

def lifecycleFields : List String := ["on_connect", "on_message", "on_disconnect"]

def connectionErrors (rc : LoadedConfig) (filePath : String) (conn : AnyMap) : List ValidationError :=
  checkService (collectServices rc.root) "pubsub" filePath "/sync/pubsub"
      ((mapField conn "sync").bind (strField · "pubsub")) ++
    endpointErrors lifecycleFields (checkWorkflow (collectIDs rc.workflows) filePath) conn

/-! ### Nodes -/

def nodeEndpoint (node : AnyMap) : Option String :=
  if strField node "type" = some "ws.send" ∨ strField node "type" = some "sse.send" then slotService node "connections"
  else none

def endpointError (endpoints : List String) (filePath nodeID epName : String) : ValidationError where
  filePath := filePath
  jsonPath := "/nodes/" ++ nodeID ++ "/services/connections"
  message := "references non-existent connections endpoint " ++ epName.goQuote ++
    if endpoints = [] then
      " (no connections endpoints are defined anywhere — define them in a connections/*.json file, " ++
        "e.g. connections/realtime.json)"
    else ""

def nodeErrors (ids endpoints : List String) (filePath nodeID : String) (node : AnyMap) : List ValidationError :=
  (match nodeEndpoint node with
    | some epName => if epName ∈ endpoints then [] else [endpointError endpoints filePath nodeID epName]
    | none => []) ++
  checkWorkflow ids filePath ("/nodes/" ++ nodeID ++ "/config/workflow") (nodeTarget node)

/-- The nodes of a workflow file that are objects. -/
def nodesOf (wf : AnyMap) : GoMap AnyMap := filterMapValues Json.asMap ((mapField wf "nodes").getD ∅)

def workflowErrors (rc : LoadedConfig) (filePath : String) (wf : AnyMap) : List ValidationError :=
  (nodesOf wf).toPairs.flatMap fun e =>
    nodeErrors (collectIDs rc.workflows) (collectEndpoints rc.connections) filePath e.1 e.2

/-- The errors of `detectWorkflowCycles` have no file. -/
def cycleErrors (rc : LoadedConfig) : Option (List ValidationError) :=
  (detectWorkflowCycles (wfGraph rc.workflows)).map fun errs => errs.map fun e => ⟨"", "", e.message⟩

/-! ### Settings -/

section

variable (R : Readers)

/-- A field that must be a duration if it is a text. -/
def checkDuration (filePath jsonPath : String) : Option String → List ValidationError
  | some v =>
    if Duration.parse v = none then
      [⟨filePath, jsonPath, "invalid duration " ++ v.goQuote ++ ": " ++ R.durationErr v⟩]
    else []
  | none => []

def fileError (filePath name : String) : ValidationError where
  filePath := filePath
  jsonPath := "/trigger/files"
  message :=
    "files entry " ++ name.goQuote ++ " has no matching trigger.input key — add \"" ++ name ++ "\": \"" ++ name ++
    "\" to trigger.input, otherwise the multipart stream never reaches the workflow"

/-- The entries of `files` that are texts. -/
def triggerFiles (route : AnyMap) : List String := ((mapField route "trigger").map (stringsField · "files")).getD []

def triggerInput (route : AnyMap) : AnyMap := ((mapField route "trigger").bind (mapField · "input")).getD ∅

def fileErrors (filePath : String) (route : AnyMap) : List ValidationError :=
  ((triggerFiles route).filter fun name => name ∉ triggerInput route).map (fileError filePath)

def rootFile : String := "noda.json"

def durationSettings : List String :=
  ["read_timeout", "write_timeout", "response_timeout", "shutdown_deadline", "health_timeout"]

/-- `math.MaxInt`. -/
def maxInt : Int := 2 ^ 63 - 1

def intSettings : List (String × Int × Int) :=
  [("port", 1, 65535), ("body_limit", 0, maxInt), ("expression_memory_budget", 0, maxInt)]

def settingError (key : String) : Option String → List ValidationError
  | some message => [⟨rootFile, "/server/" ++ key, message⟩]
  | none => []

def errorOf {α : Type} : Except String α → Option String
  | .error e => some e
  | .ok _ => none

def intError (root : AnyMap) (f : String × Int × Int) : Option String :=
  match serverInt R root f.1 with
  | .error e => some e
  | .ok (some v) =>
    if v < f.2.1 ∨ v > f.2.2 then
      some ("value " ++ toString v ++ " out of range [" ++ toString f.2.1 ++ ", " ++ toString f.2.2 ++ "]")
    else none
  | .ok none => none

def serverErrors (root : AnyMap) : List ValidationError :=
  match mapField root "server" with
  | none => []
  | some _ =>
    (durationSettings.flatMap fun field => settingError field (errorOf (serverDuration R root field))) ++
      (intSettings.flatMap fun f => settingError f.1 (intError R root f)) ++
      settingError "trust_proxy" (errorOf (serverTrustProxy R root)) ++
      settingError "openapi" (serverOpenAPI root).2

/-- Whether `allow_origins` of the CORS config is set to something. -/
def corsOrigins (root : AnyMap) : Bool :=
  match (mapField root "security").bind (mapField · "cors") with
  | none => false
  | some cfg =>
    match cfg.lookup "allow_origins" with
    | none | some .null | some (.str "") => false
    | some _ => true

def corsErrors (rc : LoadedConfig) : List ValidationError :=
  if corsUsed rc.toResolvedConfig ∧ corsOrigins rc.root = false then
    [⟨rootFile, "/security/cors/allow_origins",
      "warning: CORS middleware is active but allow_origins is not configured; will default to localhost only"⟩]
  else []

def globalErrors (root : AnyMap) : List ValidationError :=
  ((arrField root "global_middleware").getD []).zipIdx.flatMap fun (v, i) =>
    match v with
    | .str _ => []
    | v => [⟨rootFile, "/global_middleware/" ++ toString i, "expected string, got " ++ goType v⟩]

end

/-- A loop over the files of a section. -/
def Section.errors (s : Section) (check : String → AnyMap → List ValidationError) : List ValidationError :=
  s.toPairs.flatMap fun e => check e.1 e.2

/-- `ValidateCrossRefs`; the search for cycles always has a result. -/
def validateCrossRefs (R : Readers) (rc : LoadedConfig) : Option (List ValidationError) :=
  (cycleErrors rc).map fun cycles =>
    rc.routes.errors (routeErrors rc) ++
    rc.workers.errors (workerErrors rc) ++
    rc.schedules.errors lockErrors ++
    rc.schedules.errors (scheduleErrors rc) ++
    rc.connections.errors (connectionErrors rc) ++
    rc.workflows.errors (workflowErrors rc) ++
    cycles ++
    rc.routes.errors (fun filePath route =>
      checkDuration R filePath "/response_timeout" (strField route "response_timeout")) ++
    rc.routes.errors fileErrors ++
    serverErrors R rc.root ++
    rc.workers.errors (fun filePath worker => checkDuration R filePath "/timeout" (strField worker "timeout")) ++
    rc.connections.errors
      (fun filePath => endpointErrors ["ping_interval", "heartbeat", "retry"] (checkDuration R filePath)) ++
    corsErrors rc ++
    globalErrors rc.root

/-! ### Configs without errors -/

/-- The check reports nothing. -/
def Accepted (R : Readers) (rc : LoadedConfig) : Prop := validateCrossRefs R rc = some []

/-- The ways in which a config names a workflow to be run. -/
inductive WorkflowRef (rc : LoadedConfig) (wfID : String) : Prop
  | route (file : String) (route : AnyMap) (h : rc.routes.lookup file = some route)
      (hid : triggerWorkflow route = some wfID)
  | worker (file : String) (worker : AnyMap) (h : rc.workers.lookup file = some worker)
      (hid : triggerWorkflow worker = some wfID)
  | schedule (file : String) (schedule : AnyMap) (h : rc.schedules.lookup file = some schedule)
      (hid : triggerWorkflow schedule = some wfID)
  | endpoint (file : String) (conn : AnyMap) (name : String) (ep : AnyMap) (field : String)
      (h : rc.connections.lookup file = some conn) (hep : (endpointsOf conn).lookup name = some ep)
      (hfield : field ∈ lifecycleFields) (hid : strField ep field = some wfID)
  | node (file : String) (wf : AnyMap) (nodeID : String) (node : AnyMap) (h : rc.workflows.lookup file = some wf)
      (hnode : (nodesOf wf).lookup nodeID = some node) (hid : nodeTarget node = some wfID)

variable {R : Readers} {rc : LoadedConfig} {wfID : String}

theorem Section.errors_eq_nil {s : Section} {check : String → AnyMap → List ValidationError} (h : s.errors check = [])
    {file : String} {m : AnyMap} (hm : s.lookup file = some m) : check file m = [] :=
  List.flatMap_eq_nil_iff.1 h (file, m) (AList.mem_toPairs.2 hm)

private theorem checkWorkflow_eq_nil {ids : List String} {filePath jsonPath : String}
    (h : checkWorkflow ids filePath jsonPath (some wfID) = []) : wfID ∈ ids := by
  by_contra hnot
  simp [checkWorkflow, hnot] at h

/-- The parts of the result that a config without errors leaves empty. -/
theorem Accepted.parts (h : Accepted R rc) :
    rc.routes.errors (routeErrors rc) = [] ∧ rc.workers.errors (workerErrors rc) = [] ∧
    rc.schedules.errors (scheduleErrors rc) = [] ∧ rc.connections.errors (connectionErrors rc) = [] ∧
    rc.workflows.errors (workflowErrors rc) = [] ∧ cycleErrors rc = some [] := by
  obtain ⟨cycles, hcycles, hall⟩ := Option.map_eq_some_iff.1 h
  simp only [List.append_eq_nil_iff] at hall
  obtain ⟨⟨⟨⟨⟨⟨⟨⟨⟨⟨⟨⟨⟨hroutes, hworkers⟩, -⟩, hschedules⟩, hconns⟩, hwfs⟩, hcyc⟩, -⟩, -⟩, -⟩, -⟩, -⟩, -⟩, -⟩ := hall
  exact ⟨hroutes, hworkers, hschedules, hconns, hwfs, hcyc ▸ hcycles⟩

theorem workflowRef_mem (h : Accepted R rc) (href : WorkflowRef rc wfID) : wfID ∈ collectIDs rc.workflows := by
  obtain ⟨hroutes, hworkers, hschedules, hconns, hwfs, -⟩ := h.parts
  cases href with
  | route file route hm hid =>
    have hnil := (List.append_eq_nil_iff.1 (Section.errors_eq_nil hroutes hm)).1
    rw [hid] at hnil
    exact checkWorkflow_eq_nil hnil
  | worker file worker hm hid =>
    have hnil := (List.append_eq_nil_iff.1 (Section.errors_eq_nil hworkers hm)).2
    rw [hid] at hnil
    exact checkWorkflow_eq_nil hnil
  | schedule file schedule hm hid =>
    have hnil := (List.append_eq_nil_iff.1 (Section.errors_eq_nil hschedules hm)).2
    rw [hid] at hnil
    exact checkWorkflow_eq_nil hnil
  | endpoint file conn name ep field hm hep hfield hid =>
    have hnil := (List.append_eq_nil_iff.1 (Section.errors_eq_nil hconns hm)).2
    have hep' := List.flatMap_eq_nil_iff.1 hnil (name, ep) (AList.mem_toPairs.2 hep)
    have hfield' := List.flatMap_eq_nil_iff.1 hep' field hfield
    rw [hid] at hfield'
    exact checkWorkflow_eq_nil hfield'
  | node file wf nodeID node hm hnode hid =>
    have hnil := List.flatMap_eq_nil_iff.1 (Section.errors_eq_nil hwfs hm) (nodeID, node) (AList.mem_toPairs.2 hnode)
    have hnode' := (List.append_eq_nil_iff.1 hnil).2
    rw [hid] at hnode'
    exact checkWorkflow_eq_nil hnode'

theorem mem_collectIDs {configs : Section} :
    wfID ∈ collectIDs configs ↔ ∃ file m, configs.lookup file = some m ∧ strField m "id" = some wfID := by
  rw [collectIDs, List.mem_filterMap]
  constructor
  · rintro ⟨⟨file, m⟩, hmem, hid⟩
    exact ⟨file, m, AList.mem_toPairs.1 hmem, hid⟩
  · rintro ⟨file, m, hm, hid⟩
    exact ⟨(file, m), AList.mem_toPairs.2 hm, hid⟩

/-! ### Workflows that run workflows -/

theorem ReferenceGraph.refers_add {g : ReferenceGraph} {x y wfID targetID : String} :
    (g.add wfID targetID).Refers x y ↔ g.Refers x y ∨ wfID ≠ "" ∧ x = wfID ∧ y = targetID := by
  rw [Refers, Refers, references, references, add]
  split
  · rename_i hid
    simp [hid]
  · rename_i hid
    by_cases hx : x = wfID
    · subst hx
      simp [hid]
    · simp [AList.getD_modify_of_ne _ _ _ hx, hx]

/-- The loops that collect the references keep what is there. -/
private theorem refers_foldl {targets : List String} {g : ReferenceGraph} {x y wfID : String} :
    (targets.foldl (fun g targetID => g.add wfID targetID) g).Refers x y ↔
      g.Refers x y ∨ wfID ≠ "" ∧ x = wfID ∧ y ∈ targets := by
  induction targets generalizing g with
  | nil => simp
  | cons t ts ih =>
    rw [List.foldl_cons, ih, ReferenceGraph.refers_add, List.mem_cons, or_assoc]
    refine or_congr_right ?_
    constructor
    · rintro (⟨h₁, h₂, h₃⟩ | ⟨h₁, h₂, h₃⟩)
      · exact ⟨h₁, h₂, .inl h₃⟩
      · exact ⟨h₁, h₂, .inr h₃⟩
    · rintro ⟨h₁, h₂, h₃ | h₃⟩
      · exact .inl ⟨h₁, h₂, h₃⟩
      · exact .inr ⟨h₁, h₂, h₃⟩

theorem refers_wfGraph {workflows : Section} {file : String} {wf : AnyMap} {x y : String}
    (hwf : workflows.lookup file = some wf) (hid : strField wf "id" = some x) (hne : x ≠ "")
    (hy : y ∈ workflowTargets wf) : (wfGraph workflows).Refers x y := by
  have hmem : (file, wf) ∈ workflows.toPairs := AList.mem_toPairs.2 hwf
  have hall : ∀ (ps : List (String × AnyMap)) (g : ReferenceGraph), g.Refers x y ∨ (file, wf) ∈ ps →
      (ps.foldl (fun g e => (workflowTargets e.2).foldl
        (fun g targetID => g.add ((strField e.2 "id").getD "") targetID) g) g).Refers x y := by
    intro ps
    induction ps with
    | nil => exact fun g h => h.resolve_right List.not_mem_nil
    | cons p ps ih =>
      intro g h
      rw [List.foldl_cons]
      refine ih _ ?_
      rw [refers_foldl]
      rcases h with h | h
      · exact .inl (.inl h)
      · rcases List.mem_cons.1 h with rfl | h
        · exact .inl (.inr ⟨by rwa [hid], by rw [hid]; rfl, hy⟩)
        · exact .inr h
  exact hall _ _ (.inr hmem)

/-- The workflows of a config without errors do not run in circles. -/
theorem acyclic_of_accepted (h : Accepted R rc) (x : String) :
    ¬Relation.TransGen (wfGraph rc.workflows).Refers x x := by
  obtain ⟨-, -, -, -, -, hcycles⟩ := h.parts
  obtain ⟨st, hst, hsteps⟩ := detectWorkflowCycles_search (wfGraph rc.workflows)
  rw [cycleErrors, hst] at hcycles
  have hnone : st.reports = [] := by simpa using hcycles
  intro hx
  exact (noReports_iff ⟨.refl _, fun x => .refl _⟩ hsteps).2 ⟨x, hx⟩ hnone

end Noda.Config
