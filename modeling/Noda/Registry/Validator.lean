import Mathlib.Data.List.Infix
import Noda.Config.Resolved
import Noda.Lib.Strconv

/-!
# Startup validation

The check of a config before services are created (`ValidateStartupDryRun`) and the check at the start, when they have
been created (`ValidateStartup`), with the services that are created later (`CollectDeferredServices`).

Both look at the nodes of every workflow and at the services in their slots.  The dry run looks a name up in the
configured services with the deferred ones laid over them; the live check looks at the services that there are first.
So a config that passes the dry run passes the live check exactly when no slot names a service that is both configured
and deferred with different prefixes (`validateStartup_iff`, `validateStartup_not_nil`).
-/

namespace Noda.Registry

open Noda.Config

/-! ### Registries -/

/-- A plugin with its prefix and the schema of the configs of its services. -/
structure Plugin where
  name : String
  pfx : String
  serviceConfigSchema : Option AnyMap

/-- The plugins by their prefixes. -/
abbrev PluginRegistry := GoMap Plugin

/-- The plugin with the name, the first one in some order of the map, or else the one with the name as its prefix. -/
def getByName (plugins : PluginRegistry) (name : String) : Option Plugin :=
  match plugins.toPairs.find? fun e => e.2.name = name with
  | some e => some e.2
  | none => plugins.lookup name

structure ServiceDep where
  pfx : String
  required : Bool

/-- A node descriptor; `outcomeOutputs` is empty for a descriptor that does not declare any. -/
structure NodeDescriptor where
  configSchema : Option AnyMap
  serviceDeps : GoMap ServiceDep
  outcomeOutputs : List String

/-- The descriptors of the node types, and the outputs of the executor that the factory of a type makes for a config. -/
structure NodeRegistry where
  descriptors : GoMap NodeDescriptor
  outputsForTypeWithConfig : String → Option AnyMap → Option (List String)

/-- The services with their plugins; those that are created later have none. -/
abbrev ServiceRegistry := GoMap (Option Plugin)

def getPrefix (services : ServiceRegistry) (name : String) : Option String :=
  (services.lookup name).bind fun plugin => plugin.map Plugin.pfx

/-- The checks of configs against schemas and of expressions, as lists of errors.  A schema is compiled to a check of
the configs of a plugin's services. -/
structure Checkers where
  validateNodeConfig : AnyMap → AnyMap → List String
  compileServiceSchema : String → AnyMap → Except String (AnyMap → Option String)
  validateExpressions : AnyMap → List String

/-- A `WorkflowScopedError` or a `ServiceConfigError`. -/
inductive StartupError where
  | workflow (file err : String)
  | service (service plugin err : String)
  deriving DecidableEq

variable (C : Checkers) (rc : ResolvedConfig) (plugins : PluginRegistry) (nodes : NodeRegistry)

/-! ### Deferred services -/

def endpointPrefix (epType : String) : Option String :=
  if epType = "websocket" then some "ws" else if epType = "sse" then some "sse" else none

/-- The endpoints of a connection file with their types, in the order of the loop. -/
def endpointTypes (conn : AnyMap) : List (String × String) :=
  ((mapField conn "endpoints").getD ∅).toPairs.filterMap fun e =>
    e.2.asMap.map fun ep => (e.1, (strField ep "type").getD "")

/-- `CollectDeferredServices`: the name of each deferred service with its prefix, and the errors. -/
def collectDeferredServices : GoMap String × List String :=
  let endpoints := rc.connections.toPairs.flatMap fun conn => (endpointTypes conn.2).map (conn.1, ·)
  let deferred := endpoints.foldl (fun deferred e =>
    match endpointPrefix e.2.2 with
    | some pfx => deferred.insert e.2.1 pfx
    | none => deferred) ∅
  let errs := endpoints.filterMap fun e =>
    if (endpointPrefix e.2.2).isNone then
      some ("connection " ++ e.1.goQuote ++ " endpoint " ++ e.2.1.goQuote ++ ": unknown type " ++ e.2.2.goQuote)
    else none
  let runtimes := ((mapField rc.root "wasm_runtimes").getD ∅).keys
  (runtimes.foldl (fun deferred name => deferred.insert name "wasm") deferred, errs)

/-! ### The checks that both share -/

def extractPrefix (nodeType : String) : String := ((cut nodeType '.').map Prod.fst).getD nodeType

def inNode (wfName nodeID err : String) : StartupError :=
  .workflow wfName ("workflow " ++ wfName.goQuote ++ ", node " ++ nodeID.goQuote ++ ": " ++ err)

/-- The nodes of a workflow that are maps, with their ids. -/
def nodesOf (wf : AnyMap) : List (String × AnyMap) :=
  ((mapField wf "nodes").getD ∅).toPairs.filterMap fun e => e.2.asMap.map fun node => (e.1, node)

def typeOf (node : AnyMap) : String := (strField node "type").getD ""

def validateNodeConfigSchema (wfName nodeID nodeType : String) (desc : NodeDescriptor) (node : AnyMap) :
    List StartupError :=
  match desc.configSchema with
  | none => []
  | some schema => (C.validateNodeConfig schema ((mapField node "config").getD ∅)).map fun err =>
      .workflow wfName ("workflow " ++ wfName.goQuote ++ ", node " ++ nodeID.goQuote ++ " (" ++ nodeType ++
        "): " ++ err)

/-- The name of the service in a slot, `""` for none. -/
def slotService (node : AnyMap) (slot : String) : String := (strField ((mapField node "services").getD ∅) slot).getD ""

/-- The error of a slot; `resolve` looks up the prefix of a service, and `notFound` is the text for one that there is
not. -/
def slotError (resolve : String → Option String) (notFound : String) (node : AnyMap) (slot : String)
    (dep : ServiceDep) : Option String :=
  let service := slotService node slot
  if service = "" then
    if dep.required then some ("missing required service slot " ++ slot.goQuote) else none
  else
    match resolve service with
    | none => some ("service " ++ service.goQuote ++ " " ++ notFound ++ " (slot: " ++ slot ++ ")")
    | some pfx =>
      if pfx ≠ dep.pfx then
        some ("service " ++ service.goQuote ++ " has prefix " ++ pfx.goQuote ++ ", but slot " ++ slot.goQuote ++
          " requires prefix " ++ dep.pfx.goQuote)
      else none

def checkNode (resolve : String → Option String) (notFound wfName nodeID : String) (node : AnyMap) :
    List StartupError :=
  if typeOf node = "" then []
  else if extractPrefix (typeOf node) ∉ plugins then
    [inNode wfName nodeID ("unknown node type prefix " ++ (extractPrefix (typeOf node)).goQuote ++
      " (type: " ++ typeOf node ++ ")")]
  else
    match nodes.descriptors.lookup (typeOf node) with
    | none => [inNode wfName nodeID ("unknown node type " ++ (typeOf node).goQuote)]
    | some desc =>
      validateNodeConfigSchema C wfName nodeID (typeOf node) desc node ++
        desc.serviceDeps.toPairs.filterMap fun e =>
          (slotError resolve notFound node e.1 e.2).map (inNode wfName nodeID)

/-- `strings.Contains(value, ...)` for two opening braces. -/
def isStatic (value : String) : Bool := !decide ("\x7b\x7b".toList <:+: value.toList)

def staticFieldsByNodeType : List (String × List String) :=
  [("event.emit", ["mode"]), ("control.switch", ["cases"]), ("workflow.run", ["workflow", "transaction"]),
    ("control.loop", ["workflow"]), ("workflow.output", ["name"]), ("http.request", ["method"]),
    ("transform.merge", ["mode"])]

/-- `ValidateStaticFields`; none of the fields is a path. -/
def validateStaticFields (config : AnyMap) (fields : List String) : List String :=
  fields.filterMap fun field =>
    (strField config field).bind fun value =>
      if isStatic value then none else some ("field " ++ field.goQuote ++ " must be a static value, not an expression")

/-- The expressions and the static fields in the configs of the nodes. -/
def validateConfigs : List StartupError :=
  rc.workflows.toPairs.flatMap fun wf => (nodesOf wf.2).flatMap fun e =>
    match mapField e.2 "config" with
    | none => []
    | some cfg =>
      (C.validateExpressions cfg ++
        validateStaticFields cfg ((staticFieldsByNodeType.lookup (typeOf e.2)).getD [])).map (inNode wf.1 e.1)

/-- The edges of a workflow that are maps. -/
def edgesOf (wf : AnyMap) : List AnyMap := ((arrField wf "edges").getD []).filterMap Json.asMap

/-- The output of an edge, `success` unless it names one. -/
def outputOf (edge : AnyMap) : String :=
  if (strField edge "output").getD "" = "" then "success" else (strField edge "output").getD ""

def endOf (edge : AnyMap) (key : String) : String := (strField edge key).getD ""

def notWired (wfName nodeID nodeType out : String) : StartupError :=
  .workflow wfName ("workflow " ++ wfName.goQuote ++ ", node " ++ nodeID.goQuote ++ " (" ++ nodeType ++
    "): outcome output " ++ out.goQuote ++ " has no outbound edge — a fired outcome output with no edge " ++
    "silently ends the path; wire it (e.g. to an error response, or to the same target as \"success\" if " ++
    "the distinction does not matter)")

def validateOutcomeOutputs : List StartupError :=
  rc.workflows.toPairs.flatMap fun wf => (nodesOf wf.2).flatMap fun e =>
    match nodes.descriptors.lookup (typeOf e.2) with
    | none => []
    | some desc =>
      (desc.outcomeOutputs.filter fun out => !(edgesOf wf.2).any fun edge =>
        endOf edge "from" = e.1 ∧ outputOf edge = out).map (notWired wf.1 e.1 (typeOf e.2))

/-! ### The live check -/

/-- A service that there is, or else one that is deferred. -/
def resolveLive (services : ServiceRegistry) (deferred : GoMap String) (name : String) : Option String :=
  match getPrefix services name with
  | some pfx => some pfx
  | none => deferred.lookup name

def validateStartup (services : ServiceRegistry) (deferred : GoMap String) : List StartupError :=
  (rc.workflows.toPairs.flatMap fun wf => (nodesOf wf.2).flatMap fun e =>
      checkNode C plugins nodes (resolveLive services deferred) "not found" wf.1 e.1 e.2) ++
    validateConfigs C rc ++ validateOutcomeOutputs rc nodes

/-! ### The dry run -/

/-- The services of the root config. -/
def servicesOf : AnyMap := (mapField rc.root "services").getD ∅

/-- The prefix that the dry run takes for a configured service. -/
def configuredPrefix (raw : Json) : Option String :=
  raw.asMap.bind fun cfg => (strField cfg "plugin").map fun pluginName =>
    ((getByName plugins pluginName).map Plugin.pfx).getD pluginName

/-- The deferred services are laid over the configured ones. -/
def configuredServices (deferred : GoMap String) : GoMap String :=
  deferred ∪ filterMapValues (configuredPrefix plugins) (servicesOf rc)

def pluginNames : List String := sortStrings (plugins.toPairs.map fun e => e.2.name)

def serviceConfigError (cfg : AnyMap) : Option String :=
  let pluginName := (strField cfg "plugin").getD ""
  match getByName plugins pluginName with
  | none =>
    some ("unknown plugin " ++ pluginName.goQuote ++ " (known plugins: " ++
      ", ".intercalate (pluginNames plugins) ++ ")")
  | some p =>
    p.serviceConfigSchema.bind fun schema =>
      match C.compileServiceSchema pluginName schema with
      | .error err => some ("invalid ServiceConfigSchema: " ++ err)
      | .ok validate => validate ((mapField cfg "config").getD ∅)

def serviceConfigErrors : List StartupError :=
  (servicesOf rc).toPairs.filterMap fun e =>
    e.2.asMap.bind fun cfg =>
      (serviceConfigError C plugins cfg).map (.service e.1 ((strField cfg "plugin").getD ""))

/-- Check 4: the error of an edge of a workflow. -/
def edgeError (wfName : String) (wfNodes edge : AnyMap) : Option StartupError :=
  let source := endOf edge "from"
  let target := endOf edge "to"
  if source ∉ wfNodes then
    some (.workflow wfName ("workflow " ++ wfName.goQuote ++ ": edge references unknown source node " ++
      source.goQuote))
  else if target ∉ wfNodes then
    some (.workflow wfName ("workflow " ++ wfName.goQuote ++ ": edge references unknown target node " ++
      target.goQuote))
  else
    (mapField wfNodes source).bind fun fromNode =>
      if typeOf fromNode = "" ∨ typeOf fromNode ∉ nodes.descriptors then none
      else
        (nodes.outputsForTypeWithConfig (typeOf fromNode) (mapField fromNode "config")).bind fun outputs =>
          if outputOf edge ∈ outputs then none
          else some (.workflow wfName ("workflow " ++ wfName.goQuote ++ ": edge " ++ source.goQuote ++ " -> " ++
            target.goQuote ++ ": output " ++ (outputOf edge).goQuote ++
              " not among declared outputs [" ++ " ".intercalate outputs ++ "]"))

/-- The checks of the dry run on a workflow: first its nodes, then its edges. -/
def dryRunWorkflow (deferred : GoMap String) (wfName : String) (wf : AnyMap) : List StartupError :=
  match mapField wf "nodes" with
  | none => []
  | some wfNodes =>
    ((nodesOf wf).flatMap fun e =>
        checkNode C plugins nodes
          (fun name => (configuredServices rc plugins deferred).lookup name) "not found in config"
          wfName e.1 e.2) ++
      (edgesOf wf).filterMap (edgeError nodes wfName wfNodes)

def validateStartupDryRun (deferred : GoMap String) : List StartupError :=
  serviceConfigErrors C rc plugins ++
    (rc.workflows.toPairs.flatMap fun wf => dryRunWorkflow C rc plugins nodes deferred wf.1 wf.2) ++
    validateOutcomeOutputs rc nodes ++ validateConfigs C rc

/-! ### What is expected -/

/-- The registry holds exactly the configured services, each with its plugin. -/
def HoldsConfigured (services : ServiceRegistry) : Prop :=
  ∀ name, services.lookup name = ((servicesOf rc).lookup name).bind fun raw => raw.asMap.bind fun cfg =>
    (strField cfg "plugin").bind fun pluginName => (getByName plugins pluginName).map some

/-- A slot of a node requires a service with a prefix, and names one. -/
def NamedSlot (service pfx : String) : Prop :=
  ∃ wfName wf nodeID node desc slot dep, rc.workflows.lookup wfName = some wf ∧ (nodeID, node) ∈ nodesOf wf ∧
    typeOf node ≠ "" ∧ nodes.descriptors.lookup (typeOf node) = some desc ∧ desc.serviceDeps.lookup slot = some dep ∧
    slotService node slot = service ∧ service ≠ "" ∧ dep.pfx = pfx

/-- A service that a slot names is not both configured and deferred with different prefixes. -/
def PrefixesAgree (services : ServiceRegistry) (deferred : GoMap String) : Prop :=
  ∀ service required pfx pfx', NamedSlot rc nodes service required → getPrefix services service = some pfx →
    deferred.lookup service = some pfx' → pfx = pfx'

/-! ### What the checks say -/

variable {C rc plugins nodes}

private theorem slotError_eq_none {resolve : String → Option String} {notFound slot : String} {node : AnyMap}
    {dep : ServiceDep} : slotError resolve notFound node slot dep = none ↔
      (slotService node slot = "" → dep.required = false) ∧
      (slotService node slot ≠ "" → resolve (slotService node slot) = some dep.pfx) := by
  unfold slotError
  by_cases hempty : slotService node slot = ""
  · simp [hempty]
  · simp only [hempty, if_false, ne_eq, not_false_eq_true, forall_const, false_implies, true_and]
    cases resolve (slotService node slot) with
    | none => simp
    | some pfx => simp

/-- What a check of a node asks of the slots. -/
def SlotsResolved (nodes : NodeRegistry) (resolve : String → Option String) (node : AnyMap) : Prop :=
  ∀ desc slot dep, typeOf node ≠ "" → nodes.descriptors.lookup (typeOf node) = some desc →
    desc.serviceDeps.lookup slot = some dep → slotService node slot ≠ "" →
    resolve (slotService node slot) = some dep.pfx

/-- What a check of a node asks besides. -/
def NodeKnown (C : Checkers) (plugins : PluginRegistry) (nodes : NodeRegistry) (wfName nodeID : String)
    (node : AnyMap) : Prop :=
  typeOf node ≠ "" → extractPrefix (typeOf node) ∈ plugins ∧ ∃ desc,
    nodes.descriptors.lookup (typeOf node) = some desc ∧
    validateNodeConfigSchema C wfName nodeID (typeOf node) desc node = [] ∧
    ∀ slot dep, desc.serviceDeps.lookup slot = some dep → slotService node slot = "" → dep.required = false

private theorem checkNode_eq_nil {resolve : String → Option String} {notFound wfName nodeID : String} {node : AnyMap} :
    checkNode C plugins nodes resolve notFound wfName nodeID node = [] ↔
      NodeKnown C plugins nodes wfName nodeID node ∧ SlotsResolved nodes resolve node := by
  unfold checkNode NodeKnown SlotsResolved
  by_cases htype : typeOf node = ""
  · simp [htype]
  by_cases hplugin : extractPrefix (typeOf node) ∈ plugins
  · cases hdesc : nodes.descriptors.lookup (typeOf node) with
    | none => simp [htype, hplugin]
    | some desc =>
      have hslots : (desc.serviceDeps.toPairs.filterMap fun e =>
            (slotError resolve notFound node e.1 e.2).map (inNode wfName nodeID)) = [] ↔
          ∀ slot dep, desc.serviceDeps.lookup slot = some dep → slotError resolve notFound node slot dep = none := by
        simp [List.filterMap_eq_nil_iff, AList.mem_toPairs]
      simp only [htype, hplugin, not_true_eq_false, if_false, List.append_eq_nil_iff, hslots, slotError_eq_none, ne_eq,
        not_false_eq_true, forall_const, true_and, Option.some.injEq, exists_eq_left']
      constructor
      · rintro ⟨hschema, hslot⟩
        refine ⟨⟨hschema, fun slot dep hdep => (hslot slot dep hdep).1⟩, ?_⟩
        rintro _ slot dep rfl hdep
        exact (hslot slot dep hdep).2
      · rintro ⟨⟨hschema, hrequired⟩, hresolved⟩
        exact ⟨hschema, fun slot dep hdep => ⟨hrequired slot dep hdep, hresolved desc slot dep rfl hdep⟩⟩
  · simp [htype, hplugin]

def HasNode (rc : ResolvedConfig) (wfName nodeID : String) (node : AnyMap) : Prop :=
  ∃ wf, rc.workflows.lookup wfName = some wf ∧ (nodeID, node) ∈ nodesOf wf

private theorem flatMap_nodes_eq_nil {f : String → String → AnyMap → List StartupError} :
    (rc.workflows.toPairs.flatMap fun wf => (nodesOf wf.2).flatMap fun e => f wf.1 e.1 e.2) = [] ↔
      ∀ wfName nodeID node, HasNode rc wfName nodeID node → f wfName nodeID node = [] := by
  simp only [List.flatMap_eq_nil_iff, Prod.forall, AList.mem_toPairs, HasNode]
  constructor
  · rintro h wfName nodeID node ⟨wf, hwf, hnode⟩
    exact h wfName wf hwf nodeID node hnode
  · intro h wfName wf hwf nodeID node hnode
    exact h wfName nodeID node ⟨wf, hwf, hnode⟩

/-- What a dry run without errors says. -/
structure DryRunOk (C : Checkers) (rc : ResolvedConfig) (plugins : PluginRegistry) (nodes : NodeRegistry)
    (deferred : GoMap String) : Prop where
  services : serviceConfigErrors C rc plugins = []
  checked : ∀ wfName nodeID node, HasNode rc wfName nodeID node → NodeKnown C plugins nodes wfName nodeID node ∧
    SlotsResolved nodes (fun name => (configuredServices rc plugins deferred).lookup name) node
  outcomes : validateOutcomeOutputs rc nodes = []
  configs : validateConfigs C rc = []

private theorem dryRunOk {deferred : GoMap String} (h : validateStartupDryRun C rc plugins nodes deferred = []) :
    DryRunOk C rc plugins nodes deferred := by
  simp only [validateStartupDryRun, List.append_eq_nil_iff, List.flatMap_eq_nil_iff, Prod.forall,
    AList.mem_toPairs] at h
  obtain ⟨⟨⟨hservices, hworkflows⟩, houtcomes⟩, hconfigs⟩ := h
  refine ⟨hservices, ?_, houtcomes, hconfigs⟩
  rintro wfName nodeID node ⟨wf, hwf, hnode⟩
  have hworkflow := hworkflows wfName wf hwf
  unfold dryRunWorkflow at hworkflow
  cases hnodes : mapField wf "nodes" with
  | none =>
    rw [nodesOf, hnodes] at hnode
    exact nomatch hnode
  | some wfNodes =>
    rw [hnodes, List.append_eq_nil_iff, List.flatMap_eq_nil_iff] at hworkflow
    exact checkNode_eq_nil.1 (hworkflow.1 (nodeID, node) hnode)

/-- The live check of a config that passes the dry run depends on its slots only. -/
private theorem validateStartup_eq_nil {deferred : GoMap String} (hdry : DryRunOk C rc plugins nodes deferred)
    (services : ServiceRegistry) : validateStartup C rc plugins nodes services deferred = [] ↔
      ∀ wfName nodeID node, HasNode rc wfName nodeID node →
        SlotsResolved nodes (resolveLive services deferred) node := by
  unfold validateStartup
  rw [hdry.configs, hdry.outcomes, List.append_nil, List.append_nil, flatMap_nodes_eq_nil]
  refine forall₄_congr fun wfName nodeID node hnode => ?_
  rw [checkNode_eq_nil]
  exact and_iff_right (hdry.checked wfName nodeID node hnode).1

/-! ### Names and prefixes -/

private theorem plugin_of_configured (h : serviceConfigErrors C rc plugins = []) {name pluginName : String} {raw : Json}
    {cfg : AnyMap} (hraw : (servicesOf rc).lookup name = some raw) (hcfg : raw.asMap = some cfg)
    (hplugin : strField cfg "plugin" = some pluginName) : ∃ p, getByName plugins pluginName = some p := by
  have herr := List.filterMap_eq_nil_iff.1 h (name, raw) (AList.mem_toPairs.2 hraw)
  simp only [hcfg, Option.bind_some, Option.map_eq_none_iff, serviceConfigError, hplugin, Option.getD_some] at herr
  cases hfound : getByName plugins pluginName with
  | none =>
    rw [hfound] at herr
    exact nomatch herr
  | some p => exact ⟨p, rfl⟩

/-- The dry run takes the prefix of the registry for a service that is not deferred. -/
private theorem lookup_configuredServices (h : serviceConfigErrors C rc plugins = []) {services : ServiceRegistry}
    (hholds : HoldsConfigured rc plugins services) {deferred : GoMap String} {name : String}
    (hdeferred : deferred.lookup name = none) :
    (configuredServices rc plugins deferred).lookup name = getPrefix services name := by
  have hmem : name ∉ deferred := AList.lookup_eq_none.1 hdeferred
  rw [configuredServices, AList.lookup_union_right hmem, lookup_filterMapValues, getPrefix, hholds name]
  cases hraw : (servicesOf rc).lookup name with
  | none => rfl
  | some raw =>
    rw [Option.bind_some, Option.bind_some, configuredPrefix]
    cases hcfg : raw.asMap with
    | none => rfl
    | some cfg =>
      rw [Option.bind_some, Option.bind_some]
      cases hplugin : strField cfg "plugin" with
      | none => rfl
      | some pluginName =>
        obtain ⟨p, hp⟩ := plugin_of_configured h hraw hcfg hplugin
        simp [hp]

/-- The two ways to look a service up agree, as far as the prefix that a slot requires goes. -/
private theorem resolveLive_iff (h : serviceConfigErrors C rc plugins = []) {services : ServiceRegistry}
    (hholds : HoldsConfigured rc plugins services) {deferred : GoMap String} {name required : String}
    (hdry : (configuredServices rc plugins deferred).lookup name = some required) :
    resolveLive services deferred name = some required ↔
      ∀ pfx pfx', getPrefix services name = some pfx → deferred.lookup name = some pfx' → pfx = pfx' := by
  unfold resolveLive
  cases hdeferred : deferred.lookup name with
  | none =>
    rw [lookup_configuredServices h hholds hdeferred] at hdry
    simp [hdry]
  | some pfx' =>
    have hmem : name ∈ deferred := AList.mem_of_lookup hdeferred
    rw [configuredServices, AList.lookup_union_left hmem, hdeferred, Option.some.injEq] at hdry
    subst hdry
    cases hlive : getPrefix services name with
    | none => simp
    | some pfx => simp

/-! ### The result -/

/-- A config that passes the dry run passes the live check exactly when no slot names a service that is both configured
and deferred with different prefixes. -/
theorem validateStartup_iff {services : ServiceRegistry} (hholds : HoldsConfigured rc plugins services)
    (hdry : validateStartupDryRun C rc plugins nodes (collectDeferredServices rc).1 = []) :
    validateStartup C rc plugins nodes services (collectDeferredServices rc).1 = [] ↔
      PrefixesAgree rc nodes services (collectDeferredServices rc).1 := by
  have hok := dryRunOk hdry
  rw [validateStartup_eq_nil hok]
  constructor
  · rintro hlive service required pfx pfx'
      ⟨wfName, wf, nodeID, node, desc, slot, dep, hwf, hnode, htype, hdesc, hdep, rfl, hname, rfl⟩
    have hresolved := hlive wfName nodeID node ⟨wf, hwf, hnode⟩ desc slot dep htype hdesc hdep hname
    have hdryslot := (hok.checked wfName nodeID node ⟨wf, hwf, hnode⟩).2 desc slot dep htype hdesc hdep hname
    exact (resolveLive_iff hok.services hholds hdryslot).1 hresolved pfx pfx'
  · rintro hagree wfName nodeID node ⟨wf, hwf, hnode⟩ desc slot dep htype hdesc hdep hname
    have hdryslot := (hok.checked wfName nodeID node ⟨wf, hwf, hnode⟩).2 desc slot dep htype hdesc hdep hname
    refine (resolveLive_iff hok.services hholds hdryslot).2 fun pfx pfx' => ?_
    exact hagree (slotService node slot) dep.pfx pfx pfx'
      ⟨wfName, wf, nodeID, node, desc, slot, dep, hwf, hnode, htype, hdesc, hdep, rfl, hname, rfl⟩

/-- The registry after all configured services have been created. -/
def createdServices (rc : ResolvedConfig) (plugins : PluginRegistry) : ServiceRegistry :=
  filterMapValues (fun raw => raw.asMap.bind fun cfg => (strField cfg "plugin").bind fun pluginName =>
    (getByName plugins pluginName).map some) (servicesOf rc)

private theorem holdsConfigured_createdServices : HoldsConfigured rc plugins (createdServices rc plugins) :=
  fun name => lookup_filterMapValues _ _ name

def acceptAll : Checkers := ⟨fun _ _ => [], fun _ _ => .ok fun _ => none, fun _ => []⟩

def twoPlugins : PluginRegistry := GoMap.ofPairs [("db", ⟨"postgres", "db", none⟩), ("ws", ⟨"core.ws", "ws", none⟩)]

def twoNodeTypes : NodeRegistry where
  descriptors := GoMap.ofPairs [("db.find", ⟨none, GoMap.ofPairs [("database", ⟨"db", true⟩)], []⟩),
    ("ws.send", ⟨none, GoMap.ofPairs [("connections", ⟨"ws", true⟩)], []⟩)]
  outputsForTypeWithConfig := fun _ _ => some ["success", "error"]

/-- A database and an endpoint with names, and a workflow that reads from the one and sends to the other. -/
def findAndSend (database endpoint : String) : ResolvedConfig where
  root := GoMap.ofPairs [("services", .obj [(database, .obj [("plugin", .str "postgres")])])]
  routes := ∅
  workflows := GoMap.ofPairs [("workflows/w.json", GoMap.ofPairs
    [("nodes", .obj [("find", .obj [("type", .str "db.find"), ("services", .obj [("database", .str database)])]),
      ("send", .obj [("type", .str "ws.send"), ("services", .obj [("connections", .str endpoint)])])]),
      ("edges", .arr [.obj [("from", .str "find"), ("to", .str "send")]])])]
  connections := GoMap.ofPairs [("connections/c.json", GoMap.ofPairs
    [("endpoints", .obj [(endpoint, .obj [("type", .str "websocket")])])])]

theorem validateStartup_findAndSend :
    validateStartup acceptAll (findAndSend "main-db" "live") twoPlugins twoNodeTypes
      (createdServices (findAndSend "main-db" "live") twoPlugins)
      (collectDeferredServices (findAndSend "main-db" "live")).1 = [] := by
  refine (validateStartup_iff holdsConfigured_createdServices (by decide +kernel)).2 ?_
  intro service required pfx pfx' _ hlive hdeferred
  have hnone : ∀ name ∈ (collectDeferredServices (findAndSend "main-db" "live")).1.keys,
      getPrefix (createdServices (findAndSend "main-db" "live") twoPlugins) name = none := by decide +kernel
  rw [hnone service (AList.mem_of_lookup hdeferred)] at hlive
  exact nomatch hlive

/-- A database and an endpoint with one name, and a workflow that sends to the endpoint. -/
def oneName : ResolvedConfig where
  root := GoMap.ofPairs [("services", .obj [("live", .obj [("plugin", .str "postgres")])])]
  routes := ∅
  workflows := GoMap.ofPairs [("workflows/w.json", GoMap.ofPairs
    [("nodes", .obj [("send", .obj [("type", .str "ws.send"), ("services", .obj [("connections", .str "live")])])])])]
  connections := GoMap.ofPairs [("connections/c.json", GoMap.ofPairs
    [("endpoints", .obj [("live", .obj [("type", .str "websocket")])])])]

theorem validateStartup_not_nil : HoldsConfigured oneName twoPlugins (createdServices oneName twoPlugins) ∧
    validateStartupDryRun acceptAll oneName twoPlugins twoNodeTypes (collectDeferredServices oneName).1 = [] ∧
    validateStartup acceptAll oneName twoPlugins twoNodeTypes (createdServices oneName twoPlugins)
      (collectDeferredServices oneName).1 ≠ [] := by
  refine ⟨holdsConfigured_createdServices, by decide +kernel, ?_⟩
  have hlength : (validateStartup acceptAll oneName twoPlugins twoNodeTypes (createdServices oneName twoPlugins)
      (collectDeferredServices oneName).1).length = 1 := by decide +kernel
  exact List.ne_nil_of_length_pos (by rw [hlength]; exact Nat.one_pos)

end Noda.Registry
