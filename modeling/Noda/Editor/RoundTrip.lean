import Noda.Editor.Workflow
import Noda.Engine.Compiler
import Noda.Engine.Parse
import Noda.Lib.Assoc
import Noda.Lib.Outcome

/-!
# Loading and saving a workflow

A workflow that the schema accepts is loaded into the editor and saved again.  The engine reads the saved workflow as
it reads the original, but for the node `__proto__`, which is not saved (`roundTrip_iff`).  To load and save it again
changes nothing (`resave`).
-/

namespace Noda.Editor

open Engine (Numbers ReadError parseNode parseNodes parseRetry parseEdges parseWorkflowFromMap mapStrVal)

/-! ### The schema -/

def isString : Json → Bool
  | .str _ => true
  | _ => false

def isNumber : Json → Bool
  | .num _ => true
  | _ => false

def isInteger : Json → Bool
  | .num n => n.den = 1
  | _ => false

def objectWith (check : Raw → Bool) : Json → Bool
  | .obj fields => check fields
  | _ => false

def arrayOf (check : Json → Bool) : Json → Bool
  | .arr items => items.all check
  | _ => false

/-- The property, if it is there, passes the check. -/
def property (fields : Raw) (key : String) (check : Json → Bool) : Bool := (fields.lookup key).all check

def required (fields : Raw) (keys : List String) : Bool := keys.all fun key => (fields.lookup key).isSome

def nodeSchema : Json → Bool :=
  objectWith fun nm =>
    property nm "type" isString &&
    property nm "services" (objectWith fun services => services.all fun e => isString e.2) &&
    property nm "as" isString &&
    property nm "position"
      (objectWith fun position => property position "x" isNumber && property position "y" isNumber) &&
    property nm "config" (objectWith fun _ => true) && required nm ["type"]

def retrySchema : Json → Bool :=
  objectWith fun retry =>
    property retry "attempts" isInteger &&
    property retry "backoff" (fun v => v = .str "fixed" || v = .str "exponential") && property retry "delay" isString

def edgeSchema : Json → Bool :=
  objectWith fun em =>
    property em "from" isString && property em "output" isString && property em "to" isString &&
    property em "retry" retrySchema && required em ["from", "to"]

/-- `workflow.json`, the schema of workflows. -/
def workflowSchema (raw : Raw) : Bool :=
  property raw "id" isString && property raw "name" isString && property raw "description" isString &&
  property raw "version" isString && property raw "nodes" (objectWith fun nodes => nodes.all fun e => nodeSchema e.2) &&
  property raw "edges" (arrayOf edgeSchema) && required raw ["id", "nodes", "edges"]

/-- The nodes of a file that has them in an object. -/
def nodeFields (raw : Raw) : Raw :=
  match raw.lookup "nodes" with
  | some (.obj fields) => fields
  | _ => []

def edgeItems (raw : Raw) : List Json :=
  match raw.lookup "edges" with
  | some (.arr items) => items
  | _ => []

/-! ### The same workflow for the engine -/

/-- An empty output is read as `success`. -/
def effective (e : Engine.EdgeConfig) : Engine.EdgeConfig := { e with output := e.outputName }

structure SameWorkflow (wf wf' : Engine.WorkflowConfig) : Prop where
  id : wf.id = wf'.id
  timeout : wf.timeout = wf'.timeout
  nodes : ∀ n, wf.nodes.lookup n = wf'.nodes.lookup n
  edges : wf.edges.map effective = wf'.edges.map effective

def SameResult : Except ReadError Engine.WorkflowConfig → Except ReadError Engine.WorkflowConfig → Prop
  | .error err, .error err' => err = err'
  | .ok wf, .ok wf' => SameWorkflow wf wf'
  | _, _ => False

/-- The file can be loaded; what is saved means the same to the engine; and to load it and save it once more changes
nothing. -/
def RoundTrip (N : Numbers) (id : String) (raw : Raw) : Prop :=
  ∃ wf, normalizeWorkflow raw = some wf ∧
    SameResult (parseWorkflowFromMap N id (denormalizeWorkflow wf raw)) (parseWorkflowFromMap N id raw) ∧
    ∃ wf', normalizeWorkflow (denormalizeWorkflow wf raw) = some wf' ∧
      denormalizeWorkflow wf' (denormalizeWorkflow wf raw) = denormalizeWorkflow wf raw

/-! ### Nodes -/

def loadNode (id : String) (v : Json) : WorkflowNode :=
  ⟨id, v.field "type", v.field "config", v.field "as", v.field "services", v.field "position"⟩

def saveNode (v : Json) : Json := (loadNode "" v).entry

private theorem lookup_optional (key k : String) (set : Bool) (value : Option Json) :
    (optional key set value).lookup k = if k = key ∧ set = true then value else none := by
  unfold optional
  cases set with
  | false => simp
  | true =>
    cases value with
    | none => simp
    | some v =>
      by_cases hk : k = key
      · simp [hk]
      · simp [hk, List.lookup_cons, beq_false_of_ne hk]

/-- The value, if it is to be saved. -/
def keep (check : Option Json → Bool) (value : Option Json) : Option Json := if check value then value else none

section Fields

variable (v : Json)

private theorem saveNode_type : (saveNode v).field "type" = v.field "type" := by
  simp only [saveNode, loadNode, WorkflowNode.entry, Json.field_obj, List.lookup_append, lookup_optional]
  cases v.field "type" <;> simp

private theorem saveNode_services : (saveNode v).field "services" = keep hasKeys (v.field "services") := by
  simp only [saveNode, loadNode, WorkflowNode.entry, Json.field_obj, List.lookup_append, lookup_optional, keep]
  simp

private theorem saveNode_config : (saveNode v).field "config" = keep hasKeys (v.field "config") := by
  simp only [saveNode, loadNode, WorkflowNode.entry, Json.field_obj, List.lookup_append, lookup_optional, keep]
  simp

private theorem saveNode_as : (saveNode v).field "as" = keep truthy (v.field "as") := by
  simp only [saveNode, loadNode, WorkflowNode.entry, Json.field_obj, List.lookup_append, lookup_optional, keep]
  simp

end Fields

private theorem optional_keep (key : String) {check : Option Json → Bool} (hnone : check none = false)
    (value : Option Json) :
    optional key (check (keep check value)) (keep check value) = optional key (check value) value := by
  unfold keep
  cases hcheck : check value with
  | true => simp [hcheck]
  | false => simp [optional, hnone]

private theorem saveNode_saveNode (v : Json) : saveNode (saveNode v) = saveNode v := by
  have hentry : ∀ v, saveNode v = .obj (optional "type" true (v.field "type") ++
      optional "services" (hasKeys (v.field "services")) (v.field "services") ++
      optional "config" (hasKeys (v.field "config")) (v.field "config") ++
      optional "as" (truthy (v.field "as")) (v.field "as")) := fun _ => rfl
  rw [hentry (saveNode v), saveNode_type, saveNode_services, saveNode_config, saveNode_as, optional_keep _ rfl,
    optional_keep _ rfl, optional_keep _ rfl, ← hentry]

/-- The fields of a node that the schema accepts. -/
structure NodeOk (nm : Raw) : Prop where
  services : ∀ v, nm.lookup "services" = some v → ∃ fields, v = .obj fields
  config : ∀ v, nm.lookup "config" = some v → ∃ fields, v = .obj fields
  asName : ∀ v, nm.lookup "as" = some v → ∃ s, v = .str s

private theorem of_property {fields : Raw} {key : String} {check : Json → Bool} (h : property fields key check = true)
    {v : Json}
    (hv : fields.lookup key = some v) : check v = true := by
  rw [property, hv] at h
  exact h

private theorem of_isString {v : Json} (h : isString v = true) : ∃ s, v = .str s := by
  cases v with
  | str s => exact ⟨s, rfl⟩
  | _ => cases h

private theorem of_objectWith {check : Raw → Bool} {v : Json} (h : objectWith check v = true) :
    ∃ fields, v = .obj fields ∧ check fields = true := by
  cases v with
  | obj fields => exact ⟨fields, rfl, h⟩
  | _ => cases h

private theorem nodeOk_of_schema {v : Json} (h : nodeSchema v = true) : ∃ nm, v = .obj nm ∧ NodeOk nm := by
  obtain ⟨nm, rfl, hnm⟩ := of_objectWith h
  simp only [Bool.and_eq_true] at hnm
  obtain ⟨⟨⟨⟨⟨-, hservices⟩, has⟩, -⟩, hconfig⟩, -⟩ := hnm
  refine ⟨nm, rfl, fun v hv => ?_, fun v hv => ?_, fun v hv => of_isString (of_property has hv)⟩
  · obtain ⟨fields, hfields, -⟩ := of_objectWith (of_property hservices hv)
    exact ⟨fields, hfields⟩
  · obtain ⟨fields, hfields, -⟩ := of_objectWith (of_property hconfig hv)
    exact ⟨fields, hfields⟩

/-- The fields of an object; other values have none. -/
def objFields : Json → Raw
  | .obj fields => fields
  | _ => []

def strOf : Option Json → String
  | some (.str s) => s
  | _ => ""

def configOf (N : Numbers) : Option Json → Engine.Config
  | some (.obj fields) => Engine.toConfig N fields
  | _ => []

def servicesOf (N : Numbers) : Option Json → GoMap String
  | some (.obj fields) => GoMap.ofPairs (fields.map fun e => (e.1, (e.2.asStr).getD (N.format e.2)))
  | _ => ∅

private theorem parseNode_objFields (N : Numbers) (v : Json) :
    parseNode N (objFields v) =
      ⟨strOf (v.field "type"), servicesOf N (v.field "services"), strOf (v.field "as"),
        configOf N (v.field "config")⟩ := by
  cases v <;> rfl

/-- The engine reads a node as before it was saved. -/
private theorem parseNode_saveNode (N : Numbers) {nm : Raw} (h : NodeOk nm) :
    parseNode N (objFields (saveNode (.obj nm))) = parseNode N nm := by
  have hservices : servicesOf N (keep hasKeys (nm.lookup "services")) = servicesOf N (nm.lookup "services") := by
    cases hv : nm.lookup "services" with
    | none => rfl
    | some v =>
      obtain ⟨fields, rfl⟩ := h.services v hv
      cases fields <;> rfl
  have hconfig : configOf N (keep hasKeys (nm.lookup "config")) = configOf N (nm.lookup "config") := by
    cases hv : nm.lookup "config" with
    | none => rfl
    | some v =>
      obtain ⟨fields, rfl⟩ := h.config v hv
      cases fields <;> rfl
  have has : strOf (keep truthy (nm.lookup "as")) = strOf (nm.lookup "as") := by
    cases hv : nm.lookup "as" with
    | none => rfl
    | some v =>
      obtain ⟨s, rfl⟩ := h.asName v hv
      by_cases hs : s = ""
      · simp [keep, truthy, hs, strOf]
      · simp [keep, truthy, hs]
  rw [show parseNode N nm = parseNode N (objFields (.obj nm)) from rfl, parseNode_objFields, parseNode_objFields,
    saveNode_type, saveNode_services, saveNode_config, saveNode_as, Json.field_obj, Json.field_obj, Json.field_obj,
    Json.field_obj, hservices, hconfig, has]

/-- The nodes of a file as they are saved, under their ids. -/
def savedNodes (fields : Raw) : Raw := fields.map fun e => (e.1, saveNode e.2)

/-- The nodes that are saved, those with other ids than `__proto__`. -/
private theorem nodesMap_load (fields : Raw) (description version : Option Json) (edges : List WorkflowEdge) :
    WorkflowConfig.nodesMap ⟨description, version, fields.map fun e => loadNode e.1 e.2, edges⟩ =
      JsObject.fill ((savedNodes fields).filter fun e => e.1 ≠ "__proto__") [] := by
  rw [nodesMap_eq_fill, List.map_map]
  rfl

private theorem lookup_savedNodes {fields : Raw} (hnodup : (fields.map Prod.fst).Nodup) (id : String) :
    (JsObject.fill ((savedNodes fields).filter fun e => e.1 ≠ "__proto__") []).lookup id =
      if id = "__proto__" then none else (fields.lookup id).map saveNode := by
  have hkeys : ((savedNodes fields).map Prod.fst).Nodup := by
    rw [savedNodes, List.map_map]
    exact hnodup
  have hfilter : (((savedNodes fields).filter fun e => e.1 ≠ "__proto__").map Prod.fst).Nodup :=
    hkeys.sublist (List.filter_sublist.map Prod.fst)
  have hperm := JsObject.fill_perm (o := []) hfilter
  rw [List.nil_append] at hperm
  rw [← Assoc.lookup_congr hfilter hperm.symm]
  by_cases hid : id = "__proto__"
  · rw [if_pos hid, Assoc.lookup_eq_none]
    intro v hv
    have hne := (List.mem_filter.mp hv).2
    simp [hid] at hne
  · rw [if_neg hid, ← Assoc.lookup_map]
    ext v
    rw [Assoc.lookup_eq_some hfilter, ← savedNodes, Assoc.lookup_eq_some hkeys, List.mem_filter]
    simp [hid]

/-- The nodes that the engine reads. -/
private theorem parseNodes_ok (N : Numbers) {fields : Raw} (h : ∀ e ∈ fields, ∃ nm, e.2 = .obj nm) :
    parseNodes N fields = .ok (fields.map fun e => (e.1, parseNode N (objFields e.2))) := by
  induction fields with
  | nil => rfl
  | cons e fields ih =>
    obtain ⟨id, v⟩ := e
    obtain ⟨⟨nm, hnm⟩, hrest⟩ := List.forall_mem_cons.mp h
    have hv : v = .obj nm := hnm
    subst hv
    rw [parseNodes, ih hrest]
    rfl

/-! ### Edges -/

/-- The output that is loaded: `success`, if there is none. -/
def loadOutput : Option Json → Json
  | none | some .null => .str "success"
  | some output => output

def loadEdge (v : Json) : WorkflowEdge :=
  ⟨v.field "from", loadOutput (v.field "output"), v.field "to", v.field "retry"⟩

def saveEdge (v : Json) : Json := (loadEdge v).entry

/-- The output, if it is saved. -/
def keepOutput (output : Option Json) : Option Json :=
  keep (fun v => truthy v && v ≠ some (.str "success")) output

section Fields

variable (v : Json)

private theorem saveEdge_from : (saveEdge v).field "from" = v.field "from" := by
  simp only [saveEdge, loadEdge, WorkflowEdge.entry, Json.field_obj, List.lookup_append, lookup_optional]
  cases v.field "from" <;> simp

private theorem saveEdge_to : (saveEdge v).field "to" = v.field "to" := by
  simp only [saveEdge, loadEdge, WorkflowEdge.entry, Json.field_obj, List.lookup_append, lookup_optional]
  cases v.field "to" <;> simp

private theorem saveEdge_retry : (saveEdge v).field "retry" = keep truthy (v.field "retry") := by
  simp only [saveEdge, loadEdge, WorkflowEdge.entry, Json.field_obj, List.lookup_append, lookup_optional, keep]
  simp

private theorem saveEdge_output : (saveEdge v).field "output" = keepOutput (v.field "output") := by
  have hoptional : ∀ o : Option Json,
      (optional "output" (truthy (some (loadOutput o)) && loadOutput o ≠ .str "success") (some (loadOutput o))).lookup
        "output" = keepOutput o := by
    intro o
    rw [lookup_optional, keepOutput, keep]
    cases o with
    | none => simp [truthy, loadOutput]
    | some output => cases output <;> simp [truthy, loadOutput]
  have hentry : (saveEdge v).field "output" =
      (optional "from" true (v.field "from") ++ optional "to" true (v.field "to") ++
        optional "output"
          (truthy (some (loadOutput (v.field "output"))) && loadOutput (v.field "output") ≠ .str "success")
          (some (loadOutput (v.field "output"))) ++
        optional "retry" (truthy (v.field "retry")) (v.field "retry")).lookup "output" := rfl
  rw [hentry, List.lookup_append, List.lookup_append, List.lookup_append, hoptional, lookup_optional, lookup_optional,
    lookup_optional, if_neg (by decide), if_neg (by decide), if_neg (by simp)]
  simp

end Fields

private theorem optional_output (output : Option Json) :
    optional "output"
        (truthy (some (loadOutput (keepOutput output))) && loadOutput (keepOutput output) ≠ .str "success")
        (some (loadOutput (keepOutput output))) =
      optional "output" (truthy (some (loadOutput output)) && loadOutput output ≠ .str "success")
        (some (loadOutput output)) := by
  cases hkeep : truthy output && output ≠ some (.str "success") with
  | true =>
    rw [show keepOutput output = output by rw [keepOutput, keep, if_pos hkeep]]
  | false =>
    have hdropped : ∀ o : Option Json, (truthy o && o ≠ some (.str "success")) = false →
        optional "output" (truthy (some (loadOutput o)) && loadOutput o ≠ .str "success")
          (some (loadOutput o)) = [] := by
      intro o ho
      cases o with
      | none => simp [optional, loadOutput]
      | some v => cases v <;> simp_all [optional, loadOutput, truthy]
    rw [show keepOutput output = none by rw [keepOutput, keep, if_neg (by rw [hkeep]; decide)], hdropped output hkeep,
      hdropped none rfl]

private theorem saveEdge_saveEdge (v : Json) : saveEdge (saveEdge v) = saveEdge v := by
  have hentry : ∀ v, saveEdge v = .obj (optional "from" true (v.field "from") ++ optional "to" true (v.field "to") ++
      optional "output"
        (truthy (some (loadOutput (v.field "output"))) && loadOutput (v.field "output") ≠ .str "success")
        (some (loadOutput (v.field "output"))) ++
      optional "retry" (truthy (v.field "retry")) (v.field "retry")) := fun _ => rfl
  rw [hentry (saveEdge v), saveEdge_from, saveEdge_to, saveEdge_output, saveEdge_retry, optional_output,
    optional_keep _ rfl, ← hentry]

/-- The fields of an edge that the schema accepts. -/
structure EdgeOk (em : Raw) : Prop where
  output : ∀ v, em.lookup "output" = some v → ∃ s, v = .str s
  retry : ∀ v, em.lookup "retry" = some v → ∃ fields, v = .obj fields

private theorem edgeOk_of_schema {v : Json} (h : edgeSchema v = true) : ∃ em, v = .obj em ∧ EdgeOk em := by
  obtain ⟨em, rfl, hem⟩ := of_objectWith h
  simp only [Bool.and_eq_true] at hem
  obtain ⟨⟨⟨⟨-, houtput⟩, -⟩, hretry⟩, -⟩ := hem
  refine ⟨em, rfl, fun v hv => of_isString (of_property houtput hv), fun v hv => ?_⟩
  obtain ⟨fields, hfields, -⟩ := of_objectWith (of_property hretry hv)
  exact ⟨fields, hfields⟩

private theorem mapStrVal_objFields (v : Json) (key : String) : mapStrVal (objFields v) key = strOf (v.field key) := by
  cases v <;> rfl

/-- The engine reads the retry policy of an edge as before it was saved. -/
private theorem parseRetry_saveEdge (N : Numbers) {em : Raw} (h : EdgeOk em) :
    parseRetry N (objFields (saveEdge (.obj em))) = parseRetry N em := by
  have hretry : (objFields (saveEdge (.obj em))).lookup "retry" = em.lookup "retry" := by
    show (saveEdge (.obj em)).field "retry" = _
    rw [saveEdge_retry, Json.field_obj]
    cases hv : em.lookup "retry" with
    | none => rfl
    | some v =>
      obtain ⟨fields, rfl⟩ := h.retry v hv
      rfl
  have hfrom : mapStrVal (objFields (saveEdge (.obj em))) "from" = mapStrVal em "from" := by
    rw [mapStrVal_objFields, saveEdge_from]
    exact (mapStrVal_objFields (.obj em) "from").symm
  have hto : mapStrVal (objFields (saveEdge (.obj em))) "to" = mapStrVal em "to" := by
    rw [mapStrVal_objFields, saveEdge_to]
    exact (mapStrVal_objFields (.obj em) "to").symm
  rw [parseRetry, hretry, hfrom, hto]
  rfl

private theorem output_saveEdge {em : Raw} (h : EdgeOk em) {output output' : String}
    (ho : mapStrVal (objFields (saveEdge (.obj em))) "output" = output) (ho' : mapStrVal em "output" = output') :
    (if output = "" then "success" else output) = if output' = "" then "success" else output' := by
  rw [mapStrVal_objFields, saveEdge_output, Json.field_obj] at ho
  rw [show mapStrVal em "output" = strOf (em.lookup "output") from mapStrVal_objFields (.obj em) "output"] at ho'
  cases hv : em.lookup "output" with
  | none =>
    rw [hv] at ho ho'
    rw [← ho, ← ho']
    rfl
  | some v =>
    obtain ⟨s, rfl⟩ := h.output v hv
    rw [hv] at ho ho'
    by_cases hs : s = "" ∨ s = "success"
    · rcases hs with rfl | rfl
      · rw [← ho, ← ho']
        rfl
      · rw [← ho, ← ho']
        rfl
    · rw [not_or] at hs
      have hkeep : keepOutput (some (.str s)) = some (.str s) := by simp [keepOutput, keep, truthy, hs.1, hs.2]
      rw [hkeep] at ho
      rw [← ho, ← ho']

private theorem saveEdge_obj (v : Json) : saveEdge v = .obj (objFields (saveEdge v)) := rfl

private theorem saveNode_obj (v : Json) : saveNode v = .obj (objFields (saveNode v)) := rfl

/-- The engine reads the edges as before they were saved. -/
private theorem parseEdges_saveEdge (N : Numbers) {items : List Json} (h : ∀ v ∈ items, edgeSchema v = true) :
    (∀ err, parseEdges N items = .error err → parseEdges N (items.map saveEdge) = .error err) ∧
      ∀ edges, parseEdges N items = .ok edges → ∃ edges', parseEdges N (items.map saveEdge) = .ok edges' ∧
        edges'.map effective = edges.map effective := by
  induction items with
  | nil =>
    refine ⟨fun err herr => ?_, fun edges hedges => ⟨[], rfl, ?_⟩⟩
    · cases herr
    · cases hedges
      rfl
  | cons v items ih =>
    obtain ⟨hv, hrest⟩ := List.forall_mem_cons.mp h
    obtain ⟨em, rfl, hem⟩ := edgeOk_of_schema hv
    obtain ⟨iherr, ihok⟩ := ih hrest
    rw [List.map_cons, saveEdge_obj, parseEdges, parseEdges, parseRetry_saveEdge N hem]
    cases hretry : parseRetry N em with
    | error err =>
      refine ⟨fun err' herr => herr, fun edges hedges => ?_⟩
      cases hedges
    | ok retry =>
      cases hitems : parseEdges N items with
      | error err =>
        simp only [iherr err hitems]
        refine ⟨fun err' herr => herr, fun edges hedges => ?_⟩
        cases hedges
      | ok edges =>
        obtain ⟨edges', hedges', heffective⟩ := ihok edges hitems
        simp only [hedges']
        refine ⟨fun err herr => ?_, fun all hall => ⟨_, rfl, ?_⟩⟩
        · cases herr
        · cases hall
          rw [List.map_cons, List.map_cons, heffective, effective, effective, Engine.EdgeConfig.outputName,
            Engine.EdgeConfig.outputName, output_saveEdge hem rfl rfl, mapStrVal_objFields, mapStrVal_objFields,
            saveEdge_from, saveEdge_to]
          rfl

private theorem parseEdges_error_iff (N : Numbers) (items : List Json) :
    (∃ err, parseEdges N items = .error err) ↔ ∃ em, .obj em ∈ items ∧ ∃ err, parseRetry N em = .error err := by
  induction items with
  | nil => simp [parseEdges]
  | cons v items ih =>
    cases v with
    | obj em =>
      rw [parseEdges]
      cases hretry : parseRetry N em with
      | error err => exact ⟨fun _ => ⟨em, List.mem_cons_self, err, hretry⟩, fun _ => ⟨err, rfl⟩⟩
      | ok retry =>
        have hcons : (∃ em', .obj em' ∈ .obj em :: items ∧ ∃ err, parseRetry N em' = .error err) ↔
            ∃ em', .obj em' ∈ items ∧ ∃ err, parseRetry N em' = .error err := by
          refine ⟨fun ⟨em', hmem, err, herr⟩ => ?_, fun ⟨em', hmem, herr⟩ => ⟨em', List.mem_cons_of_mem _ hmem, herr⟩⟩
          rcases List.mem_cons.mp hmem with heq | hmem
          · cases heq
            rw [hretry] at herr
            cases herr
          · exact ⟨em', hmem, err, herr⟩
        rw [hcons, ← ih]
        cases hitems : parseEdges N items with
        | error err => simp
        | ok edges => simp
    | null | bool _ | num _ | str _ | arr _ =>
      rw [parseEdges]
      · rw [ih]
        simp
      · simp

/-! ### The whole file -/

/-- The workflow that is loaded from a file. -/
private theorem normalizeWorkflow_eq {raw fields : Raw} {items : List Json}
    (hnodes : raw.lookup "nodes" = some (.obj fields))
    (hedges : raw.lookup "edges" = some (.arr items)) (hfields : ∀ e ∈ fields, e.2 ≠ .null)
    (hitems : ∀ v ∈ items, v ≠ .null) :
    normalizeWorkflow raw = some ⟨raw.lookup "description", raw.lookup "version",
      fields.map fun e => loadNode e.1 e.2, items.map loadEdge⟩ := by
  have hnode : ∀ e ∈ fields, normalizeNode e.1 e.2 = some (loadNode e.1 e.2) := by
    intro e he
    cases hv : e.2 with
    | null => exact absurd hv (hfields e he)
    | _ => rfl
  have hedge : ∀ v ∈ items, normalizeEdge v = some (loadEdge v) := by
    intro v hv
    cases v with
    | null => exact absurd rfl (hitems .null hv)
    | _ => rfl
  rw [normalizeWorkflow, hnodes, hedges]
  simp only [Outcome.mapM_some hnode, Outcome.mapM_some hedge]
  rfl

/-- To load what was saved and to save it again changes nothing. -/
theorem resave (description version : Option Json) (fields : Raw) (items : List Json) (raw : Raw)
    {wf : WorkflowConfig}
    (hwf : wf = ⟨description, version, fields.map fun e => loadNode e.1 e.2, items.map loadEdge⟩) :
    ∃ wf', normalizeWorkflow (denormalizeWorkflow wf raw) = some wf' ∧
      denormalizeWorkflow wf' (denormalizeWorkflow wf raw) = denormalizeWorkflow wf raw := by
  have hmap : wf.nodesMap = JsObject.fill ((savedNodes fields).filter fun e => e.1 ≠ "__proto__") [] := by
    rw [hwf, nodesMap_load]
  have hsaved : ∀ e ∈ wf.nodesMap, e.1 ≠ "__proto__" ∧ saveNode e.2 = e.2 := by
    intro e he
    rw [hmap] at he
    rcases JsObject.mem_fill he with he | he
    · cases he
    · obtain ⟨hmem, hne⟩ := List.mem_filter.mp he
      obtain ⟨e', -, rfl⟩ := List.mem_map.mp hmem
      exact ⟨of_decide_eq_true hne, saveNode_saveNode _⟩
  have hedges : wf.edges.map WorkflowEdge.entry = items.map saveEdge := by
    rw [hwf, List.map_map]
    rfl
  refine ⟨_, normalizeWorkflow_eq (denormalizeWorkflow_nodes wf raw) (denormalizeWorkflow_edges wf raw) ?_ ?_, ?_⟩
  · intro e he hnull
    rw [← (hsaved e he).2] at hnull
    cases hnull
  · intro v hv hnull
    rw [hedges] at hv
    obtain ⟨v, -, rfl⟩ := List.mem_map.mp hv
    cases hnull
  · refine (denormalizeWorkflow_congr ?_ _).trans (denormalizeWorkflow_idem wf raw)
    simp only [WorkflowConfig.contents, Prod.mk.injEq]
    refine ⟨?_, ?_, ?_, ?_⟩
    · -- the nodes are in the order in which they are enumerated
      rw [nodesMap_load]
      have hfixed : (savedNodes wf.nodesMap).filter (fun e => e.1 ≠ "__proto__") = wf.nodesMap := by
        have hid : savedNodes wf.nodesMap = wf.nodesMap := by
          have hcongr : savedNodes wf.nodesMap = wf.nodesMap.map id :=
            List.map_congr_left fun e he => Prod.ext rfl (hsaved e he).2
          rw [hcongr, List.map_id]
        rw [hid, List.filter_eq_self]
        exact fun e he => decide_eq_true (hsaved e he).1
      rw [hfixed]
      exact JsObject.fill_of_enumerated (by rw [List.nil_append, hmap]; exact JsObject.enumerated_fill _ .nil)
    · rw [hedges, List.map_map, List.map_map]
      refine List.map_congr_left fun v _ => ?_
      exact saveEdge_saveEdge v
    · rw [denormalizeWorkflow_description, Option.filter_filter]
      simp
    · rw [denormalizeWorkflow_version, Option.filter_filter]
      simp

private theorem of_workflowSchema {raw : Raw} (h : workflowSchema raw = true) :
    raw.lookup "nodes" = some (.obj (nodeFields raw)) ∧ raw.lookup "edges" = some (.arr (edgeItems raw)) ∧
      (∀ e ∈ nodeFields raw, nodeSchema e.2 = true) ∧ ∀ v ∈ edgeItems raw, edgeSchema v = true := by
  simp only [workflowSchema, Bool.and_eq_true] at h
  obtain ⟨⟨⟨-, hnodes⟩, hedges⟩, hrequired⟩ := h
  have hsome : ∀ key ∈ ["id", "nodes", "edges"], (raw.lookup key).isSome = true := List.all_eq_true.mp hrequired
  obtain ⟨nodes, hlookup⟩ := Option.isSome_iff_exists.mp (hsome "nodes" (by decide))
  obtain ⟨edges, hlookup'⟩ := Option.isSome_iff_exists.mp (hsome "edges" (by decide))
  obtain ⟨fields, rfl, hfields⟩ := of_objectWith (of_property hnodes hlookup)
  have hitems := of_property hedges hlookup'
  cases edges with
  | arr items =>
    have hnf : nodeFields raw = fields := by rw [nodeFields, hlookup]
    have hei : edgeItems raw = items := by rw [edgeItems, hlookup']
    rw [hnf, hei]
    exact ⟨hlookup, hlookup', List.all_eq_true.mp hfields, List.all_eq_true.mp hitems⟩
  | _ => cases hitems

section Engine

variable (N : Numbers) (id : String)

/-- What the engine reads from a file whose nodes are objects. -/
private theorem parseWorkflowFromMap_eq {raw fields : Raw} {items : List Json}
    (hnodes : raw.lookup "nodes" = some (.obj fields))
    (hedges : raw.lookup "edges" = some (.arr items)) (hfields : ∀ e ∈ fields, ∃ nm, e.2 = .obj nm) :
    (∀ err, parseEdges N items = .error err → parseWorkflowFromMap N id raw = .error err) ∧
      ∀ edges, parseEdges N items = .ok edges → ∃ wf, parseWorkflowFromMap N id raw = .ok wf ∧ wf.id = id ∧
        wf.timeout = mapStrVal raw "timeout" ∧ wf.edges = edges ∧
        ∀ n, wf.nodes.lookup n = (fields.lookup n).map fun v => parseNode N (objFields v) := by
  have hparse := parseNodes_ok N hfields
  constructor
  · intro err herr
    simp only [parseWorkflowFromMap, hnodes, hedges, hparse, herr]
  · intro edges hok
    simp only [parseWorkflowFromMap, hnodes, hedges, hparse, hok]
    refine ⟨_, rfl, rfl, rfl, rfl, fun n => ?_⟩
    rw [GoMap.lookup_ofPairs]
    exact Assoc.lookup_map (fun v => parseNode N (objFields v)) n

/-- The nodes that the engine reads from the saved file. -/
private theorem parseNode_savedNodes {fields : Raw} (hnodup : (fields.map Prod.fst).Nodup)
    (hfields : ∀ e ∈ fields, nodeSchema e.2 = true) (n : String) :
    ((JsObject.fill ((savedNodes fields).filter fun e => e.1 ≠ "__proto__") []).lookup n).map
        (fun v => parseNode N (objFields v)) =
      if n = "__proto__" then none else (fields.lookup n).map fun v => parseNode N (objFields v) := by
  rw [lookup_savedNodes hnodup]
  by_cases hn : n = "__proto__"
  · rw [if_pos hn, if_pos hn]
    rfl
  · rw [if_neg hn, if_neg hn, Option.map_map]
    cases hv : fields.lookup n with
    | none => rfl
    | some v =>
      obtain ⟨nm, rfl, hnm⟩ := nodeOk_of_schema (hfields _ (Assoc.mem_of_lookup hv))
      exact congrArg some (parseNode_saveNode N hnm)

/-- Two workflows with the same edges, where one lacks the node `__proto__`. -/
private theorem sameWorkflow_iff {read read' : Engine.WorkflowConfig} (hid : read'.id = read.id)
    (htimeout : read'.timeout = read.timeout) (hedges : read'.edges.map effective = read.edges.map effective)
    (hnodes : ∀ n, read'.nodes.lookup n = if n = "__proto__" then none else read.nodes.lookup n) :
    SameWorkflow read' read ↔ read.nodes.lookup "__proto__" = none := by
  constructor
  · intro hsame
    have hlookup := hsame.nodes "__proto__"
    rw [hnodes, if_pos rfl] at hlookup
    exact hlookup.symm
  · intro h
    refine ⟨hid, htimeout, fun n => ?_, hedges⟩
    rw [hnodes]
    by_cases hn : n = "__proto__"
    · rw [if_pos hn, hn, h]
    · rw [if_neg hn]

variable {raw : Raw} (hschema : workflowSchema raw = true) (hobject : ((nodeFields raw).map Prod.fst).Nodup)
  {wf : WorkflowConfig}
  (hwf : wf = ⟨raw.lookup "description", raw.lookup "version", (nodeFields raw).map fun e => loadNode e.1 e.2,
    (edgeItems raw).map loadEdge⟩)

include hschema hobject hwf in
/-- The engine reads the same from the saved file if and only if there is no node `__proto__`, or an error anyway. -/
private theorem sameResult_iff :
    SameResult (parseWorkflowFromMap N id (denormalizeWorkflow wf raw)) (parseWorkflowFromMap N id raw) ↔
      "__proto__" ∉ (nodeFields raw).map Prod.fst ∨
        ∃ em, .obj em ∈ edgeItems raw ∧ ∃ err, parseRetry N em = .error err := by
  obtain ⟨hnodes, hedges, hfields, hitems⟩ := of_workflowSchema hschema
  have hobj : ∀ e ∈ nodeFields raw, ∃ nm, e.2 = .obj nm := by
    intro e he
    obtain ⟨nm, hnm, -⟩ := nodeOk_of_schema (hfields e he)
    exact ⟨nm, hnm⟩
  have hmap : wf.nodesMap = JsObject.fill ((savedNodes (nodeFields raw)).filter fun e => e.1 ≠ "__proto__") [] := by
    rw [hwf, nodesMap_load]
  have hobj' : ∀ e ∈ wf.nodesMap, ∃ nm, e.2 = .obj nm := by
    intro e he
    rw [hmap] at he
    rcases JsObject.mem_fill he with he | he
    · cases he
    · obtain ⟨e', -, rfl⟩ := List.mem_map.mp (List.mem_filter.mp he).1
      exact ⟨_, saveNode_obj _⟩
  have hedges' : (denormalizeWorkflow wf raw).lookup "edges" = some (.arr ((edgeItems raw).map saveEdge)) := by
    rw [denormalizeWorkflow_edges, hwf, List.map_map]
    rfl
  obtain ⟨herror, hok⟩ := parseWorkflowFromMap_eq N id hnodes hedges hobj
  obtain ⟨herror', hok'⟩ := parseWorkflowFromMap_eq N id (denormalizeWorkflow_nodes wf raw) hedges' hobj'
  obtain ⟨hsaveError, hsaveOk⟩ := parseEdges_saveEdge N hitems
  rw [← parseEdges_error_iff]
  cases hparse : parseEdges N (edgeItems raw) with
  | error err =>
    rw [herror err hparse, herror' err (hsaveError err hparse)]
    exact ⟨fun _ => .inr ⟨err, rfl⟩, fun _ => rfl⟩
  | ok edges =>
    obtain ⟨edges', hparse', heffective⟩ := hsaveOk edges hparse
    obtain ⟨read, hread, hid, htimeout, hread_edges, hread_nodes⟩ := hok edges hparse
    obtain ⟨read', hread', hid', htimeout', hread_edges', hread_nodes'⟩ := hok' edges' hparse'
    have hnone : ∀ n, read'.nodes.lookup n = if n = "__proto__" then none else read.nodes.lookup n := by
      intro n
      rw [hread_nodes', hread_nodes, hmap, parseNode_savedNodes N hobject hfields]
    have hproto : read.nodes.lookup "__proto__" = none ↔ "__proto__" ∉ (nodeFields raw).map Prod.fst := by
      rw [hread_nodes, Option.map_eq_none_iff, Assoc.lookup_eq_none, List.mem_map]
      constructor
      · intro h hmem
        obtain ⟨⟨n, v⟩, hmem, hn⟩ := hmem
        have hn : n = "__proto__" := hn
        exact h v (hn ▸ hmem)
      · exact fun h v hmem => h ⟨_, hmem, rfl⟩
    have hsameTimeout : read'.timeout = read.timeout := by
      rw [htimeout', htimeout, mapStrVal, lookup_denormalizeWorkflow wf raw (by decide)]
      rfl
    have hsameEdges : read'.edges.map effective = read.edges.map effective := by
      rw [hread_edges', hread_edges, heffective]
    have hsame := sameWorkflow_iff (hid'.trans hid.symm) hsameTimeout hsameEdges hnone
    rw [hread, hread', ← hproto]
    constructor
    · exact fun h => .inl (hsame.mp h)
    · intro h
      rcases h with h | ⟨err, herr⟩
      · exact hsame.mpr h
      · cases herr

end Engine

/-- A workflow that the schema accepts comes through loading and saving with its meaning, and is saved the same way the
next time, if and only if it has no node with the id `__proto__` or has a retry policy that the engine rejects. -/
theorem roundTrip_iff (N : Numbers) (id : String) (raw : Raw) (hschema : workflowSchema raw = true)
    (hobject : ((nodeFields raw).map Prod.fst).Nodup) :
    RoundTrip N id raw ↔ "__proto__" ∉ (nodeFields raw).map Prod.fst ∨
      ∃ em, .obj em ∈ edgeItems raw ∧ ∃ err, parseRetry N em = .error err := by
  obtain ⟨hnodes, hedges, hfields, hitems⟩ := of_workflowSchema hschema
  have hload := normalizeWorkflow_eq hnodes hedges
    (fun e he hnull => by
      obtain ⟨nm, hnm, -⟩ := nodeOk_of_schema (hfields e he)
      rw [hnull] at hnm
      cases hnm)
    (fun v hv hnull => by
      obtain ⟨em, hem, -⟩ := edgeOk_of_schema (hitems v hv)
      rw [hnull] at hem
      cases hem)
  rw [← sameResult_iff N id hschema hobject rfl]
  constructor
  · intro h
    obtain ⟨wf, hwf, hsame, -⟩ := h
    rw [hload] at hwf
    obtain rfl := Option.some.inj hwf
    exact hsame
  · intro h
    exact ⟨_, hload, h, resave _ _ _ _ raw rfl⟩

/-- Integers as they are, and strings. -/
def plainNumbers : Numbers := ⟨fun q => q.num.tdiv q.den, fun q => q.num.tdiv q.den, fun v => v.asStr.getD ""⟩

/-- Two nodes with empty fields, and an edge with a retry policy. -/
def emptyFields : Raw :=
  [("id", .str "wf"), ("timeout", .str "5s"), ("description", .str ""),
   ("nodes", .obj
    [("b", .obj [("type", .str "log"), ("as", .str ""), ("services", .obj []), ("config", .obj [])]),
     ("1", .obj [("type", .str "http"), ("config", .obj [("url", .str "/")])])]),
   ("edges", .arr
    [.obj [("from", .str "1"), ("output", .str "success"), ("to", .str "b"),
      ("retry", .obj [("attempts", .num 2), ("delay", .str "1s")])]])]

theorem roundTrip_iff_emptyFields : RoundTrip plainNumbers "wf" emptyFields :=
  (roundTrip_iff plainNumbers "wf" emptyFields (by decide +kernel) (by decide)).mpr (.inl (by decide))

/-- A node with the id `__proto__`. -/
def protoNode : Raw :=
  [("id", .str "wf"), ("nodes", .obj [("__proto__", .obj [("type", .str "log")])]), ("edges", .arr [])]

/-- The node is not saved. -/
theorem roundTrip_protoNode :
    ¬ ∀ (N : Numbers) (id : String) (raw : Raw), workflowSchema raw = true → ((nodeFields raw).map Prod.fst).Nodup →
      RoundTrip N id raw := by
  intro h
  have hschema : workflowSchema protoNode = true := by decide +kernel
  have hobject : ((nodeFields protoNode).map Prod.fst).Nodup := by decide
  obtain ⟨wf, hwf, hsame, -⟩ := h plainNumbers "wf" protoNode hschema hobject
  have hload : normalizeWorkflow protoNode = some ⟨protoNode.lookup "description", protoNode.lookup "version",
      (nodeFields protoNode).map fun e => loadNode e.1 e.2, (edgeItems protoNode).map loadEdge⟩ := rfl
  rw [hload, Option.some.injEq] at hwf
  rcases (sameResult_iff plainNumbers "wf" hschema hobject hwf.symm).mp hsame with hno | ⟨em, hem, -⟩
  · exact hno (by decide)
  · cases hem

end Noda.Editor
