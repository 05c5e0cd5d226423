import Noda.Lib.Json

/-!
# Workflows in the editor

A workflow file is an object with the fields `nodes`, `edges`, `description` and `version`, which the editor takes apart
(`normalizeWorkflow`) and puts together again (`denormalizeWorkflow`), and other fields such as `id`, `name` and
`timeout`, which it takes from the file as it was read.

A field that is `undefined` in the source is absent here.  The values that the source casts without a check are kept as
they are; only the id of a node is a string.
-/

namespace Noda.Editor

/-- The content of a file, a `Record<string, unknown>`. -/
abbrev Raw := List (String × Json)

structure WorkflowNode where
  id : String
  type : Option Json
  config : Option Json
  asName : Option Json
  services : Option Json
  position : Option Json
  deriving DecidableEq

structure WorkflowEdge where
  fromNode : Option Json
  output : Json
  toNode : Option Json
  retry : Option Json
  deriving DecidableEq

structure WorkflowConfig where
  description : Option Json
  version : Option Json
  nodes : List WorkflowNode
  edges : List WorkflowEdge
  deriving DecidableEq

/-- `!!v`. -/
def truthy : Option Json → Bool
  | none | some .null => false
  | some (.bool b) => b
  | some (.num n) => n ≠ 0
  | some (.str s) => s ≠ ""
  | some (.arr _) | some (.obj _) => true

/-- `Object.keys(v).length > 0`. -/
def hasKeys : Option Json → Bool
  | some (.obj fields) => !fields.isEmpty
  | some (.arr items) => !items.isEmpty
  | some (.str s) => s ≠ ""
  | _ => false

/-! ### From the file and back -/

/-- A node of the file under its id; to read a field of `null` is an error. -/
def normalizeNode (id : String) : Json → Option WorkflowNode
  | .null => none
  | node =>
    some ⟨id, node.field "type", node.field "config", node.field "as", node.field "services", node.field "position"⟩

mutual

/-- `String(v)`, the property that a value names; a number that is no integer is printed as a fraction here. -/
def propertyKey : Json → String
  | .null => "null"
  | .bool b => toString b
  | .num n => toString n
  | .str s => s
  | .arr items => ",".intercalate (itemKeys items)
  | .obj _ => "[object Object]"

def itemKeys : List Json → List String
  | [] => []
  | .null :: items => "" :: itemKeys items
  | item :: items => propertyKey item :: itemKeys items

end

/-- The id of a node that the file has in an array, as the property that it becomes when the file is saved. -/
def nodeId (node : Json) : String := ((node.field "id").map propertyKey).getD "undefined"

def normalizeEdge : Json → Option WorkflowEdge
  | .null => none
  | edge =>
    let output := match edge.field "output" with
      | none | some .null => .str "success"
      | some output => output
    some ⟨edge.field "from", output, edge.field "to", edge.field "retry"⟩

/-- `normalizeWorkflow`, or an error. -/
def normalizeWorkflow (raw : Raw) : Option WorkflowConfig := do
  let nodes ← match raw.lookup "nodes" with
    | some (.arr items) => items.mapM fun node => normalizeNode (nodeId node) node
    | some (.obj fields) => fields.mapM fun e => normalizeNode e.1 e.2
    | _ => some []
  let edges ← match raw.lookup "edges" with
    | some (.arr items) => items.mapM normalizeEdge
    | _ => some []
  return ⟨raw.lookup "description", raw.lookup "version", nodes, edges⟩

/-- The field, if it is to be set. -/
def optional (key : String) (set : Bool) (value : Option Json) : Raw :=
  if set then (value.map (key, ·)).toList else []

def WorkflowNode.entry (node : WorkflowNode) : Json :=
  .obj (optional "type" true node.type ++ optional "services" (hasKeys node.services) node.services ++
    optional "config" (hasKeys node.config) node.config ++ optional "as" (truthy node.asName) node.asName)

/-- The nodes by their ids; of two nodes with one id the file gets the last one, and of a node `__proto__` nothing. -/
def WorkflowConfig.nodesMap (wf : WorkflowConfig) : Raw :=
  wf.nodes.foldl (fun nodes node => JsObject.assign node.id node.entry nodes) []

def WorkflowEdge.entry (edge : WorkflowEdge) : Json :=
  .obj (optional "from" true edge.fromNode ++ optional "to" true edge.toNode ++
    optional "output" (truthy (some edge.output) && edge.output ≠ .str "success") (some edge.output) ++
    optional "retry" (truthy edge.retry) edge.retry)

/-- A field that is set to a value, or deleted if the value counts as none. -/
def setOrDelete (key : String) (value : Option Json) (result : Raw) : Raw :=
  match value with
  | some v => if truthy (some v) then JsObject.set key v result else JsObject.delete key result
  | none => JsObject.delete key result

def denormalizeWorkflow (wf : WorkflowConfig) (original : Raw) : Raw :=
  setOrDelete "version" wf.version <| setOrDelete "description" wf.description <|
    JsObject.set "edges" (.arr (wf.edges.map WorkflowEdge.entry)) <| JsObject.set "nodes" (.obj wf.nodesMap) original

/-- The fields that the editor puts together from the workflow. -/
def managed : List String := ["nodes", "edges", "description", "version"]

/-- The other fields of the two contents are the same, in whatever order the fields of an object are. -/
def SameFields (raw raw' : Raw) : Prop :=
  ∀ key ∈ raw.map Prod.fst ++ raw'.map Prod.fst, key ∉ managed →
    (raw.lookup key).map Json.sorted = (raw'.lookup key).map Json.sorted

instance (raw raw' : Raw) : Decidable (SameFields raw raw') :=
  inferInstanceAs (Decidable (∀ key ∈ raw.map Prod.fst ++ raw'.map Prod.fst, key ∉ managed → _))

private theorem sameFields_iff {raw raw' : Raw} : SameFields raw raw' ↔
    ∀ key ∉ managed, (raw.lookup key).map Json.sorted = (raw'.lookup key).map Json.sorted := by
  refine ⟨fun h key hkey => ?_, fun h key _ => h key⟩
  by_cases hmem : key ∈ raw.map Prod.fst ++ raw'.map Prod.fst
  · exact h key hmem hkey
  · have hnone : ∀ l : Raw, key ∉ l.map Prod.fst → l.lookup key = none := by
      intro l hl
      rw [List.lookup_eq_none_iff]
      intro e he
      refine bne_iff_ne.2 ?_
      rintro rfl
      exact hl (List.mem_map_of_mem he)
    rw [List.mem_append, not_or] at hmem
    rw [hnone raw hmem.1, hnone raw' hmem.2]

theorem SameFields.refl (raw : Raw) : SameFields raw raw := fun _ _ _ => rfl

theorem SameFields.symm {raw raw' : Raw} (h : SameFields raw raw') : SameFields raw' raw :=
  sameFields_iff.2 fun key hkey => (sameFields_iff.1 h key hkey).symm

theorem SameFields.trans {raw₁ raw₂ raw₃ : Raw} (h : SameFields raw₁ raw₂) (h' : SameFields raw₂ raw₃) :
    SameFields raw₁ raw₃ :=
  sameFields_iff.2 fun key hkey => (sameFields_iff.1 h key hkey).trans (sameFields_iff.1 h' key hkey)

/-! ### What a workflow contributes -/

/-- What a workflow contributes to the file: all but the positions. -/
def WorkflowConfig.contents (wf : WorkflowConfig) : Raw × List Json × Option Json × Option Json :=
  (wf.nodesMap, wf.edges.map WorkflowEdge.entry, wf.description.filter fun v => truthy (some v),
    wf.version.filter fun v => truthy (some v))

private theorem setOrDelete_filter (key : String) (value : Option Json) (result : Raw) :
    setOrDelete key (value.filter fun v => truthy (some v)) result = setOrDelete key value result := by
  cases value with
  | none => rfl
  | some v =>
    rw [Option.filter_some]
    cases hv : truthy (some v) with
    | true => rfl
    | false => simp [setOrDelete, hv]

theorem denormalizeWorkflow_congr {wf wf' : WorkflowConfig} (h : wf.contents = wf'.contents) (original : Raw) :
    denormalizeWorkflow wf original = denormalizeWorkflow wf' original := by
  simp only [WorkflowConfig.contents, Prod.mk.injEq] at h
  obtain ⟨hnodes, hedges, hdescription, hversion⟩ := h
  unfold denormalizeWorkflow
  rw [hnodes, hedges, ← setOrDelete_filter "description" wf.description, hdescription, setOrDelete_filter,
    ← setOrDelete_filter "version" wf.version, hversion, setOrDelete_filter]

private theorem lookup_setOrDelete_of_ne {key key' : String} (value : Option Json) (result : Raw) (h : key' ≠ key) :
    (setOrDelete key value result).lookup key' = result.lookup key' := by
  unfold setOrDelete
  split
  · split_ifs
    · exact JsObject.lookup_set_of_ne _ _ h
    · exact JsObject.lookup_delete_of_ne _ h
  · exact JsObject.lookup_delete_of_ne _ h

private theorem lookup_setOrDelete_self (key : String) (value : Option Json) (result : Raw) :
    (setOrDelete key value result).lookup key = value.filter fun v => truthy (some v) := by
  unfold setOrDelete
  split
  · rename_i v
    rw [Option.filter_some]
    split_ifs
    · exact JsObject.lookup_set_self _ _ _
    · exact JsObject.lookup_delete_self _ _
  · exact JsObject.lookup_delete_self _ _

private theorem setOrDelete_of_lookup {key : String} {value : Option Json} {result : Raw}
    (hkey : JsObject.arrayIndex key = none) (h : result.lookup key = value.filter fun v => truthy (some v)) :
    setOrDelete key value result = result := by
  unfold setOrDelete
  split
  · rename_i v
    rw [Option.filter_some] at h
    split_ifs at h ⊢
    · exact JsObject.set_of_lookup hkey h
    · exact JsObject.delete_of_lookup h
  · exact JsObject.delete_of_lookup h

theorem nodesMap_eq_fill (wf : WorkflowConfig) :
    wf.nodesMap = JsObject.fill ((wf.nodes.map fun n => (n.id, n.entry)).filter fun e => e.1 ≠ "__proto__") [] := by
  rw [← JsObject.foldl_assign, WorkflowConfig.nodesMap, List.foldl_map]

section Denormalize

variable (wf : WorkflowConfig) (original : Raw)

theorem lookup_denormalizeWorkflow {key : String} (hkey : key ∉ managed) :
    (denormalizeWorkflow wf original).lookup key = original.lookup key := by
  simp only [managed, List.mem_cons, List.not_mem_nil, or_false, not_or] at hkey
  obtain ⟨hnodes, hedges, hdescription, hversion⟩ := hkey
  unfold denormalizeWorkflow
  rw [lookup_setOrDelete_of_ne _ _ hversion, lookup_setOrDelete_of_ne _ _ hdescription,
    JsObject.lookup_set_of_ne _ _ hedges, JsObject.lookup_set_of_ne _ _ hnodes]

theorem denormalizeWorkflow_nodes : (denormalizeWorkflow wf original).lookup "nodes" = some (.obj wf.nodesMap) := by
  unfold denormalizeWorkflow
  rw [lookup_setOrDelete_of_ne _ _ (by decide), lookup_setOrDelete_of_ne _ _ (by decide),
    JsObject.lookup_set_of_ne _ _ (by decide), JsObject.lookup_set_self]

theorem denormalizeWorkflow_edges :
    (denormalizeWorkflow wf original).lookup "edges" = some (.arr (wf.edges.map WorkflowEdge.entry)) := by
  unfold denormalizeWorkflow
  rw [lookup_setOrDelete_of_ne _ _ (by decide), lookup_setOrDelete_of_ne _ _ (by decide), JsObject.lookup_set_self]

theorem denormalizeWorkflow_description :
    (denormalizeWorkflow wf original).lookup "description" = wf.description.filter fun v => truthy (some v) := by
  unfold denormalizeWorkflow
  rw [lookup_setOrDelete_of_ne _ _ (by decide), lookup_setOrDelete_self]

theorem denormalizeWorkflow_version :
    (denormalizeWorkflow wf original).lookup "version" = wf.version.filter fun v => truthy (some v) :=
  lookup_setOrDelete_self _ _ _

theorem sameFields_denormalizeWorkflow : SameFields (denormalizeWorkflow wf original) original := by
  rw [sameFields_iff]
  intro key hkey
  rw [lookup_denormalizeWorkflow wf original hkey]

/-- To put a workflow together with the file that was made of it changes nothing. -/
theorem denormalizeWorkflow_idem :
    denormalizeWorkflow wf (denormalizeWorkflow wf original) = denormalizeWorkflow wf original := by
  rw [denormalizeWorkflow, JsObject.set_of_lookup (by decide) (denormalizeWorkflow_nodes wf original),
    JsObject.set_of_lookup (by decide) (denormalizeWorkflow_edges wf original),
    setOrDelete_of_lookup (by decide) (denormalizeWorkflow_description wf original),
    setOrDelete_of_lookup (by decide) (denormalizeWorkflow_version wf original)]

end Denormalize

/-! ### Edits -/

/-- The edits of the active workflow; the nodes that `removeSelectedNodes` removes are those that are selected. -/
inductive Edit where
  | updateNodeConfig (nodeId : String) (config : Json)
  | updateNodeServices (nodeId : String) (services : Json)
  | renameNode (oldId newId : String)
  | updateNodeAlias (nodeId : String) (newAlias : Option String)
  | addNode (node : WorkflowNode)
  | removeNode (nodeId : String)
  | addEdge (edge : WorkflowEdge)
  | removeEdge (fromNode output toNode : String)
  | updateEdgeRetry (index : Nat) (retry : Option Json)
  | updateWorkflowMeta (description version : Option (Option String))
  | removeSelectedNodes (selected : List String)

def WorkflowConfig.mapNode (wf : WorkflowConfig) (nodeId : String) (f : WorkflowNode → WorkflowNode) : WorkflowConfig :=
  { wf with nodes := wf.nodes.map fun n => if n.id = nodeId then f n else n }

/-- The workflow without some nodes and the edges at them. -/
def WorkflowConfig.without (wf : WorkflowConfig) (ids : List String) : WorkflowConfig :=
  { wf with
    nodes := wf.nodes.filter fun n => n.id ∉ ids
    edges := wf.edges.filter fun e => ∀ id ∈ ids, e.fromNode ≠ some (.str id) ∧ e.toNode ≠ some (.str id) }

/-- An end of an edge after a node was renamed. -/
def renameEnd (oldId newId : String) (v : Option Json) : Option Json :=
  if v = some (.str oldId) then some (.str newId) else v

/-- The workflow after an edit, if the edit does not return at once. -/
def Edit.apply (wf : WorkflowConfig) : Edit → Option WorkflowConfig
  | .updateNodeConfig nodeId config => some (wf.mapNode nodeId fun n => { n with config := some config })
  | .updateNodeServices nodeId services => some (wf.mapNode nodeId fun n => { n with services := some services })
  | .renameNode oldId newId =>
    if newId = "" ∨ oldId = newId ∨ ∃ n ∈ wf.nodes, n.id = newId then none
    else some { wf.mapNode oldId fun n => { n with id := newId } with
      edges := wf.edges.map fun e =>
        { e with fromNode := renameEnd oldId newId e.fromNode, toNode := renameEnd oldId newId e.toNode } }
  | .updateNodeAlias nodeId newAlias => some (wf.mapNode nodeId fun n => { n with asName := newAlias.map .str })
  | .addNode node => some { wf with nodes := wf.nodes ++ [node] }
  | .removeNode nodeId => some (wf.without [nodeId])
  | .addEdge edge =>
    if ∃ e ∈ wf.edges, e.fromNode = edge.fromNode ∧ e.output = edge.output ∧ e.toNode = edge.toNode then none
    else some { wf with edges := wf.edges ++ [edge] }
  | .removeEdge fromNode output toNode =>
    some { wf with edges := wf.edges.filter fun e =>
      ¬(e.fromNode = some (.str fromNode) ∧ e.output = .str output ∧ e.toNode = some (.str toNode)) }
  | .updateEdgeRetry index retry => some { wf with edges := wf.edges.modify index fun e => { e with retry := retry } }
  | .updateWorkflowMeta description version =>
    some { wf with
      description := description.elim wf.description (·.map .str)
      version := version.elim wf.version (·.map .str) }
  | .removeSelectedNodes selected => if selected = [] then none else some (wf.without selected)

/-- `autoLayout`: every node gets a position. -/
def WorkflowConfig.autoLayout (wf : WorkflowConfig) (position : WorkflowNode → Json) : WorkflowConfig :=
  { wf with nodes := wf.nodes.map fun n => { n with position := some (position n) } }

/-- `updateNodePosition`. -/
def WorkflowConfig.updateNodePosition (wf : WorkflowConfig) (nodeId : String) (position : Json) : WorkflowConfig :=
  wf.mapNode nodeId fun n => { n with position := some position }

/-- No node has a position yet. -/
def WorkflowConfig.needsLayout (wf : WorkflowConfig) : Bool :=
  !wf.nodes.isEmpty && wf.nodes.all fun n => !truthy n.position

end Noda.Editor
