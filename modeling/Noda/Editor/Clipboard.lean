import Noda.Editor.Store

/-!
# Copying and pasting nodes

A session of the editor with one file: its nodes are copied, pasted and duplicated, renamed and removed, edges are added
between them, and edits are undone and redone.  A pasted node gets the id of its original with the number of the paste
since the last copy, whether or not another node has that id already.

`session_intact`: in every run in which each paste gives ids that are not taken, and no node has or gets the id
`__proto__`, the ids of the nodes are distinct, every edge connects nodes, and all nodes are saved.
-/

namespace Noda.Editor

open Transition

/-! ### The clipboard -/

structure ClipboardContent where
  nodes : List WorkflowNode
  edges : List WorkflowEdge

/-- The variables of the module. -/
structure Clipboard where
  content : Option ClipboardContent := none
  pasteCounter : Nat := 0

/-- `ids.has(v)`. -/
def hasId (ids : List String) (v : Option Json) : Bool := ids.any fun id => v = some (.str id)

def Clipboard.copyNodes (c : Clipboard) (allNodes : List WorkflowNode) (allEdges : List WorkflowEdge)
    (selectedIds : List String) : Clipboard :=
  if selectedIds = [] then c
  else
    { content := some
        { nodes := allNodes.filter fun n => n.id ∈ selectedIds
          edges := allEdges.filter fun e => hasId selectedIds e.fromNode && hasId selectedIds e.toNode }
      pasteCounter := 0 }

def copyId (pasteCounter : Nat) (id : String) : String := id ++ "_copy_" ++ toString pasteCounter

/-- The end of the copy of an edge. -/
def copyEnd (pasteCounter : Nat) (nodes : List WorkflowNode) : Option Json → Option Json
  | some (.str id) => if id ∈ nodes.map WorkflowNode.id then some (.str (copyId pasteCounter id)) else some (.str id)
  | v => v

section Paste

-- `shift offset position` is the position with the offset added to `x` and `y`
variable (shift : Nat → Json → Json)

def copyNode (pasteCounter : Nat) (n : WorkflowNode) : WorkflowNode :=
  { n with
    id := copyId pasteCounter n.id
    position := if truthy n.position then n.position.map (shift (pasteCounter * 20)) else none }

def copyEdge (pasteCounter : Nat) (nodes : List WorkflowNode) (e : WorkflowEdge) : WorkflowEdge :=
  { e with fromNode := copyEnd pasteCounter nodes e.fromNode, toNode := copyEnd pasteCounter nodes e.toNode }

/-- `pasteNodes`: the nodes and edges to add, and the clipboard afterwards. -/
def Clipboard.pasteNodes (c : Clipboard) : Option ClipboardContent × Clipboard :=
  match c.content with
  | none => (none, c)
  | some content =>
    if content.nodes = [] then (none, c)
    else
      let pasteCounter := c.pasteCounter + 1
      (some
        { nodes := content.nodes.map (copyNode shift pasteCounter)
          edges := content.edges.map (copyEdge pasteCounter content.nodes) },
        { c with pasteCounter := pasteCounter })

/-! ### Sessions -/

structure Session where
  store : State
  clipboard : Clipboard

/-- A file has been loaded, with a workflow that may have been laid out. -/
def Session.start (files : String → Option Raw) (path : String) (raw : Raw) (data : WorkflowConfig) : Session :=
  ⟨(initial files).loaded path raw data, {}⟩

/-- The nodes are added one by one, and then the edges. -/
def ClipboardContent.edits (content : ClipboardContent) : List Edit :=
  content.nodes.map .addNode ++ content.edges.map .addEdge

def Session.copy (s : Session) (ids : List String) : Session :=
  match s.store.activeWorkflow with
  | none => s
  | some wf => { s with clipboard := s.clipboard.copyNodes wf.value.nodes wf.value.edges ids }

def Session.paste (s : Session) : Session :=
  match s.clipboard.pasteNodes shift with
  | (none, clipboard) => { s with clipboard := clipboard }
  | (some content, clipboard) => ⟨content.edits.foldl State.edit s.store, clipboard⟩

/-- `handleDuplicateNode`. -/
def Session.duplicate (s : Session) (ids : List String) : Session :=
  if s.store.activeWorkflow.isNone ∨ ids = [] then s else (s.copy ids).paste shift

def WorkflowConfig.ids (wf : WorkflowConfig) : List String := wf.nodes.map WorkflowNode.id

inductive Op where
  | copy (ids : List String)
  | paste
  | duplicate (ids : List String)
  | edit (e : Edit)
  | undo
  | redo

/-- The edits of a session: nodes are added by pasting only, and edges between nodes only. -/
def Edit.allowed (wf : Option (From WorkflowConfig)) : Edit → Bool
  | .addNode _ => false
  | .addEdge e => wf.all fun wf => hasId wf.value.ids e.fromNode && hasId wf.value.ids e.toNode
  | _ => true

def Session.step (s : Session) : Op → Option Session
  | .copy ids => some (s.copy ids)
  | .paste => some (s.paste shift)
  | .duplicate ids => some (s.duplicate shift ids)
  | .edit e => if e.allowed s.store.activeWorkflow then some { s with store := s.store.edit e } else none
  | .undo => some { s with store := s.store.undo }
  | .redo => some { s with store := s.store.redo }

end Paste

/-! ### What is expected -/

/-- The ids of the nodes are distinct, the edges connect nodes, and as many nodes are saved as there are. -/
structure Intact (wf : WorkflowConfig) : Prop where
  distinct : wf.ids.Nodup
  ends : ∀ e ∈ wf.edges, hasId wf.ids e.fromNode ∧ hasId wf.ids e.toNode
  saved : ∀ original, ∃ nodes, (denormalizeWorkflow wf original).lookup "nodes" = some (.obj nodes) ∧
    nodes.length = wf.nodes.length

/-- The workflow is loaded from a file with its nodes in an object, and its edges refer to nodes. -/
structure Loaded (raw : Raw) (data : WorkflowConfig) : Prop where
  load : ∃ wf, normalizeWorkflow raw = some wf ∧ (data = wf ∨ ∃ position, data = wf.autoLayout position)
  object : ∃ fields, raw.lookup "nodes" = some (.obj fields) ∧ (fields.map Prod.fst).Nodup
  ends : ∀ e ∈ data.edges, hasId data.ids e.fromNode ∧ hasId data.ids e.toNode

/-- The ids of the copies are not taken. -/
def Free (pasteCounter : Nat) (wf : WorkflowConfig) (ids : List String) : Prop :=
  ∀ id ∈ ids, copyId pasteCounter id ∉ wf.ids

instance (pasteCounter : Nat) (wf : WorkflowConfig) (ids : List String) : Decidable (Free pasteCounter wf ids) :=
  inferInstanceAs (Decidable (∀ id ∈ ids, copyId pasteCounter id ∉ wf.ids))

/-- A paste gives ids that are not taken, and no node is renamed to `__proto__`. -/
def safe (s : Session) : Op → Prop
  | .paste => ∀ content ∈ s.clipboard.content, ∀ wf ∈ s.store.activeWorkflow,
      Free (s.clipboard.pasteCounter + 1) wf.value (content.nodes.map WorkflowNode.id)
  | .duplicate ids => ∀ wf ∈ s.store.activeWorkflow, Free 1 wf.value (wf.value.ids.filter (· ∈ ids))
  | .edit (.renameNode _ newId) => newId ≠ "__proto__"
  | _ => True

instance decidableSafe : ∀ (s : Session) (op : Op), Decidable (safe s op)
  | s, .paste => inferInstanceAs (Decidable (∀ content ∈ s.clipboard.content, ∀ wf ∈ s.store.activeWorkflow,
      Free (s.clipboard.pasteCounter + 1) wf.value (content.nodes.map WorkflowNode.id)))
  | s, .duplicate ids => inferInstanceAs (Decidable (∀ wf ∈ s.store.activeWorkflow,
      Free 1 wf.value (wf.value.ids.filter (· ∈ ids))))
  | _, .edit (.renameNode _ newId) => inferInstanceAs (Decidable (newId ≠ "__proto__"))
  | _, .edit (.updateNodeConfig ..) | _, .edit (.updateNodeServices ..) | _, .edit (.updateNodeAlias ..)
  | _, .edit (.addNode _) | _, .edit (.removeNode _) | _, .edit (.addEdge _) | _, .edit (.removeEdge ..)
  | _, .edit (.updateEdgeRetry ..) | _, .edit (.updateWorkflowMeta ..) | _, .edit (.removeSelectedNodes _)
  | _, .copy _ | _, .undo | _, .redo => .isTrue trivial

/-! ### Workflows -/

/-- Distinct ids, edges between them, and no id that is not saved. -/
structure Sound (ids : List String) (edges : List WorkflowEdge) : Prop where
  distinct : ids.Nodup
  ends : ∀ e ∈ edges, hasId ids e.fromNode ∧ hasId ids e.toNode
  named : "__proto__" ∉ ids

private theorem hasId_iff {ids : List String} {v : Option Json} :
    hasId ids v = true ↔ ∃ id ∈ ids, v = some (.str id) := by
  simp [hasId]

private theorem hasId_mono {ids ids' : List String} {v : Option Json} (h : hasId ids v = true) (hsub : ids ⊆ ids') :
    hasId ids' v = true := by
  obtain ⟨id, hid, hv⟩ := hasId_iff.mp h
  exact hasId_iff.mpr ⟨id, hsub hid, hv⟩

theorem Sound.intact {wf : WorkflowConfig} (h : Sound wf.ids wf.edges) : Intact wf := by
  refine ⟨h.distinct, h.ends, fun original => ⟨_, denormalizeWorkflow_nodes wf original, ?_⟩⟩
  have hids : (wf.nodes.map fun n => (n.id, n.entry)).map Prod.fst = wf.ids := by
    rw [List.map_map]
    rfl
  have hfilter : (wf.nodes.map fun n => (n.id, n.entry)).filter (fun e => e.1 ≠ "__proto__") =
      wf.nodes.map fun n => (n.id, n.entry) := by
    rw [List.filter_eq_self]
    intro e he
    have hmem : e.1 ∈ wf.ids := hids ▸ List.mem_map_of_mem he
    exact decide_eq_true fun heq => h.named (heq ▸ hmem)
  have hdistinct : (([] ++ wf.nodes.map fun n : WorkflowNode => (n.id, n.entry)).map Prod.fst).Nodup := by
    rw [List.nil_append, hids]
    exact h.distinct
  have hperm := JsObject.fill_perm hdistinct
  rw [nodesMap_eq_fill, hfilter, hperm.length_eq, List.nil_append, List.length_map]

theorem Sound.mapNode {wf : WorkflowConfig} (h : Sound wf.ids wf.edges) (nodeId : String)
    {f : WorkflowNode → WorkflowNode} (hf : ∀ n, (f n).id = n.id) :
    Sound (wf.mapNode nodeId f).ids (wf.mapNode nodeId f).edges := by
  have hids : (wf.mapNode nodeId f).ids = wf.ids := by
    rw [WorkflowConfig.ids, WorkflowConfig.mapNode, List.map_map]
    refine List.map_congr_left fun n _ => ?_
    show (if n.id = nodeId then f n else n).id = n.id
    split_ifs
    · exact hf n
    · rfl
  rw [hids]
  exact h

theorem Sound.without {wf : WorkflowConfig} (h : Sound wf.ids wf.edges) (ids : List String) :
    Sound (wf.without ids).ids (wf.without ids).edges := by
  have hids : (wf.without ids).ids = wf.ids.filter (· ∉ ids) := by
    rw [WorkflowConfig.ids, WorkflowConfig.ids, WorkflowConfig.without, List.filter_map]
    rfl
  rw [hids]
  refine ⟨h.distinct.filter _, fun e he => ?_, fun hmem => h.named (List.mem_of_mem_filter hmem)⟩
  obtain ⟨he, hkeep⟩ := List.mem_filter.mp he
  have hkeep : ∀ id ∈ ids, e.fromNode ≠ some (.str id) ∧ e.toNode ≠ some (.str id) := of_decide_eq_true hkeep
  obtain ⟨hfrom, hto⟩ := h.ends e he
  obtain ⟨a, ha, hea⟩ := hasId_iff.mp hfrom
  obtain ⟨b, hb, heb⟩ := hasId_iff.mp hto
  refine ⟨hasId_iff.mpr ⟨a, ?_, hea⟩, hasId_iff.mpr ⟨b, ?_, heb⟩⟩
  · exact List.mem_filter.mpr ⟨ha, decide_eq_true fun hmem => (hkeep a hmem).1 hea⟩
  · exact List.mem_filter.mpr ⟨hb, decide_eq_true fun hmem => (hkeep b hmem).2 heb⟩

/-- The id of a node after a node was renamed. -/
def renameId (oldId newId id : String) : String := if id = oldId then newId else id

private theorem hasId_renameEnd {ids : List String} {oldId newId : String} {v : Option Json} (h : hasId ids v = true) :
    hasId (ids.map (renameId oldId newId)) (renameEnd oldId newId v) = true := by
  obtain ⟨id, hid, rfl⟩ := hasId_iff.mp h
  refine hasId_iff.mpr ⟨_, List.mem_map_of_mem hid, ?_⟩
  by_cases hold : id = oldId
  · simp [renameEnd, renameId, hold]
  · simp [renameEnd, renameId, hold]

private theorem nodup_renameId {ids : List String} {oldId newId : String} (h : ids.Nodup) (hnew : newId ∉ ids) :
    (ids.map (renameId oldId newId)).Nodup := by
  refine List.Nodup.map_on (fun a ha b hb hab => ?_) h
  unfold renameId at hab
  split_ifs at hab with h₁ h₂ h₂
  · rw [h₁, h₂]
  · exact absurd (hab ▸ hb) hnew
  · exact absurd (hab ▸ ha) hnew
  · exact hab

private theorem ids_renamed (wf : WorkflowConfig) (oldId newId : String) :
    (wf.mapNode oldId fun n => { n with id := newId }).ids = wf.ids.map (renameId oldId newId) := by
  rw [WorkflowConfig.ids, WorkflowConfig.ids, WorkflowConfig.mapNode, List.map_map, List.map_map]
  refine List.map_congr_left fun n _ => ?_
  by_cases hold : n.id = oldId
  · simp [renameId, hold]
  · simp [renameId, hold]

theorem Sound.rename {ids : List String} {edges : List WorkflowEdge} (h : Sound ids edges) {oldId newId : String}
    (hnew : newId ∉ ids) (hproto : newId ≠ "__proto__") :
    Sound (ids.map (renameId oldId newId)) (edges.map fun e =>
      { e with fromNode := renameEnd oldId newId e.fromNode, toNode := renameEnd oldId newId e.toNode }) := by
  refine ⟨nodup_renameId h.distinct hnew, fun e he => ?_, fun hmem => ?_⟩
  · obtain ⟨e', he', rfl⟩ := List.mem_map.mp he
    obtain ⟨hfrom, hto⟩ := h.ends e' he'
    exact ⟨hasId_renameEnd hfrom, hasId_renameEnd hto⟩
  · obtain ⟨id, hid, heq⟩ := List.mem_map.mp hmem
    unfold renameId at heq
    split_ifs at heq
    · exact hproto heq
    · exact h.named (heq ▸ hid)

theorem Sound.addEdge {ids : List String} {edges : List WorkflowEdge} (h : Sound ids edges) {edge : WorkflowEdge}
    (hends : hasId ids edge.fromNode ∧ hasId ids edge.toNode) : Sound ids (edges ++ [edge]) := by
  refine ⟨h.distinct, fun e he => ?_, h.named⟩
  rcases List.mem_append.mp he with he | he
  · exact h.ends e he
  · rw [List.mem_singleton.mp he]
    exact hends

def Edit.renames : Edit → Option String
  | .renameNode _ newId => some newId
  | _ => none

theorem Sound.apply {wf wf' : WorkflowConfig} (h : Sound wf.ids wf.edges) {path : String} {e : Edit}
    (hallowed : e.allowed (some ⟨path, wf⟩) = true) (hsafe : e.renames ≠ some "__proto__")
    (happly : e.apply wf = some wf') : Sound wf'.ids wf'.edges := by
  cases e with
  | updateNodeConfig nodeId config =>
    obtain rfl := Option.some.inj happly
    exact h.mapNode nodeId fun _ => rfl
  | updateNodeServices nodeId services =>
    obtain rfl := Option.some.inj happly
    exact h.mapNode nodeId fun _ => rfl
  | updateNodeAlias nodeId newAlias =>
    obtain rfl := Option.some.inj happly
    exact h.mapNode nodeId fun _ => rfl
  | renameNode oldId newId =>
    simp only [Edit.apply] at happly
    split_ifs at happly with hstop
    obtain rfl := Option.some.inj happly
    simp only [not_or] at hstop
    have hnew : newId ∉ wf.ids := by
      intro hmem
      obtain ⟨n, hn, hid⟩ := List.mem_map.mp hmem
      exact hstop.2.2 ⟨n, hn, hid⟩
    show Sound (wf.mapNode oldId fun n => { n with id := newId }).ids _
    rw [ids_renamed]
    refine h.rename hnew fun heq => hsafe ?_
    rw [heq]
    rfl
  | addNode node => cases hallowed
  | removeNode nodeId =>
    obtain rfl := Option.some.inj happly
    exact h.without [nodeId]
  | addEdge edge =>
    simp only [Edit.apply] at happly
    split_ifs at happly
    obtain rfl := Option.some.inj happly
    have hends : hasId wf.ids edge.fromNode = true ∧ hasId wf.ids edge.toNode = true := by
      simpa [Edit.allowed] using hallowed
    exact h.addEdge hends
  | removeEdge fromNode output toNode =>
    obtain rfl := Option.some.inj happly
    exact ⟨h.distinct, fun e he => h.ends e (List.mem_of_mem_filter he), h.named⟩
  | updateEdgeRetry index retry =>
    obtain rfl := Option.some.inj happly
    refine ⟨h.distinct, fun e he => ?_, h.named⟩
    obtain ⟨i, hi⟩ := List.mem_iff_getElem?.mp he
    rw [List.getElem?_modify] at hi
    obtain ⟨e', he', rfl⟩ := Option.map_eq_some_iff.mp hi
    have hends := h.ends e' (List.mem_of_getElem? he')
    split_ifs
    · exact hends
    · exact hends
  | updateWorkflowMeta description version =>
    obtain rfl := Option.some.inj happly
    exact h
  | removeSelectedNodes selected =>
    simp only [Edit.apply] at happly
    split_ifs at happly
    obtain rfl := Option.some.inj happly
    exact h.without selected

/-! ### Histories -/

/-- The active workflow and all workflows of the histories have the property. -/
structure Everywhere (P : WorkflowConfig → Prop) (s : State) : Prop where
  active : ∀ wf ∈ s.activeWorkflow, P wf.value
  histories : ∀ path, (s.histories path).All fun wf => P wf.value

section Store

variable {P : WorkflowConfig → Prop} {s : State} {path : String} {wf : From WorkflowConfig}

/-- Another workflow becomes the active one, and the history of the file changes. -/
theorem Everywhere.replace (h : Everywhere P s) {wf' : From WorkflowConfig} {history : History} (hwf : P wf'.value)
    (hhistory : history.All fun wf => P wf.value) :
    Everywhere P (State.debounceSave { s.setHistory path history with activeWorkflow := some wf' }) := by
  obtain ⟨-, hactive, hhistories⟩ :=
    State.debounceSave_fields { s.setHistory path history with activeWorkflow := some wf' }
  refine ⟨fun wf'' hmem => ?_, fun path' => ?_⟩
  · rw [hactive] at hmem
    cases hmem
    exact hwf
  · rw [hhistories]
    show (Function.update s.histories path history path').All _
    by_cases heq : path' = path
    · rw [heq, Function.update_self]
      exact hhistory
    · rw [Function.update_of_ne heq]
      exact h.histories path'

/-- The workflow after an edit; an edit that returns at once leaves it as it is. -/
def Edit.perform (wf : WorkflowConfig) (e : Edit) : WorkflowConfig := (e.apply wf).getD wf

private theorem edit_of_inactive (h : s.active = none) (e : Edit) : s.edit e = s := by
  unfold State.edit
  rw [h]

private theorem foldl_edit_of_inactive (h : s.active = none) (es : List Edit) : es.foldl State.edit s = s := by
  induction es with
  | nil => rfl
  | cons e es ih => rw [List.foldl_cons, edit_of_inactive h, ih]

private theorem edit_active (h : s.active = some (path, wf)) (e : Edit) :
    (s.edit e).active = some (path, ⟨wf.path, e.perform wf.value⟩) := by
  unfold State.edit
  rw [h]
  cases happly : e.apply wf.value with
  | none =>
    simp only [happly, Edit.perform, Option.getD_none]
    exact h
  | some value =>
    simp only [happly, Edit.perform, Option.getD_some]
    obtain ⟨hpath, -⟩ := active_eq_some h
    obtain ⟨hpath', hactive', -⟩ := State.debounceSave_fields
      { s.setHistory path ((s.histories path).pushSnapshot wf) with activeWorkflow := some ⟨wf.path, value⟩ }
    rw [State.active, hpath', hactive']
    simp only [State.setHistory, hpath, if_neg (active_path_ne h)]

theorem Everywhere.edit (h : Everywhere P s) {e : Edit}
    (hedit : ∀ wf ∈ s.activeWorkflow, P wf.value → P (e.perform wf.value)) : Everywhere P (s.edit e) := by
  unfold State.edit
  cases hs : s.active with
  | none => exact h
  | some p =>
    obtain ⟨path, wf⟩ := p
    obtain ⟨-, hwf⟩ := active_eq_some hs
    have hold := h.active wf hwf
    cases happly : e.apply wf.value with
    | none =>
      simp only [happly]
      exact h
    | some value =>
      simp only [happly]
      have hnew := hedit wf hwf hold
      rw [Edit.perform, happly, Option.getD_some] at hnew
      exact h.replace hnew (.pushSnapshot (h.histories path) hold)

/-- Undo and redo bring back a workflow of the history. -/
theorem Everywhere.travel (h : Everywhere P s)
    {move : History → From WorkflowConfig → Option (From WorkflowConfig × History)}
    (hmove : ∀ {history history' : History} {wf wf' : From WorkflowConfig}, (history.All fun wf => P wf.value) →
      P wf.value → move history wf = some (wf', history') → P wf'.value ∧ history'.All fun wf => P wf.value) :
    Everywhere P (s.travel move) := by
  unfold State.travel
  cases hs : s.active with
  | none => exact h
  | some p =>
    obtain ⟨path, wf⟩ := p
    have hold := h.active wf (active_eq_some hs).2
    cases hnext : move (s.histories path) wf with
    | none =>
      simp only [hnext]
      exact h
    | some next =>
      obtain ⟨hwf', hhistory⟩ := hmove (h.histories path) hold hnext
      simp only [hnext]
      exact h.replace hwf' hhistory

/-- Every workflow that the edits lead through has the property. -/
def Along (P : WorkflowConfig → Prop) : WorkflowConfig → List Edit → Prop
  | _, [] => True
  | wf, e :: es => P (e.perform wf) ∧ Along P (e.perform wf) es

theorem Everywhere.edits {edits : List Edit} (h : Everywhere P s)
    (halong : ∀ wf ∈ s.activeWorkflow, Along P wf.value edits) : Everywhere P (edits.foldl State.edit s) := by
  induction edits generalizing s with
  | nil => exact h
  | cons e es ih =>
    rw [List.foldl_cons]
    cases hs : s.active with
    | none =>
      rw [edit_of_inactive hs, foldl_edit_of_inactive hs]
      exact h
    | some p =>
      obtain ⟨path, wf⟩ := p
      have hhead := halong wf (active_eq_some hs).2
      have hedit : Everywhere P (s.edit e) := h.edit fun wf' hwf' _ => (halong wf' hwf').1
      refine ih hedit fun wf' hwf' => ?_
      rw [(active_eq_some (edit_active hs e)).2] at hwf'
      cases hwf'
      exact hhead.2

end Store

/-! ### Pasting -/

private theorem copyId_injective (pasteCounter : Nat) : Function.Injective (copyId pasteCounter) := by
  intro a b h
  have hlist : a.toList ++ ("_copy_" ++ toString pasteCounter).toList =
      b.toList ++ ("_copy_" ++ toString pasteCounter).toList := by
    have := congrArg String.toList h
    simpa [copyId, String.toList_append] using this
  exact String.toList_inj.mp (List.append_cancel_right hlist)

private theorem copyId_ne_proto (pasteCounter : Nat) (id : String) : copyId pasteCounter id ≠ "__proto__" := by
  intro h
  have hmem : 'c' ∈ (copyId pasteCounter id).toList := by
    simp [copyId, String.toList_append]
  rw [h] at hmem
  exact absurd hmem (by decide)

private theorem along_addNodes {wf : WorkflowConfig} {nodes : List WorkflowNode} {es : List Edit}
    (h : Sound wf.ids wf.edges)
    (hnodup : (wf.ids ++ nodes.map WorkflowNode.id).Nodup) (hnamed : ∀ n ∈ nodes, n.id ≠ "__proto__")
    (hrest : ∀ wf' : WorkflowConfig, wf'.ids = wf.ids ++ nodes.map WorkflowNode.id → Sound wf'.ids wf'.edges →
      Along (fun wf => Sound wf.ids wf.edges) wf' es) :
    Along (fun wf => Sound wf.ids wf.edges) wf (nodes.map .addNode ++ es) := by
  induction nodes generalizing wf with
  | nil => exact hrest wf (by simp) h
  | cons n nodes ih =>
    obtain ⟨hn, hnamed⟩ := List.forall_mem_cons.mp hnamed
    have hids : ((Edit.addNode n).perform wf).ids = wf.ids ++ [n.id] := by
      simp [Edit.perform, Edit.apply, WorkflowConfig.ids]
    have hsound : Sound ((Edit.addNode n).perform wf).ids ((Edit.addNode n).perform wf).edges := by
      rw [hids]
      refine ⟨?_, fun e he => ?_, ?_⟩
      · refine hnodup.sublist ?_
        simp
      · obtain ⟨hfrom, hto⟩ := h.ends e he
        exact ⟨hasId_mono hfrom (List.subset_append_left _ _), hasId_mono hto (List.subset_append_left _ _)⟩
      · rw [List.mem_append, List.mem_singleton, not_or]
        exact ⟨h.named, fun heq => hn heq.symm⟩
    refine ⟨hsound, ih hsound ?_ hnamed fun wf' hwf' => hrest wf' ?_⟩
    · rw [hids]
      simpa using hnodup
    · rw [hwf', hids]
      simp

private theorem along_addEdges {wf : WorkflowConfig} {edges : List WorkflowEdge} (h : Sound wf.ids wf.edges)
    (hends : ∀ e ∈ edges, hasId wf.ids e.fromNode ∧ hasId wf.ids e.toNode) :
    Along (fun wf => Sound wf.ids wf.edges) wf (edges.map .addEdge) := by
  induction edges generalizing wf with
  | nil => trivial
  | cons e edges ih =>
    obtain ⟨he, hends⟩ := List.forall_mem_cons.mp hends
    cases happly : (Edit.addEdge e).apply wf with
    | none =>
      have hperform : (Edit.addEdge e).perform wf = wf := by rw [Edit.perform, happly, Option.getD_none]
      rw [List.map_cons, Along, hperform]
      exact ⟨h, ih h hends⟩
    | some wf' =>
      have hperform : (Edit.addEdge e).perform wf = wf' := by rw [Edit.perform, happly, Option.getD_some]
      simp only [Edit.apply] at happly
      split_ifs at happly
      obtain rfl := Option.some.inj happly
      have hsound : Sound wf.ids (wf.edges ++ [e]) := h.addEdge he
      rw [List.map_cons, Along, hperform]
      exact ⟨hsound, ih hsound hends⟩

/-- The copies of a selection. -/
private theorem along_paste (shift : Nat → Json → Json) {wf : WorkflowConfig} {content : ClipboardContent}
    {pasteCounter : Nat}
    (h : Sound wf.ids wf.edges) (hcontent : Sound (content.nodes.map WorkflowNode.id) content.edges)
    (hfree : Free pasteCounter wf (content.nodes.map WorkflowNode.id)) :
    Along (fun wf => Sound wf.ids wf.edges) wf
      (ClipboardContent.edits
        { nodes := content.nodes.map (copyNode shift pasteCounter)
          edges := content.edges.map (copyEdge pasteCounter content.nodes) }) := by
  have hids : (content.nodes.map (copyNode shift pasteCounter)).map WorkflowNode.id =
      (content.nodes.map WorkflowNode.id).map (copyId pasteCounter) := by
    rw [List.map_map, List.map_map]
    rfl
  refine along_addNodes h ?_ ?_ fun wf' hwf' hsound => along_addEdges hsound ?_
  · rw [hids]
    refine List.nodup_append.mpr ⟨h.distinct, hcontent.distinct.map (copyId_injective pasteCounter), ?_⟩
    intro a ha b hb hab
    obtain ⟨id, hid, rfl⟩ := List.mem_map.mp hb
    exact hfree id hid (hab ▸ ha)
  · intro n hn
    obtain ⟨n, -, rfl⟩ := List.mem_map.mp hn
    exact copyId_ne_proto pasteCounter n.id
  · have hend : ∀ v, hasId (content.nodes.map WorkflowNode.id) v = true →
        hasId wf'.ids (copyEnd pasteCounter content.nodes v) = true := by
      intro v hv
      obtain ⟨id, hid, rfl⟩ := hasId_iff.mp hv
      refine hasId_iff.mpr ⟨copyId pasteCounter id, ?_, by rw [copyEnd, if_pos hid]⟩
      rw [hwf', hids]
      exact List.mem_append_right _ (List.mem_map_of_mem hid)
    intro e he
    obtain ⟨e', he', rfl⟩ := List.mem_map.mp he
    obtain ⟨hfrom, hto⟩ := hcontent.ends e' he'
    exact ⟨hend _ hfrom, hend _ hto⟩

/-- What is copied. -/
theorem Sound.copyNodes {wf : WorkflowConfig} (h : Sound wf.ids wf.edges) (selectedIds : List String) :
    Sound ((wf.nodes.filter fun n => n.id ∈ selectedIds).map WorkflowNode.id)
      (wf.edges.filter fun e => hasId selectedIds e.fromNode && hasId selectedIds e.toNode) := by
  have hids : (wf.nodes.filter fun n => n.id ∈ selectedIds).map WorkflowNode.id =
      wf.ids.filter (· ∈ selectedIds) := by
    rw [WorkflowConfig.ids, List.filter_map]
    rfl
  have hend : ∀ v, hasId wf.ids v = true → hasId selectedIds v = true →
      hasId (wf.ids.filter (· ∈ selectedIds)) v = true := by
    intro v hv hselected
    obtain ⟨id, hid, rfl⟩ := hasId_iff.mp hv
    obtain ⟨id', hid', heq⟩ := hasId_iff.mp hselected
    obtain rfl : id = id' := by simpa using heq
    exact hasId_iff.mpr ⟨id, List.mem_filter.mpr ⟨hid, decide_eq_true hid'⟩, rfl⟩
  rw [hids]
  refine ⟨h.distinct.filter _, fun e he => ?_, fun hmem => h.named (List.mem_of_mem_filter hmem)⟩
  obtain ⟨he, hselected⟩ := List.mem_filter.mp he
  rw [Bool.and_eq_true] at hselected
  obtain ⟨hfrom, hto⟩ := h.ends e he
  exact ⟨hend _ hfrom hselected.1, hend _ hto hselected.2⟩

/-! ### Runs -/

structure Session.Inv (s : Session) : Prop where
  store : Everywhere (fun wf => Sound wf.ids wf.edges) s.store
  clipboard : ∀ content ∈ s.clipboard.content, Sound (content.nodes.map WorkflowNode.id) content.edges

section Run

variable {shift : Nat → Json → Json} {s s' : Session}

theorem Session.Inv.copy (h : s.Inv) (ids : List String) : (s.copy ids).Inv := by
  unfold Session.copy
  cases hwf : s.store.activeWorkflow with
  | none => exact h
  | some wf =>
    refine ⟨h.store, fun content hcontent => ?_⟩
    have hcontent : content ∈ (s.clipboard.copyNodes wf.value.nodes wf.value.edges ids).content := hcontent
    by_cases hids : ids = []
    · rw [Clipboard.copyNodes, if_pos hids] at hcontent
      exact h.clipboard content hcontent
    · rw [Clipboard.copyNodes, if_neg hids] at hcontent
      obtain rfl := Option.some.inj hcontent
      exact (h.store.active wf hwf).copyNodes ids

theorem Session.Inv.paste (h : s.Inv) (hsafe : safe s .paste) : (s.paste shift).Inv := by
  unfold Session.paste Clipboard.pasteNodes
  cases hcontent : s.clipboard.content with
  | none => exact ⟨h.store, h.clipboard⟩
  | some content =>
    by_cases hnodes : content.nodes = []
    · simp only [if_pos hnodes]
      exact ⟨h.store, h.clipboard⟩
    · simp only [if_neg hnodes]
      refine ⟨h.store.edits fun wf hwf => ?_, fun content' hcontent' => ?_⟩
      · exact along_paste shift (h.store.active wf hwf) (h.clipboard content hcontent) (hsafe content hcontent wf hwf)
      · obtain rfl := Option.some.inj hcontent'
        exact h.clipboard content hcontent

theorem Session.Inv.duplicate (h : s.Inv) {ids : List String} (hsafe : safe s (.duplicate ids)) :
    (s.duplicate shift ids).Inv := by
  unfold Session.duplicate
  split_ifs with hnone
  · exact h
  · rw [not_or] at hnone
    refine (h.copy ids).paste fun content hcontent wf hwf => ?_
    unfold Session.copy at hcontent hwf ⊢
    cases hactive : s.store.activeWorkflow with
    | none => simp [hactive] at hnone
    | some wf' =>
      simp only [hactive, Clipboard.copyNodes, if_neg hnone.2] at hcontent hwf ⊢
      obtain rfl := Option.some.inj hcontent
      obtain rfl := Option.some.inj hwf
      intro id hid
      refine hsafe wf' hactive id ?_
      rw [WorkflowConfig.ids, List.filter_map]
      exact hid

theorem Session.Inv.step (h : s.Inv) {op : Op} (hsafe : safe s op) (hstep : s.step shift op = some s') : s'.Inv := by
  cases op with
  | copy ids =>
    obtain rfl := Option.some.inj hstep
    exact h.copy ids
  | paste =>
    obtain rfl := Option.some.inj hstep
    exact h.paste hsafe
  | duplicate ids =>
    obtain rfl := Option.some.inj hstep
    exact h.duplicate hsafe
  | edit e =>
    simp only [Session.step] at hstep
    split_ifs at hstep with hallowed
    obtain rfl := Option.some.inj hstep
    refine ⟨h.store.edit fun wf hwf hsound => ?_, h.clipboard⟩
    cases happly : e.apply wf.value with
    | none =>
      rw [Edit.perform, happly, Option.getD_none]
      exact hsound
    | some value =>
      rw [Edit.perform, happly, Option.getD_some]
      rw [hwf] at hallowed
      refine hsound.apply hallowed ?_ happly
      cases e with
      | renameNode oldId newId => exact fun heq => hsafe (Option.some.inj heq)
      | _ => simp [Edit.renames]
  | undo =>
    obtain rfl := Option.some.inj hstep
    exact ⟨h.store.travel History.All.undo, h.clipboard⟩
  | redo =>
    obtain rfl := Option.some.inj hstep
    exact ⟨h.store.travel History.All.redo, h.clipboard⟩

/-- The nodes that are loaded have the keys of their object as ids. -/
private theorem ids_of_mapM {fields : Raw} {nodes : List WorkflowNode}
    (h : (fields.mapM fun e => normalizeNode e.1 e.2) = some nodes) :
    nodes.map WorkflowNode.id = fields.map Prod.fst := by
  induction fields generalizing nodes with
  | nil =>
    cases h
    rfl
  | cons e fields ih =>
    rw [List.mapM_cons] at h
    obtain ⟨n, hn, h⟩ := Option.bind_eq_some_iff.mp h
    obtain ⟨rest, hrest, h⟩ := Option.bind_eq_some_iff.mp h
    cases h
    have hid : n.id = e.1 := by
      cases hv : e.2 <;> rw [hv] at hn <;> cases hn <;> rfl
    rw [List.map_cons, List.map_cons, ih hrest, hid]

theorem Loaded.sound {raw : Raw} {data : WorkflowConfig} (h : Loaded raw data) (hproto : "__proto__" ∉ data.ids) :
    Sound data.ids data.edges := by
  refine ⟨?_, h.ends, hproto⟩
  obtain ⟨wf, hwf, hdata⟩ := h.load
  obtain ⟨fields, hfields, hnodup⟩ := h.object
  have hids : wf.ids = fields.map Prod.fst := by
    rw [normalizeWorkflow, hfields] at hwf
    obtain ⟨nodes, hnodes, hwf⟩ := Option.bind_eq_some_iff.mp hwf
    have hsame : wf.nodes = nodes := by
      dsimp only at hwf
      split at hwf
      · obtain ⟨edges, -, hwf⟩ := Option.bind_eq_some_iff.mp hwf
        cases hwf
        rfl
      · cases hwf
        rfl
    rw [WorkflowConfig.ids, hsame]
    exact ids_of_mapM hnodes
  rcases hdata with rfl | ⟨position, rfl⟩
  · rw [hids]
    exact hnodup
  · have hlayout : (wf.autoLayout position).ids = wf.ids := by
      rw [WorkflowConfig.ids, WorkflowConfig.autoLayout, List.map_map]
      rfl
    rw [hlayout, hids]
    exact hnodup

/-- In every run from a loaded file without a node `__proto__` in which each paste gives ids that are not taken, and no
node is renamed to `__proto__`, the workflow is intact. -/
theorem session_intact (shift : Nat → Json → Json) (files : String → Option Raw) (path : String) {raw : Raw}
    {data : WorkflowConfig} (hload : Loaded raw data) (hproto : "__proto__" ∉ data.ids) {ops : List Op} {s : Session}
    (hrun : run (Session.step shift) (Session.start files path raw data) ops = some s)
    (hsafe : Meets (Session.step shift) safe (Session.start files path raw data) ops) :
    ∀ wf ∈ s.store.activeWorkflow, Intact wf.value := by
  have hstart : (Session.start files path raw data).Inv := by
    refine ⟨⟨fun wf hwf => ?_, fun _ => ⟨fun wf hwf => ?_, fun wf hwf => ?_⟩⟩, fun content hcontent => ?_⟩
    · obtain rfl := Option.some.inj hwf
      exact hload.sound hproto
    · cases hwf
    · cases hwf
    · cases hcontent
  have hinv : s.Inv :=
    run_invariant_of_meets (P := Session.Inv) (fun _ _ _ h hc hstep => h.step hc hstep) hstart hsafe hrun
  exact fun wf hwf => (hinv.store.active wf hwf).intact

end Run

/-- A file with two nodes and an edge. -/
def pairFile : Raw :=
  [("id", .str "wf"), ("nodes", .obj [("a", .obj [("type", .str "log")]), ("b", .obj [("type", .str "log")])]),
   ("edges", .arr [.obj [("from", .str "a"), ("to", .str "b")]])]

def pairData : WorkflowConfig :=
  { description := none
    version := none
    nodes := [⟨"a", some (.str "log"), none, none, none, none⟩, ⟨"b", some (.str "log"), none, none, none, none⟩]
    edges := [⟨some (.str "a"), .str "success", some (.str "b"), none⟩] }

private theorem pairFile_loaded : Loaded pairFile pairData where
  load := ⟨pairData, by decide +kernel, .inl rfl⟩
  object := ⟨_, rfl, by decide⟩
  ends := by decide

def shiftNumbers (offset : Nat) (position : Json) : Json :=
  match position.field "x", position.field "y" with
  | some (.num x), some (.num y) => .obj [("x", .num (x + offset)), ("y", .num (y + offset))]
  | _, _ => position

def editing : List Op :=
  [.copy ["a", "b"], .paste, .paste, .edit (.renameNode "a_copy_1" "c"), .edit (.removeNode "b"), .undo, .redo,
    .duplicate ["c"], .edit (.addEdge ⟨some (.str "c"), .str "error", some (.str "a"), none⟩),
    .edit (.removeSelectedNodes ["b_copy_2", "a"])]

theorem session_intact_editing :
    ∃ s, run (Session.step shiftNumbers) (Session.start (fun _ => none) "wf.json" pairFile pairData) editing = some s ∧
      s.store.activeWorkflow.map (fun wf => wf.value.ids) = some ["c", "b_copy_1", "a_copy_2", "c_copy_1"] ∧
      ∀ wf ∈ s.store.activeWorkflow, Intact wf.value := by
  obtain ⟨s, hrun, hs⟩ := exists_run (Session.step shiftNumbers)
    (Session.start (fun _ => none) "wf.json" pairFile pairData) editing
    (p := fun s => s.store.activeWorkflow.map (fun wf => wf.value.ids) ==
      some ["c", "b_copy_1", "a_copy_2", "c_copy_1"]) (by decide +kernel)
  exact ⟨s, hrun, eq_of_beq hs,
    session_intact shiftNumbers _ _ pairFile_loaded (by decide) hrun (by decide +kernel)⟩

/-- A node that is duplicated twice leaves two nodes with one id. -/
theorem session_not_intact :
    ¬ ∀ (shift : Nat → Json → Json) (files : String → Option Raw) (path : String) (raw : Raw) (data : WorkflowConfig)
      (ops : List Op) (s : Session), Loaded raw data →
      run (Session.step shift) (Session.start files path raw data) ops = some s →
        ∀ wf ∈ s.store.activeWorkflow, Intact wf.value := by
  intro h
  obtain ⟨s, hrun, hs⟩ := exists_run (Session.step shiftNumbers)
    (Session.start (fun _ => none) "wf.json" pairFile pairData) [.duplicate ["a"], .duplicate ["a"]]
    (p := fun s => s.store.activeWorkflow.map (fun wf => wf.value.ids) == some ["a", "b", "a_copy_1", "a_copy_1"])
    (by decide +kernel)
  have hintact := h shiftNumbers (fun _ => none) "wf.json" pairFile pairData _ s pairFile_loaded hrun
  obtain ⟨wf, hwf, hids⟩ := Option.map_eq_some_iff.mp (eq_of_beq hs)
  have hdistinct := (hintact wf hwf).distinct
  rw [hids] at hdistinct
  exact absurd hdistinct (by decide)

end Noda.Editor
