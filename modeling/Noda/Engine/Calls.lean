import Noda.Config.CrossRefs
import Noda.Engine.Cache

/-!
# Workflows that run workflows

The check of the config reads the files, and a run reads the compiled graphs of the cache.  What a node of a cached
graph runs is what the node of the file names (`calls_of_node`), so the checks carry over to the cache: every workflow
that is to be run is found in it, and no workflow runs itself, directly or through others.

* `cached_workflows_run`: this holds after every sequence of reloads of configs that the check accepts.
-/

namespace Noda.Engine

/-! ### From the file to the graph -/

private theorem lookup_toPairs {α : Type} (m : GoMap α) (k : String) : m.toPairs.lookup k = m.lookup k := by
  ext v
  rw [Assoc.lookup_eq_some m.nodup_toPairs, AList.mem_toPairs]

private theorem lookup_toConfig (N : Numbers) (fields : List (String × Json)) (k : String) :
    (toConfig N fields).lookup k = (fields.lookup k).map (toValue N) := by
  induction fields with
  | nil => rfl
  | cons e fields ih =>
    obtain ⟨k', v⟩ := e
    rw [toConfig, List.lookup_cons, List.lookup_cons, ih]
    cases k == k' <;> rfl

private theorem toValue_eq_str {N : Numbers} {v : Json} {s : String} (h : toValue N v = .str s) : v = .str s := by
  cases v with
  | str t =>
    rw [toValue, Value.str.injEq] at h
    rw [h]
  | null | bool | num | arr | obj =>
    rw [toValue] at h
    cases h

/-- The nodes that are read are the objects of the file. -/
private theorem lookup_parseNodes {N : Numbers} {fields : List (String × Json)} {nodes : List (String × NodeConfig)}
    (h : parseNodes N fields = .ok nodes) {n : String} {nc : NodeConfig} (hn : nodes.lookup n = some nc) :
    ∃ nm, fields.lookup n = some (.obj nm) ∧ nc = parseNode N nm := by
  induction fields generalizing nodes with
  | nil =>
    cases h
    cases hn
  | cons e fields ih =>
    obtain ⟨id, v⟩ := e
    cases v with
    | obj nm =>
      rw [parseNodes] at h
      cases hrest : parseNodes N fields with
      | error err =>
        rw [hrest] at h
        cases h
      | ok rest =>
        rw [hrest] at h
        cases h
        rw [List.lookup_cons] at hn ⊢
        by_cases hid : n = id
        · rw [beq_iff_eq.2 hid] at hn ⊢
          cases hn
          exact ⟨nm, rfl, rfl⟩
        · rw [beq_false_of_ne hid] at hn ⊢
          exact ih hrest hn
    | null | bool | num | str | arr => cases h

/-- The entries of `nodes`, if it is an object. -/
def nodesField (raw : List (String × Json)) : List (String × Json) :=
  match raw.lookup "nodes" with
  | some (.obj fields) => fields
  | _ => []

/-- A node of a workflow that is read comes from an object of the file. -/
private theorem parseWorkflow_node {N : Numbers} {id : String} {raw : List (String × Json)} {wf : WorkflowConfig}
    (h : parseWorkflowFromMap N id raw = .ok wf) {n : String} {nc : NodeConfig} (hn : wf.nodes.lookup n = some nc) :
    ∃ nm, (nodesField raw).lookup n = some (.obj nm) ∧ nc = parseNode N nm := by
  have hparts : ∃ nodes, parseNodes N (nodesField raw) = .ok nodes ∧ wf.nodes = GoMap.ofPairs nodes := by
    rw [parseWorkflowFromMap] at h
    split at h
    · cases h
    · rename_i nodes hnodes
      split at h
      · cases h
      · cases h
        exact ⟨nodes, hnodes, rfl⟩
  obtain ⟨nodes, hnodes, heq⟩ := hparts
  rw [heq, GoMap.lookup_ofPairs] at hn
  exact lookup_parseNodes hnodes hn

private theorem compileNodes_nodes {resolver : NodeOutputResolver} {ps : List (String × NodeConfig)}
    {g g' : CompiledGraph}
    (h : compileNodes resolver g ps = .ok g') {n : String} {node : CompiledNode} (hn : g'.nodes.lookup n = some node) :
    g.nodes.lookup n = some node ∨ ∃ nc, (n, nc) ∈ ps ∧ node.type = nc.type ∧ node.config = nc.config := by
  induction ps generalizing g with
  | nil =>
    cases h
    exact .inl hn
  | cons p ps ih =>
    obtain ⟨id, nc⟩ := p
    rw [compileNodes, compileNode] at h
    split at h
    · cases h
    · rename_i g₁ hg₁
      split at hg₁
      · cases hg₁
      · cases hg₁
        rcases ih h with hold | ⟨nc', hmem, hnc'⟩
        · by_cases hid : n = id
          · subst hid
            simp only [AList.lookup_insert, Option.some.injEq] at hold
            subst hold
            exact .inr ⟨nc, List.mem_cons_self .., rfl, rfl⟩
          · rw [AList.lookup_insert_ne hid] at hold
            exact .inl hold
        · exact .inr ⟨nc', List.mem_cons_of_mem _ hmem, hnc'⟩

private theorem compileEdges_nodes {g g' : CompiledGraph} {edges : List EdgeConfig}
    (h : compileEdges g edges = .ok g') :
    g'.nodes = g.nodes := by
  induction edges generalizing g with
  | nil =>
    cases h
    rfl
  | cons edge edges ih =>
    rw [compileEdges] at h
    split at h
    · cases h
    · rename_i g₁ hg₁
      rw [ih h]
      exact (compileEdge_spec hg₁).2.2.1

private theorem compile_node {wf : WorkflowConfig} {resolver : Option NodeOutputResolver} {g : CompiledGraph}
    (h : compile wf resolver = .ok g) {n : String} {node : CompiledNode} (hn : g.nodes.lookup n = some node) :
    ∃ nc, wf.nodes.lookup n = some nc ∧ node.type = nc.type ∧ node.config = nc.config := by
  obtain ⟨timeout, g₁, g₂, st, hnodes, hedges, -, rfl⟩ := compile_stages h
  obtain ⟨jt, jg, jc, hjoin⟩ :=
    computeJoinTypes_fields (classifyNodes g₂) (classifyNodes g₂).nodes.keys (classifyNodes g₂)
  rw [computeJoinTypes, hjoin] at hn
  change g₂.nodes.lookup n = some node at hn
  rw [compileEdges_nodes hedges] at hn
  rcases compileNodes_nodes hnodes hn with hempty | ⟨nc, hmem, hnc⟩
  · simp [emptyGraph] at hempty
  · exact ⟨nc, AList.mem_toPairs.1 hmem, hnc⟩

/-! ### Calls -/

/-- The workflow that `RunExecutor` and `LoopExecutor` read from the config of a node. -/
def CompiledNode.Runs (node : CompiledNode) (target : String) : Prop :=
  (node.type = "workflow.run" ∨ node.type = "control.loop") ∧ node.config.lookup "workflow" = some (.str target)

/-- A node of the graph in the cache under `key` runs `target`. -/
def WorkflowCache.Calls (c : WorkflowCache) (key target : String) : Prop :=
  ∃ g n node, c.get key = some g ∧ g.nodes.lookup n = some node ∧ node.Runs target

variable {N : Numbers} {resolver : Option NodeOutputResolver} {workflows : Config.Section} {c : WorkflowCache}
  {file key target : String} {g : CompiledGraph}

private theorem mapStrVal_eq {m : List (String × Json)} {k s : String} (hs : s ≠ "") (h : mapStrVal m k = s) :
    m.lookup k = some (.str s) := by
  rw [mapStrVal] at h
  split at h
  · rename_i t ht
    rw [ht, h]
  · exact absurd h.symm hs

theorem calls_of_node {raw : Config.AnyMap} (hg : compileFile N resolver file raw = .ok g) {n : String}
    {node : CompiledNode} (hn : g.nodes.lookup n = some node) (hruns : node.Runs target) :
    ∃ m, (Config.nodesOf raw).lookup n = some m ∧ Config.nodeTarget m = some target := by
  rw [compileFile] at hg
  split at hg
  · cases hg
  · rename_i wf hwf
    split at hg
    · cases hg
    · rename_i g' hcompile
      cases hg
      obtain ⟨nc, hnc, htype, hconfig⟩ := compile_node hcompile hn
      obtain ⟨nm, hnm, rfl⟩ := parseWorkflow_node hwf hnc
      obtain ⟨htarget, hworkflow⟩ := hruns
      have hnodes : (Config.nodesOf raw).lookup n = some (GoMap.ofPairs nm) := by
        rw [Config.nodesOf, Config.lookup_filterMapValues, Config.mapField]
        rw [nodesField, lookup_toPairs] at hnm
        split at hnm
        · rename_i fields hfields
          rw [hfields]
          show ((GoMap.ofPairs fields).lookup n).bind Json.asMap = _
          rw [GoMap.lookup_ofPairs, hnm]
          rfl
        · cases hnm
      refine ⟨GoMap.ofPairs nm, hnodes, ?_⟩
      have htype' : ∀ t : String, t ≠ "" → node.type = t → Config.strField (GoMap.ofPairs nm) "type" = some t := by
        intro t ht hnt
        rw [Config.strField, GoMap.lookup_ofPairs, mapStrVal_eq ht (htype.symm.trans hnt)]
        rfl
      have hrun : Config.strField (GoMap.ofPairs nm) "type" = some "workflow.run" ∨
          Config.strField (GoMap.ofPairs nm) "type" = some "control.loop" :=
        htarget.imp (htype' _ (by decide)) (htype' _ (by decide))
      rw [Config.nodeTarget, if_pos hrun, Config.mapField, GoMap.lookup_ofPairs]
      rw [hconfig, parseNode] at hworkflow
      dsimp only at hworkflow
      split at hworkflow
      · rename_i fields hfields
        rw [lookup_toConfig, Option.map_eq_some_iff] at hworkflow
        obtain ⟨v, hv, hstr⟩ := hworkflow
        rw [hfields]
        show Config.strField (GoMap.ofPairs fields) "workflow" = some target
        rw [Config.strField, GoMap.lookup_ofPairs, hv, toValue_eq_str hstr]
        rfl
      · cases hworkflow

theorem Sound.declares_unique (h : Sound N resolver workflows) {file' : String} (hf : Declares workflows file key)
    (hf' : Declares workflows file' key) : file = file' := by
  have hmem : ∀ {f}, Declares workflows f key → f ∈ workflows := fun ⟨_, hraw, _⟩ => AList.mem_of_lookup hraw
  have hnot : ∀ {f f'}, Declares workflows f key → Declares workflows f' key → ¬f < f' := by
    intro f f' hd hd' hlt
    refine h f' (hmem hd') (.inr ⟨f, ?_, key, hd, hd'⟩)
    exact List.mem_filter.2 ⟨AList.mem_keys.1 (hmem hd), decide_eq_true hlt⟩
  exact le_antisymm (not_lt.1 (hnot hf' hf)) (not_lt.1 (hnot hf hf'))

section

variable {R : Config.Readers} {rc : Config.LoadedConfig} (hc : Caches N resolver rc.workflows c)

include hc

theorem Caches.get_of_id {id : String} (hid : id ∈ Config.collectIDs rc.workflows) : ∃ g, c.get id = some g := by
  obtain ⟨file, m, hm, hfield⟩ := Config.mem_collectIDs.1 hid
  have hnot := hc.sound file (AList.mem_of_lookup hm)
  rw [Broken, BrokenAfter, not_or, not_not] at hnot
  obtain ⟨⟨g, hg⟩, -⟩ := hnot
  exact ⟨g, (hc.get_iff id g).2 ⟨file, ⟨m, hm, .inr hfield⟩, hg⟩⟩

/-- What a cached workflow runs is named by the node of a file that declares the workflow's key. -/
theorem Caches.calls_file (h : c.Calls key target) : ∃ file raw n m, rc.workflows.lookup file = some raw ∧
    Declares rc.workflows file key ∧ (Config.nodesOf raw).lookup n = some m ∧ Config.nodeTarget m = some target := by
  obtain ⟨g, n, node, hget, hn, hruns⟩ := h
  obtain ⟨file, hdecl, raw, hraw, hg⟩ := (hc.get_iff key g).1 hget
  obtain ⟨m, hm, htarget⟩ := calls_of_node hg hn hruns
  exact ⟨file, raw, n, m, hraw, hdecl, hm, htarget⟩

variable (haccepted : Config.Accepted R rc)

include haccepted in
theorem Caches.target_mem (h : c.Calls key target) : target ∈ Config.collectIDs rc.workflows := by
  obtain ⟨file, raw, n, m, hraw, -, hm, htarget⟩ := hc.calls_file h
  exact Config.workflowRef_mem haccepted (.node file raw n m hraw hm htarget)

theorem Caches.refers_of_calls (hkey : key ∈ Config.collectIDs rc.workflows) (hne : key ≠ "") (h : c.Calls key target) :
    (Config.wfGraph rc.workflows).Refers key target := by
  obtain ⟨file, raw, n, m, hraw, hdecl, hm, htarget⟩ := hc.calls_file h
  obtain ⟨file', raw', hraw', hid⟩ := Config.mem_collectIDs.1 hkey
  have hsame : file = file' := hc.sound.declares_unique hdecl ⟨raw', hraw', .inr hid⟩
  subst hsame
  rw [hraw] at hraw'
  cases hraw'
  refine Config.refers_wfGraph hraw hid hne ?_
  rw [Config.nodesOf, Config.lookup_filterMapValues] at hm
  obtain ⟨v, hv, hmap⟩ := Option.bind_eq_some_iff.1 hm
  rw [Config.workflowTargets]
  cases hnodes : Config.mapField raw "nodes" with
  | none =>
    rw [hnodes] at hv
    cases hv
  | some nodes =>
    rw [hnodes] at hv
    refine List.mem_filterMap.2 ⟨(n, v), AList.mem_toPairs.2 hv, ?_⟩
    rw [hmap]
    exact htarget

include haccepted in
theorem Caches.chain (hempty : "" ∉ Config.collectIDs rc.workflows) {keys : List String}
    (h : (key :: keys).IsChain c.Calls) : keys.Nodup ∧ keys ⊆ Config.collectIDs rc.workflows := by
  have hsub : keys ⊆ Config.collectIDs rc.workflows := by
    clear hempty
    induction keys generalizing key with
    | nil => exact List.nil_subset _
    | cons k keys ih =>
      obtain ⟨hcall, htail⟩ := List.isChain_cons_cons.1 h
      exact List.cons_subset.2 ⟨hc.target_mem haccepted hcall, ih htail⟩
  refine ⟨?_, hsub⟩
  -- the calls between the workflows of the chain are references of the check
  have hrefers : keys.IsChain (Config.wfGraph rc.workflows).Refers := by
    refine (h.tail).imp_of_mem_imp fun x y hx _ hcall => ?_
    have hid := hsub hx
    exact hc.refers_of_calls hid (fun hx => hempty (hx ▸ hid)) hcall
  have hpair := (hrefers.imp fun x y => Relation.TransGen.single).pairwise
  refine hpair.imp fun {x y} hxy heq => ?_
  subst heq
  exact Config.acyclic_of_accepted haccepted x hxy

end

/-- The configs that are reloaded, as the cache sees them. -/
def workflowsOf (configs : List Config.LoadedConfig) : List Config.Section := configs.map fun rc => rc.workflows

/-- The config that is live after the reloads: its workflows are in the cache, and all configs after it were not
sound. -/
structure LiveConfig (N : Numbers) (resolver : Option NodeOutputResolver) (configs : List Config.LoadedConfig)
    (rc : Config.LoadedConfig) (c : WorkflowCache) : Prop where
  last : ∃ before after, configs = before ++ rc :: after ∧ ∀ rc' ∈ after, ¬Sound N resolver rc'.workflows
  caches : Caches N resolver rc.workflows c

private theorem reload_live {first : Config.LoadedConfig} (h : newWorkflowCache N resolver first.workflows = .ok c)
    (configs : List Config.LoadedConfig) :
    ∃ rc, LiveConfig N resolver (first :: configs) rc (c.reload N resolver (workflowsOf configs)) := by
  obtain ⟨live, ⟨before, after, heq, hafter⟩, hc⟩ := reload_caches (newWorkflowCache_caches h) (workflowsOf configs)
  have hmap : workflowsOf (first :: configs) = before ++ live :: after := heq
  obtain ⟨before', rest, hsplit, -, hrest⟩ := List.map_eq_append_iff.1 hmap
  obtain ⟨rc, after', rfl, rfl, rfl⟩ := List.map_eq_cons_iff.1 hrest
  exact ⟨rc, ⟨before', after', hsplit, fun rc' hrc' => hafter _ (List.mem_map_of_mem hrc')⟩, hc⟩

/-- After a start and any number of reloads of configs that the check accepts, one of them is live, the last one that
could be compiled.  Every workflow that this config names is found in the cache, and so is every workflow that a node of
a cached graph runs.  If no workflow has the empty id, which the check passes over, then a chain of calls runs each
workflow at most once. -/
theorem cached_workflows_run {R : Config.Readers} {first : Config.LoadedConfig}
    (h : newWorkflowCache N resolver first.workflows = .ok c) (configs : List Config.LoadedConfig)
    (hall : ∀ rc ∈ first :: configs, Config.Accepted R rc) :
    ∃ rc, LiveConfig N resolver (first :: configs) rc (c.reload N resolver (workflowsOf configs)) ∧
      (∀ id, Config.WorkflowRef rc id → ∃ g, (c.reload N resolver (workflowsOf configs)).get id = some g) ∧
      (∀ key target, (c.reload N resolver (workflowsOf configs)).Calls key target →
        ∃ g, (c.reload N resolver (workflowsOf configs)).get target = some g) ∧
      ("" ∉ Config.collectIDs rc.workflows →
        ∀ key keys, (key :: keys).IsChain (c.reload N resolver (workflowsOf configs)).Calls →
          keys.Nodup ∧ keys ⊆ Config.collectIDs rc.workflows) := by
  obtain ⟨rc, hlive⟩ := reload_live h configs
  have hc := hlive.caches
  have haccepted : Config.Accepted R rc := by
    obtain ⟨before, after, heq, -⟩ := hlive.last
    refine hall rc ?_
    rw [heq]
    exact List.mem_append_right _ (List.mem_cons_self ..)
  refine ⟨rc, hlive, fun id hid => ?_, fun key target hcall => ?_, fun hempty key keys hchain => ?_⟩
  · exact hc.get_of_id (Config.workflowRef_mem haccepted hid)
  · exact hc.get_of_id (hc.target_mem haccepted hcall)
  · exact hc.chain haccepted hempty hchain

/-- Parsers of Go's library, as far as the samples use them. -/
def sampleReaders : Config.Readers := ⟨Rat.floor, fun _ => "", fun _ => false, fun _ => false⟩

/-- A route to `a`, with these workflow files. -/
def routeToA (workflows : Config.Section) : Config.LoadedConfig where
  root := ∅
  routes := GoMap.ofPairs [("routes/a.json", GoMap.ofPairs [("trigger", .obj [("workflow", .str "a")])])]
  workflows := workflows
  connections := ∅
  workers := ∅
  schedules := ∅

private theorem accepted_callerFiles : Config.Accepted sampleReaders (routeToA callerFiles) := by
  rw [Config.Accepted]
  decide +kernel

private theorem accepted_clashingFiles : Config.Accepted sampleReaders (routeToA clashingFiles) := by
  rw [Config.Accepted]
  decide +kernel

/-- The second config has two files with one id, so the first one stays live and its route is served. -/
theorem cached_workflows_run_clash : ∃ c g, newWorkflowCache sampleNumbers none callerFiles = .ok c ∧
    (c.reload sampleNumbers none [clashingFiles]).get "a" = some g := by
  obtain ⟨c, hc⟩ := exists_callerCache
  have hall : ∀ rc ∈ [routeToA callerFiles, routeToA clashingFiles], Config.Accepted sampleReaders rc := by
    rw [List.forall_mem_cons, List.forall_mem_singleton]
    exact ⟨accepted_callerFiles, accepted_clashingFiles⟩
  have hfirst : newWorkflowCache sampleNumbers none (routeToA callerFiles).workflows = .ok c := hc
  obtain ⟨rc, hlive, hrefs, -⟩ := cached_workflows_run hfirst [routeToA clashingFiles] hall
  have hroute : Config.WorkflowRef rc "a" := by
    obtain ⟨before, after, heq, -⟩ := hlive.last
    have hmem : rc ∈ [routeToA callerFiles, routeToA clashingFiles] := by
      rw [heq]
      exact List.mem_append_right _ (List.mem_cons_self ..)
    rw [List.mem_cons, List.mem_singleton] at hmem
    rcases hmem with rfl | rfl
    · exact .route "routes/a.json" _ (GoMap.lookup_ofPairs _ _) rfl
    · exact .route "routes/a.json" _ (GoMap.lookup_ofPairs _ _) rfl
  obtain ⟨g, hg⟩ := hrefs "a" hroute
  exact ⟨c, g, hc, hg⟩

end Noda.Engine
