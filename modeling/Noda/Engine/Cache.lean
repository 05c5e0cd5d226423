import Mathlib.Data.String.Basic
import Noda.Config.Resolved
import Noda.Engine.Graph
import Noda.Engine.Parse

/-!
# The workflow cache

`WorkflowCache` of `cache.go` holds the compiled graphs.  `buildGraphs` reads and compiles the workflow files in the
order of their names and enters each graph under the name of its file and under its `id`; a name that is entered twice
is an error.  `Invalidate` builds the graphs of a new config and swaps them in only when all of them were built.

* `buildGraphs_spec`: either no file is broken and the index is exactly what the files declare, or the error is about
  the first broken file;
* `cache_after_reloads`: after any number of reloads the cache answers from the last config that could be built, and
  from no other.
-/

namespace Noda.Engine

/-- What is wrong with a workflow. -/
inductive WorkflowFault where
  | parse (id : String) (e : ReadError)
  | compile (id : String) (e : CompileError)
  | duplicate (key prev file : String)

structure WorkflowCompileError where
  file : String
  err : WorkflowFault

/-- The maps that `buildGraphs` fills: the graphs, and for each of their keys the file that declared it. -/
structure GraphIndex where
  graphs : GoMap CompiledGraph := ∅
  source : GoMap String := ∅

/-- The inner function `put`. -/
def GraphIndex.put (b : GraphIndex) (key fileKey : String) (g : CompiledGraph) :
    Except WorkflowCompileError GraphIndex :=
  match b.source.lookup key with
  | some prev => .error ⟨fileKey, .duplicate key prev fileKey⟩
  | none => .ok ⟨b.graphs.insert key g, b.source.insert key fileKey⟩

def sortedWorkflowKeys (workflows : Config.Section) : List String := sortStrings workflows.keys

section

variable (N : Numbers) (resolver : Option NodeOutputResolver)

def compileFile (id : String) (raw : Config.AnyMap) : Except WorkflowFault CompiledGraph :=
  match parseWorkflowFromMap N id raw.toPairs with
  | .error e => .error (.parse id e)
  | .ok wfConfig =>
    match compile wfConfig resolver with
    | .error e => .error (.compile id e)
    | .ok graph => .ok graph

/-- One turn of the loop of `buildGraphs`. -/
def addWorkflow (workflows : Config.Section) (b : GraphIndex) (id : String) :
    Except WorkflowCompileError GraphIndex :=
  let raw := workflows.getD id ∅
  match compileFile N resolver id raw with
  | .error err => .error ⟨id, err⟩
  | .ok graph =>
    match b.put id id graph with
    | .error err => .error err
    | .ok b =>
      match Config.strField raw "id" with
      | some jsonID => if jsonID ≠ id then b.put jsonID id graph else .ok b
      | none => .ok b

def buildGraphs (workflows : Config.Section) : Except WorkflowCompileError (GoMap CompiledGraph) :=
  ((sortedWorkflowKeys workflows).foldlM (addWorkflow N resolver workflows) {}).map GraphIndex.graphs

end

/-! ### What the files declare -/

/-- The file is there and declares the key: its own name, or its `id`. -/
def Declares (workflows : Config.Section) (file key : String) : Prop :=
  ∃ raw, workflows.lookup file = some raw ∧ (key = file ∨ Config.strField raw "id" = some key)

section

variable (N : Numbers) (resolver : Option NodeOutputResolver) (workflows : Config.Section)

def HasGraph (file : String) (g : CompiledGraph) : Prop :=
  ∃ raw, workflows.lookup file = some raw ∧ compileFile N resolver file raw = .ok g

/-- The file cannot be compiled, or declares a key of one of the files. -/
def BrokenAfter (files : List String) (file : String) : Prop :=
  (¬∃ g, HasGraph N resolver workflows file g) ∨
    ∃ file' ∈ files, ∃ key, Declares workflows file' key ∧ Declares workflows file key

/-- The file cannot be compiled, or declares a key that a file before it in the order of the names declares. -/
def Broken (file : String) : Prop := BrokenAfter N resolver workflows (workflows.keys.filter (· < file)) file

/-- The index has what these files declare. -/
structure IndexOk (files : List String) (b : GraphIndex) : Prop where
  graph : ∀ file ∈ files, ∃ g, HasGraph N resolver workflows file g
  source_iff : ∀ key file, b.source.lookup key = some file ↔ file ∈ files ∧ Declares workflows file key
  graphs_iff : ∀ key g, b.graphs.lookup key = some g ↔
    ∃ file ∈ files, Declares workflows file key ∧ HasGraph N resolver workflows file g

end

variable {N : Numbers} {resolver : Option NodeOutputResolver} {workflows : Config.Section} {files : List String}
  {b b' : GraphIndex} {file key : String} {g : CompiledGraph}

/-- The keys under which the graph of a file is entered, in this order. -/
def indexKeys (raw : Config.AnyMap) (id : String) : List String :=
  match Config.strField raw "id" with
  | some jsonID => if jsonID ≠ id then [id, jsonID] else [id]
  | none => [id]

private theorem nodup_indexKeys (raw : Config.AnyMap) (id : String) : (indexKeys raw id).Nodup := by
  rw [indexKeys]
  split
  · split
    · rename_i hne
      exact List.nodup_cons.2 ⟨fun h => hne (List.mem_singleton.1 h).symm, List.nodup_singleton _⟩
    · exact List.nodup_singleton _
  · exact List.nodup_singleton _

private theorem mem_indexKeys {raw : Config.AnyMap} {id : String} :
    key ∈ indexKeys raw id ↔ key = id ∨ Config.strField raw "id" = some key := by
  rw [indexKeys]
  cases Config.strField raw "id" with
  | none => simp
  | some jsonID =>
    by_cases hid : jsonID = id
    · simp only [hid, ne_eq, not_true_eq_false, ↓reduceIte, List.mem_singleton, Option.some.injEq]
      exact ⟨.inl, fun h => h.elim (fun h => h) fun h => h.symm⟩
    · simp only [ne_eq, hid, not_false_eq_true, ↓reduceIte, List.mem_cons, List.not_mem_nil, or_false,
        Option.some.injEq]
      exact or_congr_right eq_comm

/-- The graph is entered under each of its keys. -/
private theorem addWorkflow_eq (b : GraphIndex) (id : String) :
    addWorkflow N resolver workflows b id =
      (match compileFile N resolver id (workflows.getD id ∅) with
      | .error err => .error ⟨id, err⟩
      | .ok graph => (indexKeys (workflows.getD id ∅) id).foldlM (fun b key => b.put key id graph) b) := by
  rw [addWorkflow]
  cases compileFile N resolver id (workflows.getD id ∅) with
  | error err => rfl
  | ok graph =>
    dsimp only
    rw [indexKeys]
    cases Config.strField (workflows.getD id ∅) "id" with
    | none =>
      rw [List.foldlM_cons]
      cases b.put id id graph <;> rfl
    | some jsonID =>
      by_cases hid : jsonID = id
      · simp only [hid, ne_eq, not_true_eq_false, ↓reduceIte, List.foldlM_cons, List.foldlM_nil]
        cases b.put id id graph <;> rfl
      · simp only [ne_eq, hid, not_false_eq_true, ↓reduceIte, List.foldlM_cons, List.foldlM_nil]
        cases b.put id id graph with
        | error err => rfl
        | ok b =>
          show b.put jsonID id graph = b.put jsonID id graph >>= _
          cases b.put jsonID id graph <;> rfl

private theorem lookup_insert_of_mem {α : Type} (m : GoMap α) (v : α) (k key : String) (keys : List String) :
    (if k ∈ keys then some v else (m.insert key v).lookup k) = if k ∈ key :: keys then some v else m.lookup k := by
  by_cases hkk : k = key
  · subst hkk
    simp
  · simp [hkk, AList.lookup_insert_ne hkk]

/-- Keys that are all new are entered. -/
private theorem foldlM_put_ok (file : String) (g : CompiledGraph) {keys : List String} (hkeys : keys.Nodup)
    (hnew : ∀ key ∈ keys, b.source.lookup key = none) :
    ∃ b', keys.foldlM (fun b key => b.put key file g) b = .ok b' ∧
      (∀ k, b'.source.lookup k = if k ∈ keys then some file else b.source.lookup k) ∧
      ∀ k, b'.graphs.lookup k = if k ∈ keys then some g else b.graphs.lookup k := by
  induction keys generalizing b with
  | nil => exact ⟨b, rfl, by simp, by simp⟩
  | cons key keys ih =>
    obtain ⟨hnot, hkeys⟩ := List.nodup_cons.1 hkeys
    have hput : b.put key file g = .ok ⟨b.graphs.insert key g, b.source.insert key file⟩ := by
      rw [GraphIndex.put, hnew key (List.mem_cons_self ..)]
    have hrest : ∀ k ∈ keys, (b.source.insert key file).lookup k = none := by
      intro k hk
      have hne : k ≠ key := fun h => hnot (h ▸ hk)
      rw [AList.lookup_insert_ne hne]
      exact hnew k (List.mem_cons_of_mem _ hk)
    obtain ⟨b', hb', hsource, hgraphs⟩ := ih (b := ⟨b.graphs.insert key g, b.source.insert key file⟩) hkeys hrest
    refine ⟨b', ?_, fun k => ?_, fun k => ?_⟩
    · rw [List.foldlM_cons, hput]
      exact hb'
    · rw [hsource]
      exact lookup_insert_of_mem ..
    · rw [hgraphs]
      exact lookup_insert_of_mem ..

private theorem foldlM_put_error {keys : List String} (hold : ∃ key ∈ keys, b.source.lookup key ≠ none) :
    ∃ err, keys.foldlM (fun b key => b.put key file g) b = .error ⟨file, err⟩ := by
  induction keys generalizing b with
  | nil => simp at hold
  | cons key keys ih =>
    rw [List.foldlM_cons]
    cases hkey : b.source.lookup key with
    | some prev =>
      refine ⟨.duplicate key prev file, ?_⟩
      rw [GraphIndex.put, hkey]
      rfl
    | none =>
      have hput : b.put key file g = .ok ⟨b.graphs.insert key g, b.source.insert key file⟩ := by
        rw [GraphIndex.put, hkey]
      rw [hput]
      refine ih (b := ⟨b.graphs.insert key g, b.source.insert key file⟩) ?_
      obtain ⟨k, hk, hne⟩ := hold
      have hkk : k ≠ key := fun h => hne (h ▸ hkey)
      exact ⟨k, (List.mem_cons.1 hk).resolve_left hkk, by rwa [AList.lookup_insert_ne hkk]⟩

section

variable {raw : Config.AnyMap} (hraw : workflows.lookup file = some raw)

include hraw

private theorem declares_iff : Declares workflows file key ↔ key ∈ indexKeys raw file := by
  rw [mem_indexKeys, Declares, hraw]
  exact ⟨fun ⟨raw', h, h'⟩ => by cases h; exact h', fun h => ⟨raw, rfl, h⟩⟩

private theorem hasGraph_iff : HasGraph N resolver workflows file g ↔ compileFile N resolver file raw = .ok g := by
  rw [HasGraph, hraw]
  exact ⟨fun ⟨raw', h, h'⟩ => by cases h; exact h', fun h => ⟨raw, rfl, h⟩⟩

private theorem addWorkflow_ok (h : IndexOk N resolver workflows files b)
    (hnot : ¬BrokenAfter N resolver workflows files file) :
    ∃ b', addWorkflow N resolver workflows b file = .ok b' ∧ IndexOk N resolver workflows (files ++ [file]) b' := by
  rw [BrokenAfter, not_or, not_not] at hnot
  obtain ⟨⟨g, hg⟩, hclash⟩ := hnot
  have hnew : ∀ key ∈ indexKeys raw file, b.source.lookup key = none := by
    intro key hkey
    by_contra hne
    obtain ⟨file', hfile'⟩ := Option.ne_none_iff_exists'.1 hne
    obtain ⟨hmem, hdecl⟩ := (h.source_iff key file').1 hfile'
    exact hclash ⟨file', hmem, key, hdecl, (declares_iff hraw).2 hkey⟩
  obtain ⟨b', hb', hsource, hgraphs⟩ := foldlM_put_ok file g (nodup_indexKeys raw file) hnew
  have hgetD : workflows.getD file ∅ = raw := AList.getD_of_lookup hraw
  refine ⟨b', ?_, ⟨?_, fun key file' => ?_, fun key g' => ?_⟩⟩
  · rw [addWorkflow_eq, hgetD, (hasGraph_iff hraw).1 hg]
    exact hb'
  · intro file' hfile'
    rcases List.mem_append.1 hfile' with hfile' | hfile'
    · exact h.graph file' hfile'
    · rw [List.mem_singleton.1 hfile']
      exact ⟨g, hg⟩
  · rw [hsource, List.mem_append, List.mem_singleton]
    by_cases hkey : key ∈ indexKeys raw file
    · rw [if_pos hkey, Option.some.injEq]
      constructor
      · rintro rfl
        exact ⟨.inr rfl, (declares_iff hraw).2 hkey⟩
      · rintro ⟨hf | rfl, hdecl⟩
        · exact (hclash ⟨file', hf, key, hdecl, (declares_iff hraw).2 hkey⟩).elim
        · rfl
    · rw [if_neg hkey, h.source_iff]
      refine and_congr_left fun hdecl => ⟨.inl, fun hf => hf.resolve_right ?_⟩
      rintro rfl
      exact hkey ((declares_iff hraw).1 hdecl)
  · rw [hgraphs]
    by_cases hkey : key ∈ indexKeys raw file
    · rw [if_pos hkey, Option.some.injEq]
      constructor
      · rintro rfl
        exact ⟨file, by simp, (declares_iff hraw).2 hkey, hg⟩
      · rintro ⟨file', hf, hdecl, hg'⟩
        rcases List.mem_append.1 hf with hf | hf
        · exact (hclash ⟨file', hf, key, hdecl, (declares_iff hraw).2 hkey⟩).elim
        · rw [List.mem_singleton.1 hf] at hg'
          have hgg := ((hasGraph_iff hraw).1 hg).symm.trans ((hasGraph_iff hraw).1 hg')
          cases hgg
          rfl
    · rw [if_neg hkey, h.graphs_iff]
      constructor
      · rintro ⟨file', hf, hrest⟩
        exact ⟨file', List.mem_append_left _ hf, hrest⟩
      · rintro ⟨file', hf, hdecl, hg'⟩
        rcases List.mem_append.1 hf with hf | hf
        · exact ⟨file', hf, hdecl, hg'⟩
        · rw [List.mem_singleton.1 hf] at hdecl
          exact absurd ((declares_iff hraw).1 hdecl) hkey

private theorem addWorkflow_error (h : IndexOk N resolver workflows files b)
    (hbroken : BrokenAfter N resolver workflows files file) :
    ∃ err, addWorkflow N resolver workflows b file = .error ⟨file, err⟩ := by
  have hgetD : workflows.getD file ∅ = raw := AList.getD_of_lookup hraw
  rw [addWorkflow_eq, hgetD]
  cases hg : compileFile N resolver file raw with
  | error err => exact ⟨err, rfl⟩
  | ok g =>
    refine foldlM_put_error ?_
    rcases hbroken with hno | ⟨file', hf, key, hdecl', hdecl⟩
    · exact absurd ⟨g, (hasGraph_iff hraw).2 hg⟩ hno
    · refine ⟨key, (declares_iff hraw).1 hdecl, ?_⟩
      rw [(h.source_iff key file').2 ⟨hf, hdecl'⟩]
      exact Option.some_ne_none _

end

/-! ### The loop -/

/-- None of the files is broken where its turn comes, after the files that are in the index. -/
def NoneBroken (N : Numbers) (resolver : Option NodeOutputResolver) (workflows : Config.Section)
    (files rest : List String) : Prop :=
  ∀ before file after, rest = before ++ file :: after → ¬BrokenAfter N resolver workflows (files ++ before) file

private theorem noneBroken_nil : NoneBroken N resolver workflows files [] := by
  intro before file after h
  simp at h

theorem NoneBroken.cons {rest : List String} (h : NoneBroken N resolver workflows (files ++ [file]) rest)
    (hfile : ¬BrokenAfter N resolver workflows files file) : NoneBroken N resolver workflows files (file :: rest) := by
  intro before file' after heq
  cases before with
  | nil =>
    cases heq
    rwa [List.append_nil]
  | cons x before =>
    cases heq
    have hlater := h before file' after rfl
    rwa [List.append_assoc] at hlater

/-- The loop over files after others that are in the index. -/
private theorem addWorkflows (h : IndexOk N resolver workflows files b) {rest : List String}
    (hrest : ∀ file ∈ rest, file ∈ workflows) :
    (∃ b', rest.foldlM (addWorkflow N resolver workflows) b = .ok b' ∧
      IndexOk N resolver workflows (files ++ rest) b' ∧ NoneBroken N resolver workflows files rest) ∨
    ∃ before file after err, rest = before ++ file :: after ∧
      rest.foldlM (addWorkflow N resolver workflows) b = .error ⟨file, err⟩ ∧
      BrokenAfter N resolver workflows (files ++ before) file ∧ NoneBroken N resolver workflows files before := by
  induction rest generalizing files b with
  | nil => exact .inl ⟨b, rfl, by rwa [List.append_nil], noneBroken_nil⟩
  | cons file rest ih =>
    obtain ⟨raw, hraw⟩ := AList.exists_lookup_of_mem (hrest file (List.mem_cons_self ..))
    by_cases hbroken : BrokenAfter N resolver workflows files file
    · obtain ⟨err, herr⟩ := addWorkflow_error hraw h hbroken
      refine .inr ⟨[], file, rest, err, rfl, ?_, by rwa [List.append_nil], noneBroken_nil⟩
      rw [List.foldlM_cons, herr]
      rfl
    · obtain ⟨b', hb', hok⟩ := addWorkflow_ok hraw h hbroken
      have happ : ∀ fs : List String, (files ++ [file]) ++ fs = files ++ file :: fs := fun fs => by simp
      rw [List.foldlM_cons, hb']
      rcases ih hok fun f hf => hrest f (List.mem_cons_of_mem _ hf) with
        ⟨b'', hb'', hok', hnone⟩ | ⟨before, f, after, err, heq, herr, hbr, hnone⟩
      · exact .inl ⟨b'', hb'', by rwa [happ] at hok', hnone.cons hbroken⟩
      · exact .inr ⟨file :: before, f, after, err, by rw [heq]; rfl, herr, by rwa [happ] at hbr, hnone.cons hbroken⟩

private theorem brokenAfter_congr {files' : List String} (h : ∀ f, f ∈ files ↔ f ∈ files') :
    BrokenAfter N resolver workflows files file ↔ BrokenAfter N resolver workflows files' file := by
  simp only [BrokenAfter, h]

/-- The files before one in the order of the names are those with a smaller name. -/
private theorem mem_before {before after : List String} (h : sortedWorkflowKeys workflows = before ++ file :: after)
    (f : String) :
    f ∈ before ↔ f ∈ workflows.keys.filter (· < file) := by
  have hsorted : (before ++ file :: after).Pairwise (· ≤ ·) := by
    rw [← h]
    exact List.pairwise_insertionSort _ _
  have hnodup : (before ++ file :: after).Nodup := by
    rw [← h]
    exact nodup_sortStrings.2 workflows.keys_nodup
  have hmem : f ∈ workflows.keys ↔ f ∈ before ++ file :: after := by
    rw [← h]
    exact mem_sortStrings.symm
  obtain ⟨-, hafter, hcross⟩ := List.pairwise_append.1 hsorted
  obtain ⟨-, -, hdisj⟩ := List.nodup_append.1 hnodup
  rw [List.mem_filter, decide_eq_true_eq, hmem, List.mem_append, List.mem_cons]
  constructor
  · intro hf
    exact ⟨.inl hf, lt_of_le_of_ne (hcross f hf file (List.mem_cons_self ..)) (hdisj f hf file (List.mem_cons_self ..))⟩
  · rintro ⟨hf | rfl | hf, hlt⟩
    · exact hf
    · exact absurd hlt (lt_irrefl _)
    · exact absurd hlt (not_lt_of_ge ((List.pairwise_cons.1 hafter).1 f hf))

private theorem brokenAfter_iff {before after : List String}
    (h : sortedWorkflowKeys workflows = before ++ file :: after) :
    BrokenAfter N resolver workflows ([] ++ before) file ↔ Broken N resolver workflows file :=
  brokenAfter_congr (mem_before h)

/-- The workflows of a config are all built, and the cache has exactly the keys that the files declare, each with the
graph of the one file that declares it; or the error names the first broken file, in the order of the names. -/
theorem buildGraphs_spec (N : Numbers) (resolver : Option NodeOutputResolver) (workflows : Config.Section) :
    (∃ graphs, buildGraphs N resolver workflows = .ok graphs ∧ (∀ file ∈ workflows, ¬Broken N resolver workflows file) ∧
      ∀ key g, graphs.lookup key = some g ↔ ∃ file, Declares workflows file key ∧
        HasGraph N resolver workflows file g) ∨
    ∃ e, buildGraphs N resolver workflows = .error e ∧ e.file ∈ workflows ∧ Broken N resolver workflows e.file ∧
      ∀ file ∈ workflows, file < e.file → ¬Broken N resolver workflows file := by
  have hempty : IndexOk N resolver workflows [] {} := ⟨nofun, by simp, by simp⟩
  have hkeys : ∀ file, file ∈ sortedWorkflowKeys workflows ↔ file ∈ workflows := fun file =>
    mem_sortStrings.trans AList.mem_keys.symm
  have hrest : ∀ file ∈ sortedWorkflowKeys workflows, file ∈ workflows := fun file hf => (hkeys file).1 hf
  rcases addWorkflows hempty hrest with
    ⟨b, hb, hok, hnone⟩ | ⟨before, file, after, err, heq, herr, hbr, hnone⟩
  · refine .inl ⟨b.graphs, ?_, fun file hf => ?_, fun key g => ?_⟩
    · rw [buildGraphs, hb]
      rfl
    · obtain ⟨before, after, heq⟩ := List.append_of_mem ((hkeys file).2 hf)
      rw [← brokenAfter_iff heq]
      exact hnone before file after heq
    · rw [hok.graphs_iff]
      constructor
      · rintro ⟨file, -, hfile⟩
        exact ⟨file, hfile⟩
      · rintro ⟨file, hdecl, hg⟩
        have ⟨raw, hraw, _⟩ := hdecl
        exact ⟨file, (hkeys file).2 (AList.mem_of_lookup hraw), hdecl, hg⟩
  · refine .inr ⟨⟨file, err⟩, ?_, (hkeys file).1 (by simp [heq]), (brokenAfter_iff heq).1 hbr, fun f hf hlt => ?_⟩
    · rw [buildGraphs, herr]
      rfl
    · -- a smaller name has had its turn
      have hmem : f ∈ before := (mem_before heq f).2 (List.mem_filter.2 ⟨AList.mem_keys.1 hf, decide_eq_true hlt⟩)
      obtain ⟨before', after', hsplit⟩ := List.append_of_mem hmem
      have hsplit' : sortedWorkflowKeys workflows = before' ++ f :: (after' ++ file :: after) := by
        rw [heq, hsplit, List.append_assoc, List.cons_append]
      rw [← brokenAfter_iff hsplit']
      exact hnone before' f after' hsplit

/-! ### Reloads -/

structure WorkflowCache where
  graphs : GoMap CompiledGraph

def newWorkflowCache (N : Numbers) (resolver : Option NodeOutputResolver) (workflows : Config.Section) :
    Except WorkflowCompileError WorkflowCache :=
  match buildGraphs N resolver workflows with
  | .error err => .error err
  | .ok graphs => .ok ⟨graphs⟩

namespace WorkflowCache

def get (c : WorkflowCache) (workflowID : String) : Option CompiledGraph := c.graphs.lookup workflowID

/-- `Invalidate`: the cache after it, and its error. -/
def invalidate (N : Numbers) (resolver : Option NodeOutputResolver) (c : WorkflowCache) (workflows : Config.Section) :
    WorkflowCache × Option WorkflowCompileError :=
  match buildGraphs N resolver workflows with
  | .error err => (c, some err)
  | .ok newGraphs => (⟨newGraphs⟩, none)

/-- Reloads one after the other. -/
def reload (N : Numbers) (resolver : Option NodeOutputResolver) (c : WorkflowCache) (configs : List Config.Section) :
    WorkflowCache :=
  configs.foldl (fun c workflows => (c.invalidate N resolver workflows).1) c

end WorkflowCache

def Sound (N : Numbers) (resolver : Option NodeOutputResolver) (workflows : Config.Section) : Prop :=
  ∀ file ∈ workflows, ¬Broken N resolver workflows file

/-- The cache has the graphs of the config, under the keys that it declares. -/
structure Caches (N : Numbers) (resolver : Option NodeOutputResolver) (workflows : Config.Section) (c : WorkflowCache) :
    Prop where
  sound : Sound N resolver workflows
  get_iff : ∀ key g, c.get key = some g ↔ ∃ file, Declares workflows file key ∧ HasGraph N resolver workflows file g

variable {c : WorkflowCache} {configs : List Config.Section}

theorem newWorkflowCache_caches (h : newWorkflowCache N resolver workflows = .ok c) :
    Caches N resolver workflows c := by
  rw [newWorkflowCache] at h
  rcases buildGraphs_spec N resolver workflows with ⟨graphs, hb, hnone, hiff⟩ | ⟨e, hb, -⟩
  · rw [hb] at h
    cases h
    exact ⟨hnone, hiff⟩
  · rw [hb] at h
    cases h

/-- A reload of a sound config changes the cache to it, any other leaves the cache as it is. -/
private theorem invalidate_cases (N : Numbers) (resolver : Option NodeOutputResolver) (c : WorkflowCache)
    (workflows : Config.Section) :
    Caches N resolver workflows (c.invalidate N resolver workflows).1 ∨
      ¬Sound N resolver workflows ∧ (c.invalidate N resolver workflows).1 = c := by
  rw [WorkflowCache.invalidate]
  rcases buildGraphs_spec N resolver workflows with ⟨graphs, hb, hnone, hiff⟩ | ⟨e, hb, hmem, hbr, -⟩
  · rw [hb]
    exact .inl ⟨hnone, hiff⟩
  · rw [hb]
    exact .inr ⟨fun hsound => hsound e.file hmem hbr, rfl⟩

/-- The config that is live after the reloads: all configs after it were not sound. -/
def Live (N : Numbers) (resolver : Option NodeOutputResolver) (configs : List Config.Section) (live : Config.Section) :
    Prop :=
  ∃ before after, configs = before ++ live :: after ∧ ∀ workflows ∈ after, ¬Sound N resolver workflows

theorem reload_caches (h : Caches N resolver workflows c) (configs : List Config.Section) :
    ∃ live, Live N resolver (workflows :: configs) live ∧ Caches N resolver live (c.reload N resolver configs) := by
  induction configs generalizing workflows c with
  | nil => exact ⟨workflows, ⟨[], [], rfl, nofun⟩, h⟩
  | cons next configs ih =>
    show ∃ live, _ ∧ Caches N resolver live (WorkflowCache.reload N resolver (c.invalidate N resolver next).1 configs)
    rcases invalidate_cases N resolver c next with hnext | ⟨hnot, hsame⟩
    · obtain ⟨live, ⟨before, after, heq, hafter⟩, hlive⟩ := ih hnext
      exact ⟨live, ⟨workflows :: before, after, by rw [heq]; rfl, hafter⟩, hlive⟩
    · rw [hsame]
      obtain ⟨live, ⟨before, after, heq, hafter⟩, hlive⟩ := ih h
      cases before with
      | nil =>
        cases heq
        exact ⟨workflows, ⟨[], next :: configs, rfl, List.forall_mem_cons.2 ⟨hnot, hafter⟩⟩, hlive⟩
      | cons x before =>
        cases heq
        exact ⟨live, ⟨workflows :: next :: before, after, rfl, hafter⟩, hlive⟩

/-- The first broken file of the config, in the order of the names. -/
def FirstBroken (N : Numbers) (resolver : Option NodeOutputResolver) (workflows : Config.Section) (file : String) :
    Prop :=
  file ∈ workflows ∧ Broken N resolver workflows file ∧
    ∀ file' ∈ workflows, file' < file → ¬Broken N resolver workflows file'

/-- After a start and any number of reloads, the cache answers for exactly the keys that one config declares, each with
the graph of the one file that declares it; this config is sound, and all that came after it are not.  A further reload
fails exactly for a config that is not sound, and its error names the first broken file. -/
theorem cache_after_reloads {first : Config.Section} (h : newWorkflowCache N resolver first = .ok c)
    (configs : List Config.Section) :
    (∃ live, Live N resolver (first :: configs) live ∧ Caches N resolver live (c.reload N resolver configs)) ∧
    ∀ workflows,
      (((c.reload N resolver configs).invalidate N resolver workflows).2 = none ↔ Sound N resolver workflows) ∧
      ∀ e, ((c.reload N resolver configs).invalidate N resolver workflows).2 = some e →
        FirstBroken N resolver workflows e.file := by
  refine ⟨reload_caches (newWorkflowCache_caches h) configs, fun workflows => ?_⟩
  rw [WorkflowCache.invalidate]
  rcases buildGraphs_spec N resolver workflows with ⟨graphs, hb, hnone, -⟩ | ⟨e, hb, hmem, hbr, hfirst⟩
  · rw [hb]
    exact ⟨⟨fun _ => hnone, fun _ => rfl⟩, nofun⟩
  · rw [hb]
    refine ⟨⟨nofun, fun hsound => absurd hbr (hsound e.file hmem)⟩, fun e' he' => ?_⟩
    cases he'
    exact ⟨hmem, hbr, hfirst⟩

/-! ### A sample config -/

/-- A workflow file with one node. -/
def oneNode (id : String) (node : List (String × Json)) : Config.AnyMap :=
  GoMap.ofPairs [("id", .str id), ("nodes", .obj [("n", .obj node)])]

/-- `a` runs `b`. -/
def callerFiles : Config.Section :=
  GoMap.ofPairs
    [("workflows/a.json",
        oneNode "a" [("type", .str "workflow.run"), ("config", .obj [("workflow", .str "b")])]),
     ("workflows/b.json", oneNode "b" [("type", .str "util.log")])]

/-- Two files with one id. -/
def clashingFiles : Config.Section :=
  GoMap.ofPairs
    [("workflows/a.json", oneNode "a" [("type", .str "util.log")]),
     ("workflows/c.json", oneNode "a" [("type", .str "util.log")])]

/-- Numbers, as far as the samples have any. -/
def sampleNumbers : Numbers := ⟨Rat.floor, Rat.floor, fun _ => ""⟩

theorem exists_callerCache : ∃ c, newWorkflowCache sampleNumbers none callerFiles = .ok c := by
  have hok : (newWorkflowCache sampleNumbers none callerFiles).toOption.isSome = true := by decide +kernel
  cases hc : newWorkflowCache sampleNumbers none callerFiles with
  | ok c => exact ⟨c, rfl⟩
  | error e =>
    rw [hc] at hok
    cases hok

theorem cache_after_reloads_clash : ∃ c, newWorkflowCache sampleNumbers none callerFiles = .ok c ∧
    ∃ live, Live sampleNumbers none [callerFiles, clashingFiles] live ∧
      Caches sampleNumbers none live (c.reload sampleNumbers none [clashingFiles]) := by
  obtain ⟨c, hc⟩ := exists_callerCache
  exact ⟨c, hc, (cache_after_reloads hc [clashingFiles]).1⟩

end Noda.Engine
