import Noda.Engine.Executor
import Noda.Engine.Graph

/-!
# Looking up an edge

The edges of a compiled graph are stored under the text `from:output:to`.  Node ids and outputs may be any text, so two
edges can have one key, and a key can be read in several ways.  `edgeLookup_iff`: every look-up is right, and every
node is retried by the policies of its own error edges, if and only if no edge has a colon in one of its parts.
-/

namespace Noda.Engine

/-- The key of a triple. -/
def edgeKey (fromNode output toNode : String) : String := fromNode ++ ":" ++ output ++ ":" ++ toNode

def EdgeConfig.key (e : EdgeConfig) : String := edgeKey e.fromNode e.outputName e.toNode

/-- What `Compile` stores for an edge. -/
def EdgeConfig.compiled (e : EdgeConfig) : CompiledEdge := ⟨e.fromNode, e.toNode, e.outputName, e.retry⟩

/-! ### What is stored -/

/-- The last edge with the key, after those that are stored already. -/
def lastEdge (key : String) (stored : Option CompiledEdge) (edges : List EdgeConfig) : Option CompiledEdge :=
  edges.foldl (fun found e => if e.key = key then some e.compiled else found) stored

private theorem compileNodes_edges {resolver : NodeOutputResolver} {ps : List (String × NodeConfig)}
    {g g' : CompiledGraph}
    (h : compileNodes resolver g ps = .ok g') : g'.edges = g.edges := by
  induction ps generalizing g with
  | nil =>
    cases h
    rfl
  | cons p ps ih =>
    obtain ⟨id, nc⟩ := p
    rw [compileNodes, compileNode] at h
    split at h
    · cases h
    · rename_i g₁ hg₁
      split at hg₁
      · cases hg₁
      · cases hg₁
        rw [ih h]

private theorem compileEdge_stores {g g' : CompiledGraph} {e : EdgeConfig} (h : compileEdge g e = .ok g') :
    g'.edges = g.edges.insert e.key e.compiled ∧ (e.retry ≠ none → e.outputName = "error") := by
  rw [compileEdge] at h
  split at h
  · cases h
  · cases h
  · dsimp only at h
    split at h
    · cases h
    · split at h
      · cases h
      · rename_i hretry
        cases h
        refine ⟨rfl, fun hr => ?_⟩
        by_contra hout
        exact hretry ⟨hr, hout⟩

private theorem compileEdges_stores {edges : List EdgeConfig} {g g' : CompiledGraph}
    (h : compileEdges g edges = .ok g') :
    (∀ key, g'.edges.lookup key = lastEdge key (g.edges.lookup key) edges) ∧
    (∀ n o, g'.targets n o =
      g.targets n o ++ (edges.filter fun e => n = e.fromNode ∧ o = e.outputName).map EdgeConfig.toNode) ∧
    ∀ e ∈ edges, e.retry ≠ none → e.outputName = "error" := by
  induction edges generalizing g with
  | nil =>
    cases h
    exact ⟨fun _ => rfl, by simp, by simp⟩
  | cons e edges ih =>
    rw [compileEdges] at h
    split at h
    · cases h
    · rename_i g₁ hg₁
      obtain ⟨hedges, hretry⟩ := compileEdge_stores hg₁
      obtain ⟨-, -, -, -, htargets, -⟩ := compileEdge_spec hg₁
      obtain ⟨ihedges, ihtargets, ihretry⟩ := ih h
      refine ⟨fun key => ?_, fun n o => ?_, List.forall_mem_cons.mpr ⟨hretry, ihretry⟩⟩
      · rw [ihedges key, hedges]
        show _ = lastEdge key (if e.key = key then some e.compiled else g.edges.lookup key) edges
        by_cases hk : key = e.key
        · rw [hk, AList.lookup_insert, if_pos rfl]
        · rw [AList.lookup_insert_ne hk, if_neg (Ne.symm hk)]
      · rw [ihtargets n o, htargets n o, List.filter_cons]
        split
        · rename_i hc
          simp [hc]
        · rename_i hc
          rw [if_neg (by simpa using hc)]

private theorem lastEdge_cases (key : String) (stored : Option CompiledEdge) (edges : List EdgeConfig) :
    (∃ e ∈ edges, e.key = key ∧ lastEdge key stored edges = some e.compiled) ∨
      (∀ e ∈ edges, e.key ≠ key) ∧ lastEdge key stored edges = stored := by
  induction edges generalizing stored with
  | nil => exact .inr ⟨by simp, rfl⟩
  | cons e edges ih =>
    show (∃ e' ∈ e :: edges, _ ∧ lastEdge key (if e.key = key then some e.compiled else stored) edges = _) ∨ _
    rcases ih (if e.key = key then some e.compiled else stored) with ⟨e', he', hkey, hlast⟩ | ⟨hnone, hlast⟩
    · exact .inl ⟨e', List.mem_cons_of_mem _ he', hkey, hlast⟩
    · by_cases hk : e.key = key
      · rw [if_pos hk] at hlast ⊢
        exact .inl ⟨e, List.mem_cons_self, hk, hlast⟩
      · refine .inr ⟨List.forall_mem_cons.mpr ⟨hk, hnone⟩, ?_⟩
        show lastEdge key (if e.key = key then some e.compiled else stored) edges = stored
        rw [hlast, if_neg hk]

variable {wf : WorkflowConfig} {resolver : Option NodeOutputResolver} {g : CompiledGraph}

/-- The edges and the targets of a graph that `Compile` returns. -/
private theorem compile_edges (h : compile wf resolver = .ok g) :
    (∀ f o t, g.getEdge f o t = lastEdge (edgeKey f o t) none wf.edges) ∧
    (∀ n o, g.targets n o = (wf.edges.filter fun e => n = e.fromNode ∧ o = e.outputName).map EdgeConfig.toNode) ∧
    ∀ e ∈ wf.edges, e.retry ≠ none → e.outputName = "error" := by
  obtain ⟨timeout, g₁, g₂, st, hnodes, hedges, -, rfl⟩ := compile_stages h
  obtain ⟨jt, jg, jc, hfields⟩ := computeJoinTypes_fields (classifyNodes g₂) g₂.nodes.keys (classifyNodes g₂)
  have hg : computeJoinTypes (classifyNodes g₂) =
      { classifyNodes g₂ with joinTypes := jt, joinGroups := jg, joinGroupCount := jc } := hfields
  have hempty : g₁.edges = ∅ := compileNodes_edges hnodes
  obtain ⟨-, houtputs, -, -⟩ := compileNodes_spec hnodes (by simp [emptyGraph])
    (by simp [emptyGraph, CompiledGraph.outputs]) rfl rfl
  obtain ⟨hlookup, htargets, hretry⟩ := compileEdges_stores hedges
  refine ⟨fun f o t => ?_, fun n o => ?_, hretry⟩
  · have hget : (computeJoinTypes (classifyNodes g₂)).getEdge f o t = g₂.edges.lookup (edgeKey f o t) := by
      rw [hg]
      rfl
    rw [hget, hlookup, hempty, AList.lookup_empty]
  · have htgt : (computeJoinTypes (classifyNodes g₂)).targets n o = g₂.targets n o := by
      rw [hg]
      rfl
    have hnil : g₁.targets n o = [] := by simp [CompiledGraph.targets, houtputs]
    rw [htgt, htargets, hnil, List.nil_append]

/-! ### Keys -/

/-- No part of the edge has a colon. -/
def EdgeConfig.Plain (e : EdgeConfig) : Prop :=
  ':' ∉ e.fromNode.toList ∧ ':' ∉ e.outputName.toList ∧ ':' ∉ e.toNode.toList

private theorem toList_edgeKey (f o t : String) :
    (edgeKey f o t).toList = f.toList ++ ':' :: (o.toList ++ ':' :: t.toList) := by
  simp [edgeKey]

/-- Two texts that are cut at their first colon. -/
private theorem append_cons_cancel {c : Char} {xs ys us vs : List Char} (hx : c ∉ xs) (hu : c ∉ us)
    (h : xs ++ c :: ys = us ++ c :: vs) : xs = us ∧ ys = vs := by
  induction xs generalizing us with
  | nil =>
    cases us with
    | nil => exact ⟨rfl, (List.cons.inj h).2⟩
    | cons u us => exact absurd (by rw [(List.cons.inj h).1]; simp) hu
  | cons x xs ih =>
    cases us with
    | nil => exact absurd (by rw [← (List.cons.inj h).1]; simp) hx
    | cons u us =>
      obtain ⟨rfl, htail⟩ := List.cons.inj h
      obtain ⟨rfl, hys⟩ := ih (fun h => hx (by simp [h])) (fun h => hu (by simp [h])) htail
      exact ⟨rfl, hys⟩

/-- The key of an edge without colons can be read in one way only. -/
theorem EdgeConfig.Plain.key_inj {e : EdgeConfig} (he : e.Plain) {f o t : String} (h : e.key = edgeKey f o t) :
    e.fromNode = f ∧ e.outputName = o ∧ e.toNode = t := by
  obtain ⟨hf, ho, ht⟩ := he
  have hlist : e.fromNode.toList ++ ':' :: (e.outputName.toList ++ ':' :: e.toNode.toList) =
      f.toList ++ ':' :: (o.toList ++ ':' :: t.toList) := by
    rw [← toList_edgeKey, ← toList_edgeKey]
    exact congrArg String.toList h
  -- the key has two colons, so the parts of the other reading have none
  have hcount := congrArg (List.count ':') hlist
  simp only [List.count_append, List.count_cons_self, List.count_eq_zero.mpr hf, List.count_eq_zero.mpr ho,
    List.count_eq_zero.mpr ht] at hcount
  have hf' : ':' ∉ f.toList := List.count_eq_zero.mp (by omega)
  have ho' : ':' ∉ o.toList := List.count_eq_zero.mp (by omega)
  obtain ⟨h₁, htail⟩ := append_cons_cancel hf hf' hlist
  obtain ⟨h₂, h₃⟩ := append_cons_cancel ho ho' htail
  exact ⟨String.toList_inj.mp h₁, String.toList_inj.mp h₂, String.toList_inj.mp h₃⟩

private theorem exists_other_reading {e : EdgeConfig} (he : ¬ e.Plain) :
    ∃ f o t, e.key = edgeKey f o t ∧ ¬ (e.fromNode = f ∧ e.outputName = o ∧ e.toNode = t) := by
  have hkey : e.key.toList = e.fromNode.toList ++ ':' :: (e.outputName.toList ++ ':' :: e.toNode.toList) :=
    toList_edgeKey ..
  have hne : ∀ {s s' : String}, s'.toList.length < s.toList.length → s ≠ s' := by
    rintro s s' hlt rfl
    omega
  unfold EdgeConfig.Plain at he
  by_cases hf : ':' ∈ e.fromNode.toList
  · obtain ⟨x, y, hxy⟩ := List.append_of_mem hf
    refine ⟨String.ofList x, String.ofList (y ++ ':' :: e.outputName.toList), e.toNode, ?_, fun h => ?_⟩
    · refine String.toList_inj.mp ?_
      rw [hkey, toList_edgeKey, hxy]
      simp
    · exact hne (by simp [hxy]) h.1
  · by_cases ho : ':' ∈ e.outputName.toList
    · obtain ⟨x, y, hxy⟩ := List.append_of_mem ho
      refine ⟨e.fromNode, String.ofList x, String.ofList (y ++ ':' :: e.toNode.toList), ?_, fun h => ?_⟩
      · refine String.toList_inj.mp ?_
        rw [hkey, toList_edgeKey, hxy]
        simp
      · exact hne (by simp [hxy]) h.2.1
    · have ht : ':' ∈ e.toNode.toList := by
        by_contra ht
        exact he ⟨hf, ho, ht⟩
      obtain ⟨x, y, hxy⟩ := List.append_of_mem ht
      refine ⟨e.fromNode, String.ofList (e.outputName.toList ++ ':' :: x), String.ofList y, ?_, fun h => ?_⟩
      · refine String.toList_inj.mp ?_
        rw [hkey, toList_edgeKey, hxy]
        simp
      · exact hne (by simp [hxy]; omega) h.2.2

/-! ### Looking up -/

/-- What is expected of the edges of a compiled graph. -/
structure EdgeLookup (wf : WorkflowConfig) (g : CompiledGraph) : Prop where
  own : ∀ e ∈ wf.edges, g.getEdge e.fromNode e.outputName e.toNode = some e.compiled
  none : ∀ f o t, (¬ ∃ e ∈ wf.edges, e.fromNode = f ∧ e.outputName = o ∧ e.toNode = t) → g.getEdge f o t = none
  policies : ∀ n, retryPolicies g n =
    (wf.edges.filter fun e => e.fromNode = n ∧ e.outputName = "error").filterMap EdgeConfig.retry

/-- Two edges of the config with the same parts are stored alike. -/
private theorem compiled_eq_of_parts (hdiff : wf.edges.Pairwise fun e e' =>
      (e.fromNode, e.output, e.toNode) ≠ (e'.fromNode, e'.output, e'.toNode))
    (hretry : ∀ e ∈ wf.edges, e.retry ≠ none → e.outputName = "error") {e e' : EdgeConfig} (he : e ∈ wf.edges)
    (he' : e' ∈ wf.edges) (hparts : e'.fromNode = e.fromNode ∧ e'.outputName = e.outputName ∧ e'.toNode = e.toNode) :
    e'.compiled = e.compiled := by
  obtain ⟨hf, ho, ht⟩ := hparts
  by_cases hout : e.output = e'.output
  · have hsymm : Std.Symm fun e e' : EdgeConfig =>
        (e.fromNode, e.output, e.toNode) ≠ (e'.fromNode, e'.output, e'.toNode) := ⟨fun _ _ h => h.symm⟩
    have heq : e' = e := by
      by_contra hne
      exact hdiff.forall he' he hne (by rw [hf, hout, ht])
    rw [heq]
  · -- one of the outputs is empty, the other one is `"success"`, and neither edge has a policy
    have hnone : ∀ x ∈ wf.edges, x.outputName = "success" → x.retry = none := by
      intro x hx hs
      by_contra hr
      have := hretry x hx hr
      rw [hs] at this
      exact absurd this (by decide)
    have hs : e.outputName = "success" := by
      unfold EdgeConfig.outputName at ho ⊢
      split_ifs at ho ⊢ with h₁ h₂ h₂
      · rfl
      · rfl
      · exact ho.symm
      · exact absurd ho.symm hout
    rw [EdgeConfig.compiled, EdgeConfig.compiled, hf, ho, ht, hnone e he hs, hnone e' he' (ho.trans hs)]

/-- The look-ups of a compiled graph are right if and only if no edge has a colon in one of its parts. -/
theorem edgeLookup_iff (h : compile wf resolver = .ok g)
    (hdiff : wf.edges.Pairwise fun e e' =>
      (e.fromNode, e.output, e.toNode) ≠ (e'.fromNode, e'.output, e'.toNode)) :
    EdgeLookup wf g ↔ ∀ e ∈ wf.edges, e.Plain := by
  obtain ⟨hget, htargets, hretry⟩ := compile_edges h
  constructor
  · intro hok e he
    by_contra hplain
    obtain ⟨f, o, t, hkey, hother⟩ := exists_other_reading hplain
    have hsame : g.getEdge f o t = some e.compiled := by
      rw [← hok.own e he, hget, hget, ← hkey]
      rfl
    by_cases hedge : ∃ e' ∈ wf.edges, e'.fromNode = f ∧ e'.outputName = o ∧ e'.toNode = t
    · obtain ⟨e', he', rfl, rfl, rfl⟩ := hedge
      rw [hok.own e' he', Option.some.injEq] at hsame
      injection hsame with hf ht ho hr
      exact hother ⟨hf.symm, ho.symm, ht.symm⟩
    · rw [hok.none f o t hedge] at hsame
      cases hsame
  · intro hplain
    have hown : ∀ e ∈ wf.edges, g.getEdge e.fromNode e.outputName e.toNode = some e.compiled := by
      intro e he
      rw [hget]
      rcases lastEdge_cases (edgeKey e.fromNode e.outputName e.toNode) none wf.edges with
        ⟨e', he', hkey, hlast⟩ | ⟨hnone, -⟩
      · rw [hlast, compiled_eq_of_parts hdiff hretry he he' ((hplain e' he').key_inj hkey)]
      · exact absurd rfl (hnone e he)
    refine ⟨hown, fun f o t hno => ?_, fun n => ?_⟩
    · rw [hget]
      rcases lastEdge_cases (edgeKey f o t) none wf.edges with ⟨e, he, hkey, -⟩ | ⟨-, hlast⟩
      · exact absurd ⟨e, he, (hplain e he).key_inj hkey⟩ hno
      · exact hlast
    · rw [retryPolicies, htargets, List.filterMap_map]
      have hfilter : (wf.edges.filter fun e => n = e.fromNode ∧ "error" = e.outputName) =
          wf.edges.filter fun e => e.fromNode = n ∧ e.outputName = "error" := by
        simp only [eq_comm]
      rw [hfilter]
      refine List.filterMap_congr fun e he => ?_
      obtain ⟨he, hc⟩ := List.mem_filter.mp he
      obtain ⟨hf, ho⟩ : e.fromNode = n ∧ e.outputName = "error" := by simpa using hc
      show (g.getEdge n "error" e.toNode).bind CompiledEdge.retry = e.retry
      rw [← hf, ← ho, hown e he]
      rfl

/-- A node with a retry on its error edge. -/
def retriedWorkflow : WorkflowConfig where
  id := "wf"
  nodes := GoMap.ofPairs [("a", { type := "x" }), ("b", { type := "x" })]
  edges := [⟨"a", "b", "error", some ⟨2, "fixed", "1s"⟩⟩]

theorem edgeLookup_iff_retried :
    ∃ g, compile retriedWorkflow none = .ok g ∧
      (EdgeLookup retriedWorkflow g ↔ ∀ e ∈ retriedWorkflow.edges, e.Plain) := by
  obtain ⟨g, hg, -⟩ := exists_compile retriedWorkflow none (p := fun _ => true) (by decide +kernel)
  exact ⟨g, hg, edgeLookup_iff hg (by decide)⟩

/-- Two error edges whose keys are both `a:error:x:error:y`. -/
def collidingWorkflow : WorkflowConfig where
  id := "wf"
  nodes := GoMap.ofPairs
    [("a", { type := "x" }), ("x:error:y", { type := "x" }), ("a:error:x", { type := "x" }), ("y", { type := "x" })]
  edges := [⟨"a", "x:error:y", "error", some ⟨3, "fixed", "1s"⟩⟩, ⟨"a:error:x", "y", "error", none⟩]

/-- The policy of the first edge is lost. -/
theorem edgeLookup_collision :
    ¬ ∀ (wf : WorkflowConfig) (resolver : Option NodeOutputResolver) (g : CompiledGraph), compile wf resolver = .ok g →
      (wf.edges.Pairwise fun e e' => (e.fromNode, e.output, e.toNode) ≠ (e'.fromNode, e'.output, e'.toNode)) →
        EdgeLookup wf g := by
  intro h
  obtain ⟨g, hg, hp⟩ :=
    exists_compile collidingWorkflow none (p := fun g => retryPolicies g "a" == []) (by decide +kernel)
  have hpolicies := (h collidingWorkflow none g hg (by decide)).policies "a"
  rw [eq_of_beq hp] at hpolicies
  exact absurd hpolicies (by decide)

end Noda.Engine
