import Noda.Engine.Compiler

/-!
# What `Compile` guarantees

`Compiled g` collects the facts about a compiled graph that the executor relies on: edges connect nodes of the graph
and leave them by declared outputs, the reverse adjacency lists exactly the sources, entry nodes are the nodes without
sources, every source of a node belongs to one of its join groups and every group has a source, two sources are in one
group exactly when a chain of pairwise exclusivity tests connects them, and output keys are distinct.

* `compile_compiled`: every graph `Compile` returns has them;
* `Compiled.mutuallyExclusive_iff`: what the exclusivity test finds out about the paths of the graph.
-/

namespace Noda.Engine

/-- The key under which a node's output is stored: its alias, or its id. -/
def CompiledGraph.outputKey (g : CompiledGraph) (n : String) : String :=
  match g.nodes.lookup n with
  | none => n
  | some node => if node.asName = "" then n else node.asName

/-- Two sources of `t` are connected by pairs that `mutuallyExclusive` accepts. -/
def ExclusiveChain (g : CompiledGraph) (t n m : String) : Prop := UnionFind.Linked (exclusivePairs g t) n m

/-- The facts about a compiled graph. -/
structure Compiled (g : CompiledGraph) : Prop where
  node_id : ∀ {n node}, g.nodes.lookup n = some node → node.id = n
  mem_sources : ∀ {t n}, n ∈ g.sources t ↔ ∃ o, t ∈ g.targets n o
  source_mem : ∀ {n o t}, t ∈ g.targets n o → n ∈ g.nodes
  target_mem : ∀ {n o t}, t ∈ g.targets n o → t ∈ g.nodes
  declared : ∀ {n o t}, t ∈ g.targets n o → ∃ node, g.nodes.lookup n = some node ∧ o ∈ node.outputs
  entry_iff : ∀ {n}, n ∈ g.entryNodes ↔ n ∈ g.nodes ∧ g.sources n = []
  entry_nodup : g.entryNodes.Nodup
  terminal_iff : ∀ {n}, n ∈ g.terminalNodes ↔ n ∈ g.nodes ∧ ∀ o, o ≠ "error" → g.targets n o = []
  group_lt : ∀ {t n}, n ∈ g.sources t → ∃ i, g.groupOf t n = some i ∧ i < g.groupCount t
  group_source : ∀ {t i}, i < g.groupCount t → ∃ n ∈ g.sources t, g.groupOf t n = some i
  group_iff : ∀ {t n m}, n ∈ g.sources t → m ∈ g.sources t →
    (g.groupOf t n = g.groupOf t m ↔ ExclusiveChain g t n m)
  counted : ∀ {n}, n ∈ g.joinGroupCount.keys ↔ n ∈ g.nodes
  key_inj : ∀ {n m}, n ∈ g.nodes → m ∈ g.nodes → g.outputKey n = g.outputKey m → n = m

/-! ### Nodes and edges -/

theorem compileNodes_spec {resolver : NodeOutputResolver} {ps : List (String × NodeConfig)}
    {g g' : CompiledGraph} (h : compileNodes resolver g ps = .ok g')
    (hid : ∀ n node, g.nodes.lookup n = some node → node.id = n) (hadj : ∀ n, g.outputs n = ∅) (hrev : g.reverse = ∅)
    (hcount : g.joinGroupCount = ∅) :
    (∀ n node, g'.nodes.lookup n = some node → node.id = n) ∧ (∀ n, g'.outputs n = ∅) ∧ g'.reverse = ∅ ∧
      g'.joinGroupCount = ∅ := by
  induction ps generalizing g with
  | nil => cases h; exact ⟨hid, hadj, hrev, hcount⟩
  | cons p ps ih =>
    obtain ⟨id, nc⟩ := p
    rw [compileNodes, compileNode] at h
    split at h
    · cases h
    · rename_i g1 hg1
      split at hg1
      · cases hg1
      · cases hg1
        refine ih h ?_ ?_ hrev hcount
        · intro n node hn
          by_cases hne : n = id
          · subst hne
            simp only [AList.lookup_insert, Option.some.injEq] at hn
            rw [← hn]
          · rw [AList.lookup_insert_ne hne] at hn
            exact hid n node hn
        · intro n
          by_cases hne : n = id
          · subst hne; simp [CompiledGraph.outputs]
          · have := hadj n
            simpa [CompiledGraph.outputs, AList.getD_insert_of_ne _ _ _ hne] using this

theorem compileEdge_spec {g g' : CompiledGraph} {edge : EdgeConfig} (h : compileEdge g edge = .ok g') :
    (∃ node, g.nodes.lookup edge.fromNode = some node ∧ edge.outputName ∈ node.outputs) ∧
    edge.toNode ∈ g.nodes ∧ g'.nodes = g.nodes ∧ g'.joinGroupCount = g.joinGroupCount ∧
    (∀ n o, g'.targets n o =
      if n = edge.fromNode ∧ o = edge.outputName then g.targets n o ++ [edge.toNode] else g.targets n o) ∧
    (∀ t, g'.sources t = if t = edge.toNode then g.sources t ++ [edge.fromNode] else g.sources t) := by
  rw [compileEdge] at h
  split at h
  · cases h
  · cases h
  · rename_i node tnode hfrom hto
    dsimp only at h
    split at h
    · cases h
    · rename_i hout
      split at h
      · cases h
      · cases h
        refine ⟨⟨node, hfrom, not_not.1 hout⟩, AList.mem_of_lookup hto, rfl, rfl, fun n o => ?_, fun t => ?_⟩
        · by_cases hn : n = edge.fromNode
          · subst hn
            by_cases ho : o = edge.outputName
            · subst ho
              simp [CompiledGraph.targets, CompiledGraph.outputs]
            · simp [CompiledGraph.targets, CompiledGraph.outputs, ho, AList.getD_modify_of_ne _ _ _ ho]
          · simp [CompiledGraph.targets, CompiledGraph.outputs, hn, AList.getD_modify_of_ne _ _ _ hn]
        · by_cases ht : t = edge.toNode
          · subst ht; simp [CompiledGraph.sources]
          · simp [CompiledGraph.sources, ht, AList.getD_modify_of_ne _ _ _ ht]

/-- The edges compiled so far are consistent. -/
private structure EdgesOk (g : CompiledGraph) : Prop where
  node_id : ∀ n node, g.nodes.lookup n = some node → node.id = n
  mem_sources : ∀ t n, n ∈ g.sources t ↔ ∃ o, t ∈ g.targets n o
  target_mem : ∀ n o t, t ∈ g.targets n o → t ∈ g.nodes
  declared : ∀ n o t, t ∈ g.targets n o → ∃ node, g.nodes.lookup n = some node ∧ o ∈ node.outputs
  uncounted : g.joinGroupCount = ∅

private theorem compileEdge_ok {g g' : CompiledGraph} {edge : EdgeConfig} (h : compileEdge g edge = .ok g')
    (hg : EdgesOk g) : EdgesOk g' := by
  obtain ⟨⟨node, hnode, hout⟩, hto, hnodes, hcount, htgt, hsrc⟩ := compileEdge_spec h
  have hmem : ∀ n o t, t ∈ g'.targets n o ↔
      t ∈ g.targets n o ∨ (n = edge.fromNode ∧ o = edge.outputName ∧ t = edge.toNode) := by
    intro n o t
    rw [htgt]
    split
    · rename_i hc
      simp [hc]
    · rename_i hc
      constructor
      · exact .inl
      · rintro (h | ⟨h1, h2, -⟩)
        · exact h
        · exact absurd ⟨h1, h2⟩ hc
  refine ⟨by rw [hnodes]; exact hg.node_id, fun t n => ?_, fun n o t ht => ?_, fun n o t ht => ?_,
    by rw [hcount]; exact hg.uncounted⟩
  · simp only [hmem]
    have hsplit : (n ∈ g'.sources t) ↔ n ∈ g.sources t ∨ (n = edge.fromNode ∧ t = edge.toNode) := by
      rw [hsrc]
      split
      · rename_i hc; simp [hc]
      · rename_i hc; simp [hc]
    rw [hsplit, hg.mem_sources]
    constructor
    · rintro (⟨o, ho⟩ | ⟨h1, h2⟩)
      · exact ⟨o, .inl ho⟩
      · exact ⟨_, .inr ⟨h1, rfl, h2⟩⟩
    · rintro ⟨o, ho | ⟨h1, -, h2⟩⟩
      · exact .inl ⟨o, ho⟩
      · exact .inr ⟨h1, h2⟩
  · rw [hnodes]
    rcases (hmem n o t).1 ht with ht | ⟨-, -, rfl⟩
    · exact hg.target_mem n o t ht
    · exact hto
  · rw [hnodes]
    rcases (hmem n o t).1 ht with ht | ⟨rfl, rfl, -⟩
    · exact hg.declared n o t ht
    · exact ⟨node, hnode, hout⟩

private theorem compileEdges_ok {edges : List EdgeConfig} {g g' : CompiledGraph}
    (h : compileEdges g edges = .ok g') (hg : EdgesOk g) : EdgesOk g' := by
  induction edges generalizing g with
  | nil => cases h; exact hg
  | cons edge edges ih =>
    rw [compileEdges] at h
    split at h
    · cases h
    · rename_i g1 hg1
      exact ih h (compileEdge_ok hg1 hg)

private theorem buildGraph_ok {wf : WorkflowConfig} {resolver : NodeOutputResolver} {g : CompiledGraph}
    (h : buildGraph wf resolver = .ok g) : ∃ g₀, EdgesOk g₀ ∧ g = classifyNodes g₀ := by
  rw [buildGraph] at h
  split at h
  · cases h
  · split at h
    · cases h
    · rename_i g1 hg1
      split at h
      · cases h
      · rename_i g2 hg2
        cases h
        obtain ⟨hid, hadj, hrev, hcount⟩ := compileNodes_spec hg1 (by simp [emptyGraph])
          (by simp [emptyGraph, CompiledGraph.outputs]) rfl rfl
        refine ⟨g2, compileEdges_ok hg2 ⟨hid, ?_, ?_, ?_, hcount⟩, rfl⟩
        all_goals simp [CompiledGraph.targets, CompiledGraph.sources, hadj, hrev]

/-! ### Join groups -/

/-- The groups assigned to the sources `done` so far: a source has the number of its root, different roots have
different numbers, and every number below the count is in use. -/
private structure GroupsOk (p : String → String) (done : List String) (groups index : GoMap Nat) : Prop where
  group : ∀ x ∈ done, ∃ r i, UnionFind.Root p x r ∧ index.lookup r = some i ∧ groups.lookup x = some i
  lt : ∀ r i, index.lookup r = some i → i < index.keys.length
  inj : ∀ r r' i, index.lookup r = some i → index.lookup r' = some i → r = r'
  used : ∀ i < index.keys.length, ∃ x ∈ done, groups.lookup x = some i

private theorem GroupsOk.known {p : String → String} {done : List String} {groups index : GoMap Nat}
    (h : GroupsOk p done groups index) {src root : String} {idx : Nat} (hroot : UnionFind.Root p src root)
    (hidx : index.lookup root = some idx) : GroupsOk p (src :: done) (groups.insert src idx) index := by
  refine ⟨fun x hx => ?_, h.lt, h.inj, fun i hi => ?_⟩
  · by_cases hxs : x = src
    · subst hxs; exact ⟨root, idx, hroot, hidx, AList.lookup_insert ..⟩
    · obtain ⟨r, i, h1, h2, h3⟩ := h.group x (List.mem_of_ne_of_mem hxs hx)
      exact ⟨r, i, h1, h2, by rwa [AList.lookup_insert_ne hxs]⟩
  · obtain ⟨x, hx, hg⟩ := h.used i hi
    by_cases hxs : x = src
    · -- `src` was numbered before: it keeps its number
      subst hxs
      obtain ⟨r, j, h1, h2, h3⟩ := h.group x hx
      obtain rfl := h1.unique hroot
      rw [hidx] at h2; cases h2
      rw [hg] at h3; cases h3
      exact ⟨x, List.mem_cons_self .., AList.lookup_insert ..⟩
    · exact ⟨x, List.mem_cons_of_mem _ hx, by rwa [AList.lookup_insert_ne hxs]⟩

private theorem GroupsOk.fresh {p : String → String} {done : List String} {groups index : GoMap Nat}
    (h : GroupsOk p done groups index) {src root : String} (hroot : UnionFind.Root p src root)
    (hidx : index.lookup root = none) :
    GroupsOk p (src :: done) (groups.insert src index.keys.length) (index.insert root index.keys.length) := by
  have hnotin : root ∉ index.keys := AList.lookup_eq_none.1 hidx
  have hlen : (index.insert root index.keys.length).keys.length = index.keys.length + 1 := by
    rw [AList.keys_insert, List.length_cons, List.erase_of_not_mem hnotin]
  have hold : ∀ r i, index.lookup r = some i → (index.insert root index.keys.length).lookup r = some i := by
    intro r i hr
    have hne : r ≠ root := by rintro rfl; rw [hidx] at hr; cases hr
    rwa [AList.lookup_insert_ne hne]
  have hsrc : src ∉ done := by
    intro hs
    obtain ⟨r, i, h1, h2, -⟩ := h.group src hs
    obtain rfl := h1.unique hroot
    rw [hidx] at h2; cases h2
  have hcases : ∀ r i, (index.insert root index.keys.length).lookup r = some i →
      (r = root ∧ i = index.keys.length) ∨ index.lookup r = some i := by
    intro r i hr
    by_cases hne : r = root
    · subst hne; rw [AList.lookup_insert] at hr; cases hr; exact .inl ⟨rfl, rfl⟩
    · rw [AList.lookup_insert_ne hne] at hr; exact .inr hr
  refine ⟨fun x hx => ?_, fun r i hr => ?_, fun r r' i hr hr' => ?_, fun i hi => ?_⟩
  · by_cases hxs : x = src
    · subst hxs; exact ⟨root, _, hroot, AList.lookup_insert .., AList.lookup_insert ..⟩
    · obtain ⟨r, i, h1, h2, h3⟩ := h.group x (List.mem_of_ne_of_mem hxs hx)
      exact ⟨r, i, h1, hold r i h2, by rwa [AList.lookup_insert_ne hxs]⟩
  · rw [hlen]
    rcases hcases r i hr with ⟨-, rfl⟩ | hr
    · omega
    · have := h.lt r i hr; omega
  · rcases hcases r i hr with ⟨h1, hi⟩ | h1 <;> rcases hcases r' i hr' with ⟨h2, hi'⟩ | h2
    · rw [h1, h2]
    · have := h.lt r' i h2; omega
    · have := h.lt r i h1; omega
    · exact h.inj r r' i h1 h2
  · rw [hlen] at hi
    by_cases hlast : i = index.keys.length
    · subst hlast
      exact ⟨src, List.mem_cons_self .., AList.lookup_insert ..⟩
    · obtain ⟨x, hx, hg⟩ := h.used i (by omega)
      have hxs : x ≠ src := fun h => hsrc (h ▸ hx)
      exact ⟨x, List.mem_cons_of_mem _ hx, by rwa [AList.lookup_insert_ne hxs]⟩

private theorem GroupsOk.congr {p q : String → String} {done : List String} {groups index : GoMap Nat}
    (h : GroupsOk p done groups index) (hpq : ∀ x ∈ done, ∀ r, UnionFind.Root p x r → UnionFind.Root q x r) :
    GroupsOk q done groups index := by
  refine ⟨fun x hx => ?_, h.lt, h.inj, h.used⟩
  obtain ⟨r, i, h1, h2, h3⟩ := h.group x hx
  exact ⟨r, i, hpq x hx r h1, h2, h3⟩

private theorem assignGroups_ok (srcs done : List String) {uf : UnionFind.Forest String} {groups index : GoMap Nat}
    (huf : uf.Valid) (hsrcs : ∀ x ∈ srcs, x ∈ uf.ids) (hdone : ∀ x ∈ done, x ∈ uf.ids)
    (h : GroupsOk uf.parent done groups index) :
    GroupsOk uf.parent (srcs.reverse ++ done) (assignGroups srcs uf groups index).1
      (assignGroups srcs uf groups index).2 := by
  induction srcs generalizing uf done groups index with
  | nil => exact h
  | cons src srcs ih =>
    obtain ⟨hs, hsrcs⟩ := List.forall_mem_cons.1 hsrcs
    obtain ⟨hroot, hids, hv, hall⟩ := UnionFind.find_spec huf hs
    have hs' : src ∈ (UnionFind.find uf src).1.ids := by rw [hids]; exact hs
    have hdone' : ∀ x ∈ src :: done, x ∈ (UnionFind.find uf src).1.ids := by
      rw [hids]; exact List.forall_mem_cons.2 ⟨hs, hdone⟩
    have h' : GroupsOk (UnionFind.find uf src).1.parent done groups index :=
      h.congr fun x hx r hr => (hall x (hdone x hx) r).2 hr
    have hroot' := (hall src hs _).2 hroot
    -- the roots after the `find` are those before it
    have hback : ∀ {groups' index' : GoMap Nat},
        GroupsOk (UnionFind.find uf src).1.parent (srcs.reverse ++ src :: done) groups' index' →
        GroupsOk uf.parent ((src :: srcs).reverse ++ done) groups' index' := by
      intro groups' index' hg
      have heq : (src :: srcs).reverse ++ done = srcs.reverse ++ src :: done := by simp
      rw [heq]
      refine hg.congr fun x hx r hr => (hall x ?_ r).1 hr
      rcases List.mem_append.1 hx with hx | hx
      · exact hsrcs x (List.mem_reverse.1 hx)
      · rw [← hids]; exact hdone' x hx
    rw [assignGroups]
    dsimp only
    cases hidx : index.lookup (UnionFind.find uf src).2 with
    | some idx =>
      exact hback (ih _ hv (by rw [hids]; exact hsrcs) hdone' (h'.known hroot' hidx))
    | none =>
      exact hback (ih _ hv (by rw [hids]; exact hsrcs) hdone' (h'.fresh hroot' hidx))

private theorem mem_orderedPairs {α : Type} {xs : List α} {p : α × α} (h : p ∈ orderedPairs xs) :
    p.1 ∈ xs ∧ p.2 ∈ xs := by
  induction xs with
  | nil => exact absurd h (List.not_mem_nil)
  | cons a as ih =>
    rcases List.mem_append.1 h with h | h
    · obtain ⟨b, hb, rfl⟩ := List.mem_map.1 h
      exact ⟨List.mem_cons_self .., List.mem_cons_of_mem _ hb⟩
    · exact ⟨List.mem_cons_of_mem _ (ih h).1, List.mem_cons_of_mem _ (ih h).2⟩

private theorem mem_distinctSources {g : CompiledGraph} {t n : String} : n ∈ distinctSources g t ↔ n ∈ g.sources t := by
  simp [distinctSources]

/-- The groups of a node: every source has one, every group has a source, and two sources share a group exactly when
a chain of exclusivity tests connects them. -/
private theorem joinGroupsOf_spec (g : CompiledGraph) (t : String) :
    (∀ n ∈ g.sources t, ∃ i, (joinGroupsOf g t).1.lookup n = some i ∧ i < (joinGroupsOf g t).2) ∧
    (∀ i < (joinGroupsOf g t).2, ∃ n ∈ g.sources t, (joinGroupsOf g t).1.lookup n = some i) ∧
    (∀ n ∈ g.sources t, ∀ m ∈ g.sources t,
      ((joinGroupsOf g t).1.lookup n = (joinGroupsOf g t).1.lookup m ↔ ExclusiveChain g t n m)) := by
  have hpairs : ∀ p ∈ exclusivePairs g t, p.1 ∈ distinctSources g t ∧ p.2 ∈ distinctSources g t := by
    intro p hp
    exact mem_orderedPairs (List.mem_filter.1 hp).1
  obtain ⟨hids, hv⟩ := UnionFind.unionAll_valid (UnionFind.new_valid (distinctSources g t)) hpairs
  have hids' : (UnionFind.unionAll (UnionFind.new (distinctSources g t)) (exclusivePairs g t)).ids =
      distinctSources g t := hids
  have hempty : ∀ p, GroupsOk p [] ∅ ∅ :=
    fun p => ⟨fun x hx => absurd hx (List.not_mem_nil), by simp, by simp, by simp⟩
  have hok := assignGroups_ok (distinctSources g t) [] hv
    (by rw [hids']; exact fun x hx => hx) (fun x hx => absurd hx (List.not_mem_nil)) (hempty _)
  rw [List.append_nil] at hok
  have hgroup : ∀ n ∈ g.sources t, n ∈ (distinctSources g t).reverse := by
    intro n hn
    exact List.mem_reverse.2 (mem_distinctSources.2 hn)
  refine ⟨fun n hn => ?_, fun i hi => ?_, fun n hn m hm => ?_⟩
  · obtain ⟨r, i, -, h2, h3⟩ := hok.group n (hgroup n hn)
    exact ⟨i, h3, hok.lt r i h2⟩
  · obtain ⟨n, hn, hni⟩ := hok.used i hi
    exact ⟨n, mem_distinctSources.1 (List.mem_reverse.1 hn), hni⟩
  · obtain ⟨r, i, h1, h2, h3⟩ := hok.group n (hgroup n hn)
    obtain ⟨r', j, h1', h2', h3'⟩ := hok.group m (hgroup m hm)
    have hlk : (joinGroupsOf g t).1.lookup n = (joinGroupsOf g t).1.lookup m ↔ r = r' := by
      change (assignGroups _ _ _ _).1.lookup n = (assignGroups _ _ _ _).1.lookup m ↔ _
      rw [h3, h3', Option.some.injEq]
      constructor
      · rintro rfl; exact hok.inj r r' i h2 h2'
      · rintro rfl; rw [h2] at h2'; exact Option.some.inj h2'
    rw [hlk, ← UnionFind.sameSet_iff h1 h1']
    exact UnionFind.sameSet_unionAll hpairs (mem_distinctSources.2 hn) (mem_distinctSources.2 hm)

theorem computeJoinTypes_fields (g : CompiledGraph) : ∀ (ks : List String) (acc : CompiledGraph),
    ∃ jt jg jc, ks.foldl (computeJoinType g) acc =
      { acc with joinTypes := jt, joinGroups := jg, joinGroupCount := jc } := by
  intro ks
  induction ks with
  | nil => exact fun acc => ⟨_, _, _, rfl⟩
  | cons k ks ih =>
    intro acc
    obtain ⟨jt, jg, jc, h⟩ := ih (computeJoinType g acc k)
    refine ⟨jt, jg, jc, ?_⟩
    rw [List.foldl_cons, h, computeJoinType]
    split <;> rfl

private theorem foldl_groupCount (g : CompiledGraph) (t : String) : ∀ (ks : List String) (acc : CompiledGraph),
    (ks.foldl (computeJoinType g) acc).groupCount t =
      if t ∈ ks then (if g.sources t = [] then 0 else (joinGroupsOf g t).2) else acc.groupCount t := by
  intro ks
  induction ks with
  | nil => simp
  | cons k ks ih =>
    intro acc
    rw [List.foldl_cons, ih]
    by_cases htk : t ∈ ks
    · rw [if_pos htk, if_pos (List.mem_cons_of_mem _ htk)]
    · rw [if_neg htk]
      by_cases ht : t = k
      · subst ht
        rw [if_pos (List.mem_cons_self ..), computeJoinType]
        split <;> simp [CompiledGraph.groupCount]
      · rw [if_neg (by simp [ht, htk]), computeJoinType]
        split <;> simp [CompiledGraph.groupCount, AList.getD_insert_of_ne _ _ _ ht]

private theorem foldl_groupOf (g : CompiledGraph) (t n : String) : ∀ (ks : List String) (acc : CompiledGraph),
    (ks.foldl (computeJoinType g) acc).groupOf t n =
      if t ∈ ks ∧ g.sources t ≠ [] then (joinGroupsOf g t).1.lookup n else acc.groupOf t n := by
  intro ks
  induction ks with
  | nil => simp
  | cons k ks ih =>
    intro acc
    rw [List.foldl_cons, ih]
    by_cases hs : g.sources t = []
    · rw [if_neg (by simp [hs]), if_neg (by simp [hs]), computeJoinType]
      split
      · rfl
      · rename_i hk
        have ht : t ≠ k := fun h => hk (h ▸ hs)
        simp [CompiledGraph.groupOf, AList.getD_insert_of_ne _ _ _ ht]
    · by_cases htk : t ∈ ks
      · rw [if_pos ⟨htk, hs⟩, if_pos ⟨List.mem_cons_of_mem _ htk, hs⟩]
      · rw [if_neg (by simp [htk])]
        by_cases ht : t = k
        · subst ht
          rw [if_pos ⟨List.mem_cons_self .., hs⟩, computeJoinType, if_neg hs]
          simp [CompiledGraph.groupOf]
        · rw [if_neg (by simp [ht, htk]), computeJoinType]
          split <;> simp [CompiledGraph.groupOf, AList.getD_insert_of_ne _ _ _ ht]

private theorem foldl_counted (g : CompiledGraph) (t : String) : ∀ (ks : List String) (acc : CompiledGraph),
    t ∈ (ks.foldl (computeJoinType g) acc).joinGroupCount ↔ t ∈ ks ∨ t ∈ acc.joinGroupCount := by
  intro ks
  induction ks with
  | nil => simp
  | cons k ks ih =>
    intro acc
    rw [List.foldl_cons, ih, computeJoinType]
    split <;> simp only [AList.mem_insert, List.mem_cons] <;> exact or_left_comm.trans or_assoc.symm

/-! ### Aliases -/

private theorem validateAliases_spec {g : CompiledGraph} {ps : List (String × CompiledNode)} {seen : GoMap String}
    (h : validateAliases g ps seen = none) :
    (∀ p ∈ ps, p.2.asName ≠ "" → p.2.asName ∉ g.nodes ∧ p.2.asName ∉ seen) ∧
      ps.Pairwise fun p q => p.2.asName = q.2.asName → p.2.asName = "" := by
  induction ps generalizing seen with
  | nil => simp
  | cons p ps ih =>
    obtain ⟨id, n⟩ := p
    rw [validateAliases] at h
    split at h
    · rename_i has
      obtain ⟨h1, h2⟩ := ih h
      refine ⟨List.forall_mem_cons.2 ⟨fun hne => absurd has hne, h1⟩, List.pairwise_cons.2 ⟨?_, h2⟩⟩
      exact fun q _ _ => has
    · split at h
      · cases h
      · rename_i hnode
        split at h
        · cases h
        · rename_i hseen
          obtain ⟨h1, h2⟩ := ih h
          have hnew : ∀ q ∈ ps, q.2.asName ≠ "" → q.2.asName ∉ g.nodes ∧ n.asName ≠ q.2.asName ∧
              q.2.asName ∉ seen := by
            intro q hq hne
            obtain ⟨hq1, hq2⟩ := h1 q hq hne
            rw [AList.mem_insert, not_or] at hq2
            exact ⟨hq1, fun he => hq2.1 he.symm, hq2.2⟩
          refine ⟨List.forall_mem_cons.2 ⟨fun _ => ⟨hnode, AList.lookup_eq_none.1 hseen⟩, fun q hq hne => ?_⟩,
            List.pairwise_cons.2 ⟨fun q hq he => ?_, h2⟩⟩
          · exact ⟨(hnew q hq hne).1, (hnew q hq hne).2.2⟩
          · by_contra hne
            exact (hnew q hq (he ▸ hne)).2.1 he

private theorem outputKey_inj {g : CompiledGraph} (h : validateAliases g g.nodes.toPairs ∅ = none) {n m : String}
    (hn : n ∈ g.nodes) (hm : m ∈ g.nodes) (hk : g.outputKey n = g.outputKey m) : n = m := by
  obtain ⟨hfree, hpw⟩ := validateAliases_spec h
  obtain ⟨a, ha⟩ := AList.exists_lookup_of_mem hn
  obtain ⟨b, hb⟩ := AList.exists_lookup_of_mem hm
  have hpa := AList.mem_toPairs.2 ha
  have hpb := AList.mem_toPairs.2 hb
  simp only [CompiledGraph.outputKey, ha, hb] at hk
  by_cases hae : a.asName = "" <;> by_cases hbe : b.asName = ""
  · rw [if_pos hae, if_pos hbe] at hk; exact hk
  · rw [if_pos hae, if_neg hbe] at hk
    exact absurd (hk ▸ hn) (hfree _ hpb hbe).1
  · rw [if_neg hae, if_pos hbe] at hk
    exact absurd (hk ▸ hm) (hfree _ hpa hae).1
  · rw [if_neg hae, if_neg hbe] at hk
    by_contra hne
    have hsymm : Std.Symm fun p q : String × CompiledNode => (p.2.asName = q.2.asName → p.2.asName = "") :=
      ⟨fun p q hpq he => he.trans (hpq he.symm)⟩
    exact hae (hpw.forall hpa hpb (fun he => hne (congrArg Prod.fst he)) hk)

/-! ### The compiled graph -/

private theorem mem_terminalNodes {g : CompiledGraph} {n : String} :
    n ∈ (classifyNodes g).terminalNodes ↔ n ∈ g.nodes ∧ ∀ o, o ≠ "error" → g.targets n o = [] := by
  have hall : ((g.outputs n).toPairs.all fun p => p.1 = "error" ∨ p.2 = []) = true ↔
      ∀ o, o ≠ "error" → g.targets n o = [] := by
    rw [List.all_eq_true]
    constructor
    · intro h o ho
      cases hl : (g.outputs n).lookup o with
      | none => simp [CompiledGraph.targets, AList.getD, hl]
      | some ts =>
        have := h (o, ts) (AList.mem_toPairs.2 hl)
        simp only [ho, false_or, decide_eq_true_eq] at this
        rw [CompiledGraph.targets, AList.getD_of_lookup hl, this]
    · rintro h ⟨o, ts⟩ hp
      have hl := AList.mem_toPairs.1 hp
      by_cases ho : o = "error"
      · simp [ho]
      · have := h o ho
        rw [CompiledGraph.targets, AList.getD_of_lookup hl] at this
        simp [this]
  simp only [classifyNodes, List.mem_filter, mem_sortStrings, hall, ← AList.mem_keys]

private theorem joins_groups {g₀ : CompiledGraph} (hedges : EdgesOk g₀) {t n : String} (hn : n ∈ g₀.sources t) :
    (computeJoinTypes (classifyNodes g₀)).groupCount t = (joinGroupsOf (classifyNodes g₀) t).2 ∧
    ∀ m, (computeJoinTypes (classifyNodes g₀)).groupOf t m = (joinGroupsOf (classifyNodes g₀) t).1.lookup m := by
  have hne : (classifyNodes g₀).sources t ≠ [] := List.ne_nil_of_mem hn
  have hnode : t ∈ (classifyNodes g₀).nodes.keys := by
    obtain ⟨o, ho⟩ := (hedges.mem_sources t n).1 hn
    exact hedges.target_mem n o t ho
  refine ⟨?_, fun m => ?_⟩
  · rw [computeJoinTypes, foldl_groupCount, if_pos hnode, if_neg hne]
  · rw [computeJoinTypes, foldl_groupOf, if_pos ⟨hnode, hne⟩]

private theorem joins_groupless {g₀ : CompiledGraph} (hedges : EdgesOk g₀) {t : String} (ht : g₀.sources t = []) :
    (computeJoinTypes (classifyNodes g₀)).groupCount t = 0 := by
  rw [computeJoinTypes, foldl_groupCount, if_pos (show (classifyNodes g₀).sources t = [] from ht)]
  simp [classifyNodes, CompiledGraph.groupCount, hedges.uncounted]

private theorem joins_compiled {g₀ : CompiledGraph} (hedges : EdgesOk g₀)
    (hval : validateAliases (computeJoinTypes (classifyNodes g₀)) (computeJoinTypes (classifyNodes g₀)).nodes.toPairs ∅
      = none) : Compiled (computeJoinTypes (classifyNodes g₀)) := by
  obtain ⟨jt, jg, jc, hfields⟩ := computeJoinTypes_fields (classifyNodes g₀) g₀.nodes.keys (classifyNodes g₀)
  have hgroups := fun {t n : String} => joins_groups hedges (t := t) (n := n)
  have hgroupless := fun {t : String} => joins_groupless hedges (t := t)
  have hkeys := fun t => foldl_counted (classifyNodes g₀) t g₀.nodes.keys (classifyNodes g₀)
  have hg : computeJoinTypes (classifyNodes g₀) = g₀.nodes.keys.foldl (computeJoinType (classifyNodes g₀))
    (classifyNodes g₀) := rfl
  rw [← hg] at hfields hkeys
  set g := computeJoinTypes (classifyNodes g₀)
  have hnodes : g.nodes = g₀.nodes := by rw [hfields]; rfl
  have htgt : ∀ n o, g.targets n o = g₀.targets n o := by rw [hfields]; exact fun n o => rfl
  have hsrc : ∀ t, g.sources t = g₀.sources t := by rw [hfields]; exact fun t => rfl
  have hchain : ∀ t, exclusivePairs g t = exclusivePairs (classifyNodes g₀) t := by rw [hfields]; exact fun t => rfl
  have hentry : g.entryNodes = (classifyNodes g₀).entryNodes := by rw [hfields]
  have hterm : g.terminalNodes = (classifyNodes g₀).terminalNodes := by rw [hfields]
  refine ⟨?_, ?_, ?_, ?_, ?_, ?_, ?_, ?_, ?_, ?_, ?_, ?_, outputKey_inj hval⟩
  · rw [hnodes]; exact hedges.node_id _ _
  · intro t n
    rw [hsrc, hedges.mem_sources]
    simp only [htgt]
  · intro n o t ht
    rw [htgt] at ht
    obtain ⟨node, hn, -⟩ := hedges.declared n o t ht
    rw [hnodes]; exact AList.mem_of_lookup hn
  · intro n o t ht
    rw [htgt] at ht
    rw [hnodes]; exact hedges.target_mem n o t ht
  · intro n o t ht
    rw [htgt] at ht
    rw [hnodes]; exact hedges.declared n o t ht
  · intro n
    rw [hentry, hnodes, hsrc]
    simp [classifyNodes, AList.mem_keys]
  · rw [hentry]
    exact (nodup_sortStrings.2 g₀.nodes.keys_nodup).filter _
  · intro n
    rw [hterm, hnodes]
    simp only [htgt]
    exact mem_terminalNodes
  · intro t n hn
    rw [hsrc] at hn
    obtain ⟨hc, hgr⟩ := hgroups hn
    rw [hc, hgr]
    exact (joinGroupsOf_spec (classifyNodes g₀) t).1 n hn
  · intro t i hi
    have hne : g₀.sources t ≠ [] := by
      intro he
      have hzero := hgroupless he
      omega
    obtain ⟨n, hn⟩ := List.exists_mem_of_ne_nil _ hne
    obtain ⟨hc, hgr⟩ := hgroups hn
    rw [hc] at hi
    obtain ⟨m, hm, hmi⟩ := (joinGroupsOf_spec (classifyNodes g₀) t).2.1 i hi
    exact ⟨m, by rw [hsrc]; exact hm, by rw [hgr]; exact hmi⟩
  · intro t n m hn hm
    rw [hsrc] at hn hm
    obtain ⟨-, hgr⟩ := hgroups hn
    rw [hgr, hgr, ExclusiveChain, hchain]
    exact (joinGroupsOf_spec (classifyNodes g₀) t).2.2 n hn m hm
  · intro n
    rw [← AList.mem_keys, hkeys, hnodes]
    simp only [classifyNodes, hedges.uncounted, AList.notMem_empty, or_false]
    exact AList.mem_keys.symm

theorem compile_stages {wf : WorkflowConfig} {resolver : Option NodeOutputResolver} {g : CompiledGraph}
    (h : compile wf resolver = .ok g) :
    ∃ timeout g₁ g₂ st,
      compileNodes (resolver.getD defaultOutputResolver) (emptyGraph wf.id timeout) wf.nodes.toPairs = .ok g₁ ∧
      compileEdges g₁ wf.edges = .ok g₂ ∧ detectCycle (classifyNodes g₂) = .ok st ∧
      g = computeJoinTypes (classifyNodes g₂) := by
  rw [compile, buildGraph] at h
  cases ht : parseTimeout wf.timeout with
  | error e => simp [ht] at h
  | ok timeout =>
    cases hn : compileNodes (resolver.getD defaultOutputResolver) (emptyGraph wf.id timeout) wf.nodes.toPairs with
    | error e => simp [ht, hn] at h
    | ok g₁ =>
      cases he : compileEdges g₁ wf.edges with
      | error e => simp [ht, hn, he] at h
      | ok g₂ =>
        cases hc : detectCycle (classifyNodes g₂) with
        | error path => simp [ht, hn, he, hc] at h
        | ok st =>
          simp only [ht, hn, he, hc] at h
          refine ⟨timeout, g₁, g₂, st, hn, he, hc, ?_⟩
          split at h
          · cases h
          · split at h
            · cases h
            · cases h
              rfl

theorem compile_compiled {wf : WorkflowConfig} {resolver : Option NodeOutputResolver} {g : CompiledGraph}
    (h : compile wf resolver = .ok g) : Compiled g := by
  rw [compile] at h
  split at h
  · cases h
  · rename_i g1 hg1
    obtain ⟨g₀, hedges, rfl⟩ := buildGraph_ok hg1
    split at h
    · cases h
    · dsimp only at h
      split at h
      · cases h
      · rename_i hval
        split at h
        · cases h
        · cases h
          exact joins_compiled hedges hval

/-! ### The exclusivity test -/

section Exclusive

variable {g : CompiledGraph} {n m t c o : String}

/-- There is an edge from `n` to `t`. -/
def CompiledGraph.HasEdge (g : CompiledGraph) (n t : String) : Prop := ∃ o, t ∈ g.targets n o

/-- The leg of `n` into `t` descends from the output `o` of `c`. -/
def DescendsFrom (g : CompiledGraph) (t n c o : String) : Prop :=
  if n = c then t ∈ g.targets c o else ∃ x ∈ g.targets c o, Relation.ReflTransGen g.HasEdge x n

theorem mem_successors : t ∈ g.successors n ↔ g.HasEdge n t := by
  simp only [CompiledGraph.successors, CompiledGraph.HasEdge, CompiledGraph.targets, List.mem_flatMap]
  constructor
  · rintro ⟨⟨o, ts⟩, hp, ht⟩
    exact ⟨o, by rw [AList.getD_of_lookup (AList.mem_toPairs.1 hp)]; exact ht⟩
  · rintro ⟨o, ht⟩
    cases hl : (g.outputs n).lookup o with
    | none => simp [AList.getD, hl] at ht
    | some ts =>
      rw [AList.getD_of_lookup hl] at ht
      exact ⟨(o, ts), AList.mem_toPairs.2 hl, ht⟩

theorem output_mem_keys (h : t ∈ g.targets c o) : o ∈ (g.outputs c).keys := by
  by_contra hk
  rw [← AList.mem_keys, ← AList.lookup_eq_none] at hk
  simp [CompiledGraph.targets, AList.getD, hk] at h

theorem Compiled.mem_traceAncestors (hg : Compiled g) :
    c ∈ traceAncestors g n ↔ Relation.TransGen g.HasEdge c n := by
  have hsources : ∀ a, ∀ x ∈ g.sources a, x ∈ g.nodes.keys := by
    intro a x hx
    obtain ⟨o, ho⟩ := hg.mem_sources.1 hx
    exact AList.mem_keys.1 (hg.source_mem ho)
  have hswap : (fun a b => b ∈ g.sources a) = Function.swap g.HasEdge := by
    funext a b
    exact propext hg.mem_sources
  rw [traceAncestors, Worklist.mem_closure g.nodes.keys_nodup hsources (le_refl _), hswap, Relation.transGen_swap]

theorem Compiled.reachableFrom_iff (hg : Compiled g) {starts : List String} :
    reachableFrom g starts t = true ↔ ∃ x ∈ starts, Relation.ReflTransGen g.HasEdge x t := by
  have htargets : ∀ a, ∀ x ∈ g.successors a, x ∈ g.nodes.keys := by
    intro a x hx
    obtain ⟨o, ho⟩ := mem_successors.1 hx
    exact AList.mem_keys.1 (hg.target_mem ho)
  have hedge : (fun a b => b ∈ g.successors a) = g.HasEdge := by
    funext a b
    exact propext mem_successors
  rw [reachableFrom, Worklist.search_eq_true g.nodes.keys_nodup htargets (fun _ => Iff.rfl) (le_refl _), hedge]

theorem Compiled.mem_descendedOutputs (hg : Compiled g) : o ∈ descendedOutputs g c t n ↔ DescendsFrom g t n c o := by
  rw [descendedOutputs, List.mem_filter, mem_sortStrings, DescendsFrom]
  by_cases hnc : n = c
  · simp only [hnc, ↓reduceIte, decide_eq_true_eq, and_iff_right_iff_imp]
    exact output_mem_keys
  · simp only [hnc, ↓reduceIte, hg.reachableFrom_iff, and_iff_right_iff_imp]
    rintro ⟨x, hx, -⟩
    exact output_mem_keys hx

/-- A leg that descends from an output of `c` is a leg of `c` or of a node below it. -/
theorem DescendsFrom.mem_ancestors (hg : Compiled g) (h : DescendsFrom g t n c o) : c ∈ n :: traceAncestors g n := by
  rw [DescendsFrom] at h
  split_ifs at h with hnc
  · exact hnc ▸ List.mem_cons_self ..
  · obtain ⟨x, hx, hr⟩ := h
    exact List.mem_cons_of_mem _ (hg.mem_traceAncestors.2 (.head' ⟨o, hx⟩ hr))

/-- `mutuallyExclusive` accepts two legs exactly when the outputs of some node from which they descend are different.
It does not ask whether the legs can be reached without that node. -/
theorem Compiled.mutuallyExclusive_iff (hg : Compiled g) :
    mutuallyExclusive g t n m = true ↔
      ∃ c, (∃ o, DescendsFrom g t n c o) ∧ (∃ o, DescendsFrom g t m c o) ∧
        ∀ o, DescendsFrom g t n c o → ¬ DescendsFrom g t m c o := by
  simp only [mutuallyExclusive, List.any_eq_true, Bool.and_eq_true, decide_eq_true_eq, List.all_eq_true,
    hg.mem_descendedOutputs]
  constructor
  · rintro ⟨c, -, ⟨-, -⟩, ⟨hn, hm⟩, hdis⟩
    obtain ⟨o, ho⟩ := List.exists_mem_of_ne_nil _ hn
    obtain ⟨o', ho'⟩ := List.exists_mem_of_ne_nil _ hm
    exact ⟨c, ⟨o, hg.mem_descendedOutputs.1 ho⟩, ⟨o', hg.mem_descendedOutputs.1 ho'⟩, hdis⟩
  · rintro ⟨c, ⟨o, ho⟩, ⟨o', ho'⟩, hdis⟩
    have hmem := hg.mem_descendedOutputs.2 ho
    have hmem' := hg.mem_descendedOutputs.2 ho'
    have hne : o ≠ o' := fun heq => hdis o ho (heq ▸ ho')
    refine ⟨c, ho.mem_ancestors hg, ⟨ho'.mem_ancestors hg, ?_⟩,
      ⟨List.ne_nil_of_mem hmem, List.ne_nil_of_mem hmem'⟩, hdis⟩
    have hkeys : ∀ x ∈ [o, o'], x ∈ (g.outputs c).keys := by
      intro x hx
      rcases List.mem_pair.1 hx with rfl | rfl
      · exact mem_sortStrings.1 (List.mem_filter.1 hmem).1
      · exact mem_sortStrings.1 (List.mem_filter.1 hmem').1
    have hnd : [o, o'].Nodup := by simp [hne]
    exact (hnd.subperm hkeys).length_le

end Exclusive

end Noda.Engine
