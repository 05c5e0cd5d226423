import Noda.Engine.Graph
import Noda.Lib.Dfs

/-!
# Cycle detection

`detectCycle` is the depth-first search of `Dfs` up to its first report.  The search has no value when the recursion is
deeper, or the climb to the target of a cycle longer, than the fuel; that it has one (`detectCycle_correct`) is that
`detectCycle` terminates.
-/

namespace Noda.Engine

def Color.abs : Color → Dfs.Color
  | .white => .white
  | .gray => .gray
  | .black => .black

/-- A state of `detectCycle` as one of the search. -/
def DfsState.abs (st : DfsState) : Dfs.State String where
  color x := (st.color.getD x .white).abs
  parent x := st.parent.lookup x
  reports := []

theorem DfsState.abs_insert_color (st : DfsState) (x : String) (c : Color) :
    DfsState.abs { st with color := st.color.insert x c } = st.abs.paint x c.abs := by
  simp only [DfsState.abs, Dfs.State.paint, Dfs.State.mk.injEq, and_true]
  funext y
  by_cases hyx : y = x
  · simp [hyx]
  · rw [Function.update_of_ne hyx, AList.getD_insert_of_ne _ _ _ hyx]

theorem DfsState.abs_insert_parent (st : DfsState) (x node : String) :
    DfsState.abs { st with parent := st.parent.insert x node } = st.abs.adopt x node := by
  simp only [DfsState.abs, Dfs.State.adopt, Dfs.State.mk.injEq, and_true, true_and]
  funext y
  by_cases hyx : y = x
  · subst hyx
    simp
  · rw [Function.update_of_ne hyx, AList.lookup_insert_ne hyx]

private theorem climb_of_getLast? {st : DfsState} {target : String} {fuel : Nat} {cur : String}
    (h : (cur :: Dfs.climb "" st.abs.parent target fuel cur).getLast? = some target) :
    climb st.parent target fuel cur = some (Dfs.climb "" st.abs.parent target fuel cur) := by
  induction fuel generalizing cur with
  | zero =>
    have hcur : cur = target := by simpa [Dfs.climb] using h
    simp [climb, Dfs.climb, hcur]
  | succ fuel ih =>
    by_cases hcur : cur = target
    · simp [climb, Dfs.climb, hcur]
    · have hup : (st.abs.parent cur).getD "" = st.parent.getD cur "" := rfl
      rw [Dfs.climb, if_neg hcur, hup] at h ⊢
      rw [List.getLast?_cons_cons] at h
      rw [climb, if_neg hcur, ih h]
      rfl

/-- One or more steps of the search, from `c`, to the result of a call with the stack `stack` under it. -/
def Follows (g : CompiledGraph) (stack : List (String × List String)) (todo : List String) (c : Dfs.Config String) :
    Except (List String) DfsState → Prop
  | .ok st => Dfs.Steps (sortedSuccessors g) "" g.nodes.keys.length c ⟨stack, todo, st.abs⟩
  | .error path => ∃ c' r, Dfs.Steps (sortedSuccessors g) "" g.nodes.keys.length c c' ∧ c'.state.reports = [r] ∧
      r.path = path

theorem Follows.trans {g : CompiledGraph} {stack : List (String × List String)} {todo : List String}
    {c c' : Dfs.Config String} {r : Except (List String) DfsState} (h : Follows g stack todo c' r)
    (hs : Dfs.Steps (sortedSuccessors g) "" g.nodes.keys.length c c') : Follows g stack todo c r := by
  cases r with
  | ok st => exact Relation.ReflTransGen.trans hs h
  | error path =>
    obtain ⟨c'', rep, hs', hr, hpath⟩ := h
    exact ⟨c'', rep, Relation.ReflTransGen.trans hs hs', hr, hpath⟩

section Search

variable {g : CompiledGraph}

/-- Every edge leaves a node of the graph. -/
def CompiledGraph.SourcesExist (g : CompiledGraph) : Prop := ∀ n o t, t ∈ g.targets n o → n ∈ g.nodes

private theorem mem_sortedSuccessors {n t : String} : t ∈ sortedSuccessors g n ↔ g.HasEdge n t := by
  simp only [sortedSuccessors, CompiledGraph.HasEdge, List.mem_flatMap, mem_sortStrings]
  exact ⟨fun ⟨o, _, ht⟩ => ⟨o, ht⟩, fun ⟨o, ht⟩ => ⟨o, output_mem_keys ht, ht⟩⟩

theorem CompiledGraph.SourcesExist.mem_keys (hg : g.SourcesExist) (x : String) (hx : sortedSuccessors g x ≠ []) :
    x ∈ g.nodes.keys := by
  obtain ⟨t, ht⟩ := List.exists_mem_of_ne_nil _ hx
  obtain ⟨o, ho⟩ := mem_sortedSuccessors.mp ht
  exact AList.mem_keys.mp (hg x o t ho)

/-- What a call of `dfs` with this fuel does, at any state with few enough white nodes. -/
def VisitOk (g : CompiledGraph) (fuel : Nat) (visit : String → DfsState → Option (Except (List String) DfsState)) :
    Prop :=
  ∀ node st stack todo, st.abs.color node = .white → Dfs.whites g.nodes.keys st.abs + 1 ≤ fuel →
    Dfs.Inv (sortedSuccessors g) ⟨(node, sortedSuccessors g node) :: stack, todo, st.abs.paint node .gray⟩ →
    ∃ r, visit node st = some r ∧
      Follows g stack todo ⟨(node, sortedSuccessors g node) :: stack, todo, st.abs.paint node .gray⟩ r

private theorem visitTargets_spec (hg : g.SourcesExist) {fuel : Nat}
    {visit : String → DfsState → Option (Except (List String) DfsState)} (hvisit : VisitOk g fuel visit)
    {node : String} {targets : List String} {st : DfsState} {stack : List (String × List String)} {todo : List String}
    (hinv : Dfs.Inv (sortedSuccessors g) ⟨(node, targets) :: stack, todo, st.abs⟩)
    (hfuel : targets ≠ [] → Dfs.whites g.nodes.keys st.abs + 1 ≤ fuel) :
    ∃ r, visitTargets g visit node targets st = some r ∧
      Follows g stack todo ⟨(node, targets) :: stack, todo, st.abs⟩ r := by
  induction targets generalizing st with
  | nil =>
    refine ⟨_, rfl, ?_⟩
    show Dfs.Steps _ _ _ _ _
    rw [DfsState.abs_insert_color]
    exact .single .leave
  | cons target rest ih =>
    have hwhites := hfuel (List.cons_ne_nil _ _)
    rw [visitTargets]
    cases hcolor : st.color.getD target .white with
    | gray =>
      have hgray : st.abs.color target = .gray := by simp [DfsState.abs, hcolor, Color.abs]
      have hmem : target ∈ ((node, target :: rest) :: stack).map Prod.fst := by
        rcases hinv.gray target hgray with hmem | ⟨r, hr, -⟩
        · exact hmem
        · cases hr
      have hgenuine : Dfs.ClosedWalk (sortedSuccessors g) (st.abs.cycle "" g.nodes.keys.length node target) ∧ _ :=
        hinv.report_genuine hg.mem_keys (Nat.le_succ _) hmem
      -- the walk ends at the target, so the climb does
      have hlast : (node :: Dfs.climb "" st.abs.parent target g.nodes.keys.length node).getLast? = some target := by
        have hclosed := hgenuine.1.closed
        rw [Dfs.State.cycle, List.head?_reverse, List.getLast?_reverse, List.getLast?_cons_cons] at hclosed
        simpa using hclosed
      refine ⟨.error (st.abs.cycle "" g.nodes.keys.length node target), ?_, ?_⟩
      · simp only [climb_of_getLast? hlast]
        rfl
      · exact ⟨_, _, .single (.hit hgray), rfl, rfl⟩
    | white =>
      have hwhite : st.abs.color target = .white := by simp [DfsState.abs, hcolor, Color.abs]
      have hstep : Dfs.Step (sortedSuccessors g) "" g.nodes.keys.length ⟨(node, target :: rest) :: stack, todo, st.abs⟩
          ⟨(target, sortedSuccessors g target) :: (node, rest) :: stack, todo,
            (st.abs.adopt target node).paint target .gray⟩ := .child hwhite
      obtain ⟨r, hr, hfollows⟩ :=
        hvisit target { st with parent := st.parent.insert target node } ((node, rest) :: stack)
        todo hwhite hwhites (by rw [DfsState.abs_insert_parent]; exact hinv.step hstep)
      rw [DfsState.abs_insert_parent] at hfollows
      simp only [hr]
      cases r with
      | error path => exact ⟨_, rfl, hfollows.trans (.single hstep)⟩
      | ok st' =>
        have hsteps : Dfs.Steps (sortedSuccessors g) "" g.nodes.keys.length ⟨(node, target :: rest) :: stack, todo,
            st.abs⟩
            ⟨(node, rest) :: stack, todo, st'.abs⟩ := .head hstep hfollows
        have hle := hsteps.whites_le g.nodes.keys
        obtain ⟨r, hr, hrest⟩ := ih (hinv.steps hsteps) (fun _ => le_trans (Nat.succ_le_succ hle) hwhites)
        exact ⟨r, hr, hrest.trans hsteps⟩
    | black =>
      have hblack : st.abs.color target = .black := by simp [DfsState.abs, hcolor, Color.abs]
      have hstep : Dfs.Step (sortedSuccessors g) "" g.nodes.keys.length ⟨(node, target :: rest) :: stack, todo, st.abs⟩
          ⟨(node, rest) :: stack, todo, st.abs⟩ := .pass hblack
      obtain ⟨r, hr, hrest⟩ := ih (hinv.step hstep) (fun _ => hwhites)
      exact ⟨r, hr, hrest.trans (.single hstep)⟩

/-- With more fuel than there are white nodes, the recursion comes to its end. -/
private theorem dfs_spec (hg : g.SourcesExist) (fuel : Nat) : VisitOk g fuel (dfs g fuel) := by
  induction fuel with
  | zero =>
    intro node st stack todo _ hfuel
    omega
  | succ fuel ih =>
    intro node st stack todo hwhite hfuel hinv
    rw [dfs]
    have hpaint : DfsState.abs { st with color := st.color.insert node .gray } = st.abs.paint node .gray :=
      st.abs_insert_color node .gray
    rw [← hpaint] at hinv ⊢
    refine visitTargets_spec hg ih hinv fun hne => ?_
    have hlt := Dfs.whites_paint_lt (hg.mem_keys node hne) hwhite
    rw [hpaint]
    omega

private theorem visitNodes_spec (hg : g.SourcesExist) {ids : List String} {st : DfsState}
    (hinv : Dfs.Inv (sortedSuccessors g) ⟨[], ids, st.abs⟩) :
    ∃ r, visitNodes g ids st = some r ∧ Follows g [] [] ⟨[], ids, st.abs⟩ r := by
  induction ids generalizing st with
  | nil => exact ⟨_, rfl, .refl⟩
  | cons id rest ih =>
    rw [visitNodes]
    by_cases hcolor : st.color.getD id .white = .white
    · have hwhite : st.abs.color id = .white := by simp [DfsState.abs, hcolor, Color.abs]
      have hstep : Dfs.Step (sortedSuccessors g) "" g.nodes.keys.length ⟨[], id :: rest, st.abs⟩
          ⟨[(id, sortedSuccessors g id)], rest, st.abs.paint id .gray⟩ := .root hwhite
      have hfuel : Dfs.whites g.nodes.keys st.abs + 1 ≤ g.nodes.keys.length + 1 :=
        Nat.succ_le_succ List.countP_le_length
      obtain ⟨r, hr, hfollows⟩ := dfs_spec hg _ id st [] rest hwhite hfuel (hinv.step hstep)
      simp only [if_pos hcolor, hr]
      cases r with
      | error path => exact ⟨_, rfl, hfollows.trans (.single hstep)⟩
      | ok st' =>
        have hsteps : Dfs.Steps (sortedSuccessors g) "" g.nodes.keys.length ⟨[], id :: rest, st.abs⟩
            ⟨[], rest, st'.abs⟩ := .head hstep hfollows
        obtain ⟨r, hr, hrest⟩ := ih (hinv.steps hsteps)
        exact ⟨r, hr, hrest.trans hsteps⟩
    · have hne : st.abs.color id ≠ .white := by
        simp only [DfsState.abs]
        cases hc : st.color.getD id .white with
        | white => exact absurd hc hcolor
        | gray => decide
        | black => decide
      have hstep : Dfs.Step (sortedSuccessors g) "" g.nodes.keys.length ⟨[], id :: rest, st.abs⟩
          ⟨[], rest, st.abs⟩ := .skip hne
      obtain ⟨r, hr, hrest⟩ := ih (hinv.step hstep)
      rw [if_neg hcolor]
      exact ⟨r, hr, hrest.trans (.single hstep)⟩

/-- No node of the graph can be reached from itself. -/
def CompiledGraph.Acyclic (g : CompiledGraph) : Prop := ∀ n, ¬ Relation.TransGen g.HasEdge n n

private theorem edge_sortedSuccessors : Dfs.Edge (sortedSuccessors g) = g.HasEdge := by
  funext n t
  exact propext mem_sortedSuccessors

private theorem detectCycle_search (hg : g.SourcesExist) :
    detectCycleWithin g = some (detectCycle g) ∧
      Follows g [] [] ⟨[], sortStrings g.nodes.keys, {}⟩ (detectCycle g) := by
  have habs : DfsState.abs {} = {} := by
    simp [DfsState.abs, Color.abs]
  have hinitial : Dfs.Inv (sortedSuccessors g) ⟨[], sortStrings g.nodes.keys, DfsState.abs {}⟩ := by
    rw [habs]
    exact Dfs.Inv.initial _
  obtain ⟨r, hr, hfollows⟩ := visitNodes_spec hg hinitial
  have hwithin : detectCycleWithin g = some r := hr
  have hdetect : detectCycle g = r := by
    rw [detectCycle, hwithin, Option.getD_some]
  rw [habs] at hfollows
  rw [hdetect]
  exact ⟨hwithin, hfollows⟩

/-- A result without an error: the graph is acyclic; an error: its path is a closed walk. -/
private theorem detectCycle_result (hg : g.SourcesExist) :
    ((∃ st, detectCycle g = .ok st) ↔ g.Acyclic) ∧
      ∀ path, detectCycle g = .error path →
        2 ≤ path.length ∧ path.head? = path.getLast? ∧ path.IsChain g.HasEdge := by
  have hkeys : ∀ x, sortedSuccessors g x ≠ [] → x ∈ sortStrings g.nodes.keys :=
    fun x hx => mem_sortStrings.mpr (hg.mem_keys x hx)
  have hbound : (sortStrings g.nodes.keys).length ≤ g.nodes.keys.length + 1 := by
    rw [sortStrings, List.length_insertionSort]
    omega
  have hcycle : (∀ a, ¬ Dfs.OnCycle (sortedSuccessors g) a) ↔ g.Acyclic := by
    simp only [Dfs.OnCycle, edge_sortedSuccessors, CompiledGraph.Acyclic]
  have hfollows := (detectCycle_search hg).2
  cases hr : detectCycle g with
  | ok st =>
    rw [hr] at hfollows
    have hiff := Dfs.Steps.noReports_iff hkeys hbound hfollows
    refine ⟨⟨fun _ => hcycle.mp (hiff.mp rfl), fun _ => ⟨st, rfl⟩⟩, fun path h => ?_⟩
    cases h
  | error path =>
    rw [hr] at hfollows
    obtain ⟨c, r, hsteps, hreports, hpath⟩ := hfollows
    have hwalk := Dfs.Steps.first_report hkeys hbound hsteps (r := r) (by rw [hreports]; rfl)
    rw [hpath] at hwalk
    refine ⟨⟨fun hok => ?_, fun hacyclic => ?_⟩, fun path' h => ?_⟩
    · obtain ⟨st, h⟩ := hok
      cases h
    · obtain ⟨a, ha⟩ := hwalk.onCycle
      exact absurd ha (hcycle.mpr hacyclic a)
    · cases h
      exact ⟨hwalk.length, hwalk.closed, edge_sortedSuccessors ▸ hwalk.edges⟩

/-- The stages of `Compile` after `detectCycle` keep nodes and edges. -/
private theorem compile_detectCycle {wf : WorkflowConfig} {resolver : Option NodeOutputResolver}
    (h : compile wf resolver = .ok g) :
    ∃ g' st, detectCycle g' = .ok st ∧ g'.nodes = g.nodes ∧ g'.adjacency = g.adjacency := by
  obtain ⟨timeout, g₁, g₂, st, -, -, hdetect, rfl⟩ := compile_stages h
  obtain ⟨jt, jg, jc, hfields⟩ := computeJoinTypes_fields (classifyNodes g₂) (classifyNodes g₂).nodes.keys
    (classifyNodes g₂)
  refine ⟨classifyNodes g₂, st, hdetect, ?_, ?_⟩
  · rw [computeJoinTypes, hfields]
  · rw [computeJoinTypes, hfields]

/-- `detectCycle` terminates, on any graph whose edges leave its nodes; it returns an error exactly if the graph has a
cycle, and the error lists a closed walk.  The graphs that `Compile` returns are acyclic. -/
theorem detectCycle_correct :
    (∀ g : CompiledGraph, g.SourcesExist →
      detectCycleWithin g = some (detectCycle g) ∧ ((∃ st, detectCycle g = .ok st) ↔ g.Acyclic) ∧
        ∀ path, detectCycle g = .error path →
          2 ≤ path.length ∧ path.head? = path.getLast? ∧ path.IsChain g.HasEdge) ∧
      ∀ wf resolver g, compile wf resolver = .ok g → g.Acyclic := by
  refine ⟨fun g hg => ⟨(detectCycle_search hg).1, detectCycle_result hg⟩, fun wf resolver g h => ?_⟩
  obtain ⟨g', st, hdetect, hnodes, hadj⟩ := compile_detectCycle h
  have htargets : ∀ n o, g'.targets n o = g.targets n o := by
    intro n o
    rw [CompiledGraph.targets, CompiledGraph.targets, CompiledGraph.outputs, CompiledGraph.outputs, hadj]
  have hg' : g'.SourcesExist := by
    intro n o t ht
    rw [hnodes]
    exact (compile_compiled h).source_mem (htargets n o ▸ ht)
  have hacyclic := (detectCycle_result hg').1.mp ⟨st, hdetect⟩
  have hedge : g'.HasEdge = g.HasEdge := by
    funext n t
    simp only [CompiledGraph.HasEdge, htargets]
  rw [CompiledGraph.Acyclic, ← hedge]
  exact hacyclic

/-- Two nodes with an edge each way, and one of them with an edge to itself. -/
def backEdge : CompiledGraph :=
  { emptyGraph "wf" 0 with
    nodes := GoMap.ofPairs [("a", ⟨"a", "x", "", ∅, ∅, [], []⟩), ("b", ⟨"b", "x", "", ∅, ∅, [], []⟩)]
    adjacency := GoMap.ofPairs
      [("a", GoMap.ofPairs [("success", ["b"])]), ("b", GoMap.ofPairs [("error", ["b"]), ("success", ["a", "a"])])] }

private theorem backEdge_sourcesExist : backEdge.SourcesExist := by
  intro n o t ht
  by_contra hn
  have hnone : backEdge.adjacency.lookup n = none := by
    rw [AList.lookup_eq_none, AList.mem_keys]
    exact hn
  simp [CompiledGraph.targets, CompiledGraph.outputs, AList.getD, hnone] at ht

/-- A workflow of two nodes and an edge. -/
def singleEdge : WorkflowConfig where
  id := "wf"
  nodes := GoMap.ofPairs [("a", { type := "x" }), ("b", { type := "x" })]
  edges := [⟨"a", "b", "", none⟩]

theorem detectCycle_correct_backEdge :
    (∃ path, detectCycle backEdge = .error path ∧ path.head? = path.getLast? ∧ path.IsChain backEdge.HasEdge) ∧
      ∃ g, compile singleEdge none = .ok g ∧ g.Acyclic := by
  obtain ⟨g, hg, -⟩ := exists_compile singleEdge none (p := fun _ => true) (by decide +kernel)
  refine ⟨?_, g, hg, detectCycle_correct.2 _ _ g hg⟩
  obtain ⟨-, -, hwalk⟩ := detectCycle_correct.1 backEdge backEdge_sourcesExist
  have herror : (detectCycle backEdge).isOk = false := by decide +kernel
  cases hr : detectCycle backEdge with
  | ok st =>
    rw [hr] at herror
    cases herror
  | error path => exact ⟨path, rfl, (hwalk path hr).2⟩

end Search

end Noda.Engine
