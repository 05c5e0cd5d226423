import Noda.Config.Resolved
import Noda.Lib.DfsReports

/-!
# Circular workflow references

`ValidateCrossRefs` collects which workflow runs which (`wfGraph`), and `detectWorkflowCycles` searches the references
for cycles.  The order in which it visits the workflows and their references is that of Go's maps, so any order.

* `detectWorkflowCycles_search`: the function is the search of `Dfs`;
* `detectWorkflowCycles_correct_iff`: the graphs on which every path it reports is a cycle, in every order.
-/

namespace Noda.Config

open Dfs (State Steps Step)

/-! ### The graph -/

/-- The references of the workflows.  A workflow without an id has no entry. -/
structure ReferenceGraph where
  refs : GoMap (List String)
  named : "" ∉ refs

namespace ReferenceGraph

/-- `graph[node]`. -/
def references (g : ReferenceGraph) (node : String) : List String := g.refs.getD node []

/-- The workflow `x` has a reference to `y`. -/
def Refers (g : ReferenceGraph) (x y : String) : Prop := y ∈ g.references x

/-- `wfGraph[wfID] = append(wfGraph[wfID], targetID)`, for a workflow with an id. -/
def add (g : ReferenceGraph) (wfID targetID : String) : ReferenceGraph :=
  if h : wfID = "" then g
  else
    { refs := g.refs.modify wfID [] (· ++ [targetID])
      named := by
        rw [AList.modify, AList.mem_insert, not_or]
        exact ⟨Ne.symm h, g.named⟩ }

end ReferenceGraph

/-- The workflow that a node runs. -/
def nodeTarget (node : AnyMap) : Option String :=
  if strField node "type" = some "workflow.run" ∨ strField node "type" = some "control.loop" then
    (mapField node "config").bind (strField · "workflow")
  else none

def workflowTargets (wf : AnyMap) : List String :=
  ((mapField wf "nodes").map fun nodes => nodes.toPairs.filterMap fun e => e.2.asMap.bind nodeTarget).getD []

/-- The part of `ValidateCrossRefs` that collects the references. -/
def wfGraph (workflows : Section) : ReferenceGraph :=
  workflows.toPairs.foldl
    (fun g e => (workflowTargets e.2).foldl (fun g targetID => g.add ((strField e.2 "id").getD "") targetID) g)
    ⟨∅, AList.notMem_empty _⟩

/-! ### The search -/

def formatCycle (ids : List String) : String := " → ".intercalate ids

/-- An error of `detectWorkflowCycles`, with the path that its message shows. -/
structure CycleError where
  cycle : List String
  message : String
  deriving DecidableEq, Repr

def cycleError (cycle : List String) : CycleError := ⟨cycle, "circular workflow reference: " ++ formatCycle cycle⟩

/-- The loop of `dfs` over the references of a workflow. -/
def visitReferences (visit : String → State String → Option (State String)) (bound : Nat) (node : String) :
    List String → State String → Option (State String)
  | [], st => some (st.paint node .black)
  | next :: rest, st =>
    match st.color next with
    | .gray => some (st.report "" bound node next)
    | .white =>
      match visit next (st.adopt next node) with
      | none => none
      | some st => visitReferences visit bound node rest st
    | .black => visitReferences visit bound node rest st

/-- The inner function `dfs`, if the recursion is not deeper than the fuel. -/
def dfs (g : ReferenceGraph) : Nat → String → State String → Option (State String)
  | 0, _, _ => none
  | fuel + 1, node, st =>
    visitReferences (dfs g fuel) (g.refs.keys.length + 1) node (g.references node) (st.paint node .gray)

/-- The loop over the workflows. -/
def visitWorkflows (g : ReferenceGraph) : List String → State String → Option (State String)
  | [], st => some st
  | node :: rest, st =>
    if st.color node = .white then
      match dfs g (g.refs.keys.length + 1) node st with
      | none => none
      | some st => visitWorkflows g rest st
    else visitWorkflows g rest st

/-- `detectWorkflowCycles`, in the order of the map. -/
def detectWorkflowCycles (g : ReferenceGraph) : Option (List CycleError) :=
  (visitWorkflows g g.refs.keys {}).map fun st => st.reports.map fun r => cycleError r.path

section Search

variable {g : ReferenceGraph}

theorem ReferenceGraph.mem_keys (g : ReferenceGraph) (x : String) (hx : g.references x ≠ []) : x ∈ g.refs.keys := by
  by_contra hmem
  have hnone : g.refs.lookup x = none := AList.lookup_eq_none.mpr hmem
  simp [ReferenceGraph.references, AList.getD, hnone] at hx

/-- What a call of `dfs` with this fuel does, at any state with few enough white workflows. -/
def VisitOk (g : ReferenceGraph) (fuel : Nat) (visit : String → State String → Option (State String)) : Prop :=
  ∀ node st stack todo, st.color node = .white → Dfs.whites g.refs.keys st + 1 ≤ fuel →
    ∃ st', visit node st = some st' ∧
      Steps g.references "" (g.refs.keys.length + 1) ⟨(node, g.references node) :: stack, todo, st.paint node .gray⟩
        ⟨stack, todo, st'⟩

private theorem visitReferences_spec {fuel : Nat} {visit : String → State String → Option (State String)}
    (hvisit : VisitOk g fuel visit) {node : String} {next : List String} {st : State String}
    {stack : List (String × List String)} {todo : List String}
    (hfuel : next ≠ [] → Dfs.whites g.refs.keys st + 1 ≤ fuel) :
    ∃ st', visitReferences visit (g.refs.keys.length + 1) node next st = some st' ∧
      Steps g.references "" (g.refs.keys.length + 1) ⟨(node, next) :: stack, todo, st⟩ ⟨stack, todo, st'⟩ := by
  induction next generalizing st with
  | nil => exact ⟨_, rfl, .single .leave⟩
  | cons next rest ih =>
    have hwhites := hfuel (List.cons_ne_nil _ _)
    rw [visitReferences]
    cases hcolor : st.color next with
    | gray => exact ⟨_, rfl, .single (.hit hcolor)⟩
    | white =>
      obtain ⟨st₁, hst₁, hsteps⟩ := hvisit next (st.adopt next node) ((node, rest) :: stack) todo hcolor hwhites
      have hchild : Steps g.references "" (g.refs.keys.length + 1) ⟨(node, next :: rest) :: stack, todo, st⟩
          ⟨(node, rest) :: stack, todo, st₁⟩ := .head (.child hcolor) hsteps
      have hle := hchild.whites_le g.refs.keys
      obtain ⟨st₂, hst₂, hrest⟩ := ih fun _ => le_trans (Nat.succ_le_succ hle) hwhites
      refine ⟨st₂, ?_, hchild.trans hrest⟩
      simp only [hst₁]
      exact hst₂
    | black =>
      obtain ⟨st', hst', hrest⟩ := ih fun _ => hwhites
      exact ⟨st', hst', .head (.pass hcolor) hrest⟩

private theorem dfs_spec (g : ReferenceGraph) (fuel : Nat) : VisitOk g fuel (dfs g fuel) := by
  induction fuel with
  | zero =>
    intro node st stack todo _ hfuel
    omega
  | succ fuel ih =>
    intro node st stack todo hwhite hfuel
    refine visitReferences_spec ih fun hne => ?_
    have hlt := Dfs.whites_paint_lt (g.mem_keys node hne) hwhite
    omega

private theorem visitWorkflows_spec (nodes : List String) (st : State String) :
    ∃ st', visitWorkflows g nodes st = some st' ∧
      Steps g.references "" (g.refs.keys.length + 1) ⟨[], nodes, st⟩ ⟨[], [], st'⟩ := by
  induction nodes generalizing st with
  | nil => exact ⟨st, rfl, .refl⟩
  | cons node rest ih =>
    rw [visitWorkflows]
    by_cases hwhite : st.color node = .white
    · have hfuel : Dfs.whites g.refs.keys st + 1 ≤ g.refs.keys.length + 1 := Nat.succ_le_succ List.countP_le_length
      obtain ⟨st₁, hst₁, hsteps⟩ := dfs_spec g _ node st [] rest hwhite hfuel
      obtain ⟨st₂, hst₂, hrest⟩ := ih st₁
      refine ⟨st₂, ?_, .head (.root hwhite) (hsteps.trans hrest)⟩
      simp only [if_pos hwhite, hst₁]
      exact hst₂
    · obtain ⟨st', hst', hrest⟩ := ih st
      refine ⟨st', ?_, .head (.skip hwhite) hrest⟩
      rw [if_neg hwhite]
      exact hst'

theorem detectWorkflowCycles_search (g : ReferenceGraph) :
    ∃ st, detectWorkflowCycles g = some (st.reports.map fun r => cycleError r.path) ∧
      Steps g.references "" (g.refs.keys.length + 1) ⟨[], g.refs.keys, {}⟩ ⟨[], [], st⟩ := by
  obtain ⟨st, hst, hsteps⟩ := visitWorkflows_spec (g := g) g.refs.keys {}
  refine ⟨st, ?_, hsteps⟩
  rw [detectWorkflowCycles, hst]
  rfl

end Search

/-! ### Orders -/

/-- The same references, with the workflows and the references of each visited in another order. -/
structure Reordered (g g' : ReferenceGraph) : Prop where
  keys : g'.refs.keys.Perm g.refs.keys
  references : ∀ x, (g'.references x).Perm (g.references x)

theorem ReferenceGraph.exists_ordered (g : ReferenceGraph) {keys : List String} {succ : String → List String}
    (hkeys : keys.Perm g.refs.keys) (hsucc : ∀ x, (succ x).Perm (g.references x)) :
    ∃ g' : ReferenceGraph, g'.refs.keys = keys ∧ g'.references = succ := by
  have hmap : (keys.map fun k => (⟨k, succ k⟩ : (_ : String) × List String)).keys = keys := by
    simp [List.keys, Function.comp_def]
  have hnodup : (keys.map fun k => (⟨k, succ k⟩ : (_ : String) × List String)).NodupKeys := by
    rw [List.NodupKeys, hmap]
    exact hkeys.nodup_iff.mpr g.refs.nodupKeys
  have hnamed : "" ∉ (⟨_, hnodup⟩ : GoMap (List String)) := by
    rw [AList.mem_keys, AList.keys, hmap, hkeys.mem_iff]
    exact g.named
  refine ⟨⟨⟨_, hnodup⟩, hnamed⟩, hmap, ?_⟩
  funext x
  rw [ReferenceGraph.references]
  by_cases hx : x ∈ keys
  · refine AList.getD_of_lookup ((List.mem_dlookup_iff hnodup).mpr ?_)
    exact List.mem_map.mpr ⟨x, hx, rfl⟩
  · have hnone : AList.lookup x (⟨_, hnodup⟩ : GoMap (List String)) = none := by
      rw [AList.lookup_eq_none, AList.mem_keys, AList.keys, hmap]
      exact hx
    have hnil : g.references x = [] := by
      by_contra hne
      exact hx (hkeys.mem_iff.mpr (g.mem_keys x hne))
    have hperm := hsucc x
    rw [hnil] at hperm
    rw [AList.getD, hnone, List.perm_nil.mp hperm]
    rfl

theorem Reordered.edge {g g' : ReferenceGraph} (h : Reordered g g') : Dfs.Edge g'.references = g.Refers := by
  funext x y
  exact propext (h.references x).mem_iff

theorem Reordered.settled_iff {g g' : ReferenceGraph} (h : Reordered g g') (u : String) :
    Dfs.Settled g'.references g'.refs.keys u ↔ Dfs.Settled g.references g.refs.keys u := by
  have hperm : (g'.refs.keys.flatMap g'.references).Perm (g.refs.keys.flatMap g.references) :=
    h.keys.flatMap fun x _ => h.references x
  have hedge : Dfs.Edge g.references = g.Refers := rfl
  rw [Dfs.Settled, Dfs.Settled, h.edge, hedge, hperm.count_eq]

/-- All that `detectWorkflowCycles` returns, for one order: an error if there is a cycle, and only cycles. -/
def Correct (g : ReferenceGraph) (errs : List CycleError) : Prop :=
  (errs ≠ [] ↔ ∃ x, Relation.TransGen g.Refers x x) ∧
    ∀ e ∈ errs, 2 ≤ e.cycle.length ∧ e.cycle.head? = e.cycle.getLast? ∧ e.cycle.IsChain g.Refers

theorem noReports_iff {g g' : ReferenceGraph} (h : Reordered g g') {st : State String}
    (hsteps : Steps g'.references "" (g'.refs.keys.length + 1) ⟨[], g'.refs.keys, {}⟩ ⟨[], [], st⟩) :
    st.reports ≠ [] ↔ ∃ x, Relation.TransGen g.Refers x x := by
  have hiff := Steps.noReports_iff g'.mem_keys (by omega) hsteps
  simp only [Dfs.OnCycle, h.edge] at hiff
  rw [Ne, hiff]
  push Not
  rfl

/-- In every order of the workflows and their references, `detectWorkflowCycles` returns an error if and only if there
is a cycle and every path it reports is a cycle: this holds if and only if every workflow on a cycle is referred to by
itself only, or by a single reference. -/
theorem detectWorkflowCycles_correct_iff (g : ReferenceGraph) :
    (∀ g', Reordered g g' → ∃ errs, detectWorkflowCycles g' = some errs ∧ Correct g errs) ↔
      ∀ u, Relation.TransGen g.Refers u u →
        (∀ x, g.Refers x u → x = u) ∨ (g.refs.keys.flatMap g.references).count u ≤ 1 := by
  constructor
  · intro h u hu
    by_contra hsettled
    have hdflt : g.references "" = [] := by
      by_contra hne
      exact g.named (AList.mem_keys.mpr (g.mem_keys "" hne))
    have hbound : g.refs.keys.length ≤ g.refs.keys.length + 1 := Nat.le_succ _
    obtain ⟨keys, succ, hkeys, hsucc, hbogus⟩ :=
      Dfs.exists_misleading_order g.refs.nodupKeys g.mem_keys hbound hdflt hu hsettled
    obtain ⟨g', hkeys', hsucc'⟩ := g.exists_ordered hkeys hsucc
    have hreordered : Reordered g g' := ⟨by rwa [hkeys'], fun x => by rw [hsucc']; exact hsucc x⟩
    obtain ⟨errs, herrs, -, hgenuine⟩ := h g' hreordered
    obtain ⟨st, hst, hsteps⟩ := detectWorkflowCycles_search g'
    have hlen : g'.refs.keys.length = g.refs.keys.length := hreordered.keys.length_eq
    rw [hkeys', hsucc', ← hkeys', hlen, hkeys'] at hsteps
    obtain ⟨r, hr, hwalk⟩ := hbogus st hsteps
    rw [herrs, Option.some.injEq] at hst
    have hpath := hgenuine (cycleError r.path) (by rw [hst]; exact List.mem_map.mpr ⟨r, hr, rfl⟩)
    refine hwalk ⟨hpath.1, hpath.2.1, ?_⟩
    rw [← hsucc', hreordered.edge]
    exact hpath.2.2
  · intro h g' hreordered
    obtain ⟨st, hst, hsteps⟩ := detectWorkflowCycles_search g'
    refine ⟨_, hst, ?_, ?_⟩
    · rw [Ne, List.map_eq_nil_iff]
      exact noReports_iff hreordered hsteps
    · have hsettled : ∀ u, Dfs.OnCycle g'.references u → Dfs.Settled g'.references g'.refs.keys u := by
        intro u hu
        rw [Dfs.OnCycle, hreordered.edge] at hu
        exact (hreordered.settled_iff u).mpr (h u hu)
      have hgenuine := Steps.reports_genuine g'.mem_keys (by omega) hsettled hsteps
      intro e he
      obtain ⟨r, hr, rfl⟩ := List.mem_map.mp he
      obtain ⟨hlen, hclosed, hedges⟩ := hgenuine r hr
      rw [hreordered.edge] at hedges
      exact ⟨hlen, hclosed, hedges⟩

/-- Two workflows, of which `A` runs `B` in two nodes and `B` runs `A`. -/
def runsTwice : Section :=
  GoMap.ofPairs
    [("b.json", GoMap.ofPairs
        [("id", .str "B"),
         ("nodes", .obj
          [("n1", .obj [("type", .str "workflow.run"), ("config", .obj [("workflow", .str "A")])])])]),
     ("a.json", GoMap.ofPairs
        [("id", .str "A"),
         ("nodes", .obj
          [("n1", .obj [("type", .str "workflow.run"), ("config", .obj [("workflow", .str "B")])]),
           ("n2", .obj [("type", .str "workflow.run"), ("config", .obj [("workflow", .str "B")])])])])]

/-- The second reference to `B` is reported as well, with a path that starts nowhere. -/
theorem detectWorkflowCycles_bogus :
    ¬ ∀ (workflows : Section) (g : ReferenceGraph), Reordered (wfGraph workflows) g →
      ∃ errs, detectWorkflowCycles g = some errs ∧ Correct (wfGraph workflows) errs := by
  intro h
  obtain ⟨errs, herrs, -, hgenuine⟩ := h runsTwice (wfGraph runsTwice) ⟨.refl _, fun _ => .refl _⟩
  have hreports : detectWorkflowCycles (wfGraph runsTwice) =
      some [cycleError ["A", "B", "A"], cycleError ["", "", "", "A", "B"]] := by
    decide +kernel
  rw [hreports, Option.some.injEq] at herrs
  obtain ⟨-, hclosed, -⟩ := hgenuine (cycleError ["", "", "", "A", "B"]) (by simp [← herrs])
  exact absurd hclosed (by decide)

end Noda.Config
