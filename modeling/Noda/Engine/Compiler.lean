import Noda.Engine.Refs
import Noda.Lib.Duration
import Noda.Lib.UnionFind
import Noda.Lib.Worklist

/-!
# The workflow compiler

`Compile` of `internal/engine/compiler.go`: it builds the graph from the nodes and edges of the config, rejects cycles,
partitions the sources of every node into groups of mutually exclusive ones, and validates aliases and the exclusivity
of the `workflow.output` nodes.

Search loops run with fuel.  The breadth-first searches get enough of it for every graph (`Worklist`); the cycle search
accepts when it runs out, so nothing is rejected for lack of fuel.
-/

namespace Noda.Engine

/-- The errors of `Compile`, with the names they mention. -/
inductive CompileError where
  | invalidTimeout (timeout : String)
  | emptyType (id : String)
  | unknownSource (id : String)
  | unknownTarget (id : String)
  | noOutput (id output : String) (valid : List String)
  | retryNotOnError (output id : String)
  | cycle (path : List String)
  | aliasIsNodeID (id aliasName : String)
  | duplicateAlias (aliasName first second : String)
  | duplicateOutputName (name first second : String)
  | outputsNotExclusive (first second : String)
  deriving DecidableEq, Repr

/-- `NodeOutputResolver` / `ConfigAwareResolver`: the declared outputs of a node type, given the node's config. -/
abbrev NodeOutputResolver := String → Config → List String

/-- `DefaultOutputResolver`. -/
def defaultOutputResolver : NodeOutputResolver := fun _ _ => ["success", "error"]

/-! ### Nodes and edges -/

/-- The graph before any node or edge is added. -/
def emptyGraph (id : String) (timeout : Int) : CompiledGraph where
  workflowID := id
  timeout := timeout
  nodes := ∅
  adjacency := ∅
  edges := ∅
  reverse := ∅
  entryNodes := []
  terminalNodes := []
  depCount := ∅
  joinTypes := ∅
  joinGroups := ∅
  joinGroupCount := ∅

def compileNode (resolver : NodeOutputResolver) (g : CompiledGraph) (id : String) (nc : NodeConfig) :
    Except CompileError CompiledGraph :=
  if nc.type = "" then .error (.emptyType id)
  else
    let node : CompiledNode :=
      { id, type := nc.type, asName := nc.asName, config := nc.config, services := nc.services
        outputs := resolver nc.type nc.config, configRefs := extractConfigRefs nc.config }
    .ok { g with nodes := g.nodes.insert id node, adjacency := g.adjacency.insert id ∅ }

def compileNodes (resolver : NodeOutputResolver) :
    CompiledGraph → List (String × NodeConfig) → Except CompileError CompiledGraph
  | g, [] => .ok g
  | g, (id, nc) :: rest =>
    match compileNode resolver g id nc with
    | .error e => .error e
    | .ok g => compileNodes resolver g rest

/-- The output an edge leaves by; it defaults to `"success"`. -/
def EdgeConfig.outputName (edge : EdgeConfig) : String := if edge.output = "" then "success" else edge.output

def compileEdge (g : CompiledGraph) (edge : EdgeConfig) : Except CompileError CompiledGraph :=
  match g.nodes.lookup edge.fromNode, g.nodes.lookup edge.toNode with
  | none, _ => .error (.unknownSource edge.fromNode)
  | _, none => .error (.unknownTarget edge.toNode)
  | some node, some _ =>
    let output := edge.outputName
    if output ∉ node.outputs then .error (.noOutput edge.fromNode output node.outputs)
    else if edge.retry ≠ none ∧ output ≠ "error" then .error (.retryNotOnError output edge.fromNode)
    else
      .ok { g with
        adjacency := g.adjacency.modify edge.fromNode ∅ fun m => m.modify output [] (· ++ [edge.toNode])
        reverse := g.reverse.modify edge.toNode [] (· ++ [edge.fromNode])
        depCount := g.depCount.modify edge.toNode 0 (· + 1)
        edges := g.edges.insert (edge.fromNode ++ ":" ++ output ++ ":" ++ edge.toNode)
          ⟨edge.fromNode, edge.toNode, output, edge.retry⟩ }

def compileEdges : CompiledGraph → List EdgeConfig → Except CompileError CompiledGraph
  | g, [] => .ok g
  | g, edge :: rest =>
    match compileEdge g edge with
    | .error e => .error e
    | .ok g => compileEdges g rest

/-- Entry nodes have no inbound edge; terminal nodes have no outbound edge other than error edges. -/
def classifyNodes (g : CompiledGraph) : CompiledGraph :=
  let nodeIDs := sortStrings g.nodes.keys
  { g with
    entryNodes := nodeIDs.filter fun id => g.sources id = []
    terminalNodes := nodeIDs.filter fun id => (g.outputs id).toPairs.all fun p => p.1 = "error" ∨ p.2 = [] }

/-! ### Cycle detection -/

inductive Color where
  | white
  | gray
  | black
  deriving DecidableEq, Repr

/-- The colors and the DFS tree of `detectCycle`. -/
structure DfsState where
  color : GoMap Color := ∅
  parent : GoMap String := ∅

/-- The loop that climbs the DFS tree from `cur` to `target`, if it comes to its end within the fuel. -/
def climb (parent : GoMap String) (target : String) : Nat → String → Option (List String)
  | 0, cur => if cur = target then some [] else none
  | fuel + 1, cur =>
    if cur = target then some []
    else (climb parent target fuel (parent.getD cur "")).map (parent.getD cur "" :: ·)

/-- The targets of a node in the order of the DFS: outputs sorted, targets in edge order. -/
def sortedSuccessors (g : CompiledGraph) (node : String) : List String :=
  (sortStrings (g.outputs node).keys).flatMap fun o => g.targets node o

/-- The loop of `dfs` over the targets of a node. -/
def visitTargets (g : CompiledGraph) (visit : String → DfsState → Option (Except (List String) DfsState))
    (node : String) : List String → DfsState → Option (Except (List String) DfsState)
  | [], st => some (.ok { st with color := st.color.insert node .black })
  | target :: rest, st =>
    match st.color.getD target .white with
    | .gray => (climb st.parent target g.nodes.keys.length node).map fun up => .error ([target, node] ++ up).reverse
    | .white =>
      match visit target { st with parent := st.parent.insert target node } with
      | none => none
      | some (.error path) => some (.error path)
      | some (.ok st) => visitTargets g visit node rest st
    | .black => visitTargets g visit node rest st

/-- The inner function `dfs`, if the recursion is not deeper than the fuel. -/
def dfs (g : CompiledGraph) : Nat → String → DfsState → Option (Except (List String) DfsState)
  | 0, _, _ => none
  | fuel + 1, node, st =>
    visitTargets g (dfs g fuel) node (sortedSuccessors g node) { st with color := st.color.insert node .gray }

/-- The loop of `detectCycle` over the nodes. -/
def visitNodes (g : CompiledGraph) : List String → DfsState → Option (Except (List String) DfsState)
  | [], st => some (.ok st)
  | id :: rest, st =>
    if st.color.getD id .white = .white then
      match dfs g (g.nodes.keys.length + 1) id st with
      | none => none
      | some (.error path) => some (.error path)
      | some (.ok st) => visitNodes g rest st
    else visitNodes g rest st

def detectCycleWithin (g : CompiledGraph) : Option (Except (List String) DfsState) :=
  visitNodes g (sortStrings g.nodes.keys) {}

/-- `detectCycle`; the error is the cycle, in the order of its edges.  The search comes to its end within the fuel
(`detectCycle_correct`). -/
def detectCycle (g : CompiledGraph) : Except (List String) DfsState := (detectCycleWithin g).getD (.ok {})

/-! ### Join groups -/

/-- `traceAncestors`. -/
def traceAncestors (g : CompiledGraph) (node : String) : List String :=
  Worklist.closure g.sources (1 + g.nodes.keys.length) [node] []

/-- `reachableFrom`. -/
def reachableFrom (g : CompiledGraph) (starts : List String) (target : String) : Bool :=
  Worklist.search g.successors target (starts.length + g.nodes.keys.length) starts starts

/-- `descendedOutputs`: the outputs of `ancestor` that the leg of `src` into `joinID` descends from. -/
def descendedOutputs (g : CompiledGraph) (ancestor joinID src : String) : List String :=
  (sortStrings (g.outputs ancestor).keys).filter fun o =>
    if src = ancestor then joinID ∈ g.targets ancestor o else reachableFrom g (g.targets ancestor o) src

/-- `mutuallyExclusive`: the two legs descend from disjoint, non-empty sets of outputs of a common ancestor. -/
def mutuallyExclusive (g : CompiledGraph) (joinID srcA srcB : String) : Bool :=
  (srcA :: traceAncestors g srcA).any fun ancestor =>
    decide (ancestor ∈ srcB :: traceAncestors g srcB) && decide (1 < (g.outputs ancestor).keys.length) &&
      (let outsA := descendedOutputs g ancestor joinID srcA
       let outsB := descendedOutputs g ancestor joinID srcB
       decide (outsA ≠ []) && decide (outsB ≠ []) && outsA.all fun o => decide (o ∉ outsB))

/-- The sources of a node, sorted and without repetitions. -/
def distinctSources (g : CompiledGraph) (id : String) : List String := (sortStrings (g.sources id)).dedup

/-- The pairs of different positions of a list, in order. -/
def orderedPairs {α : Type} : List α → List (α × α)
  | [] => []
  | a :: as => as.map (fun b => (a, b)) ++ orderedPairs as

/-- The pairs of sources of a node that are tested as mutually exclusive. -/
def exclusivePairs (g : CompiledGraph) (id : String) : List (String × String) :=
  (orderedPairs (distinctSources g id)).filter fun p => mutuallyExclusive g id p.1 p.2

/-- Number the roots in the order of their first member: the loop that fills `groups` and `index`. -/
def assignGroups : List String → UnionFind.Forest String → GoMap Nat → GoMap Nat → GoMap Nat × GoMap Nat
  | [], _, groups, index => (groups, index)
  | src :: rest, uf, groups, index =>
    let (uf, root) := UnionFind.find uf src
    match index.lookup root with
    | some idx => assignGroups rest uf (groups.insert src idx) index
    | none =>
      let idx := index.keys.length
      assignGroups rest uf (groups.insert src idx) (index.insert root idx)

/-- The groups of one node and their number. -/
def joinGroupsOf (g : CompiledGraph) (id : String) : GoMap Nat × Nat :=
  let sources := distinctSources g id
  let uf := UnionFind.unionAll (UnionFind.new sources) (exclusivePairs g id)
  let (groups, index) := assignGroups sources uf ∅ ∅
  (groups, index.keys.length)

def joinTypeOf (sources groups : Nat) : JoinType :=
  if sources = 1 then .joinNone
  else if groups = 1 then .joinOR
  else if groups = sources then .joinAND
  else .joinMixed

/-- One round of `computeJoinTypes`.  The tests read only nodes and edges, so they are made on the graph `g`. -/
def computeJoinType (g : CompiledGraph) (acc : CompiledGraph) (id : String) : CompiledGraph :=
  if g.sources id = [] then
    { acc with
      joinTypes := acc.joinTypes.insert id .joinNone
      joinGroupCount := acc.joinGroupCount.insert id 0 }
  else
    let (groups, count) := joinGroupsOf g id
    { acc with
      joinGroups := acc.joinGroups.insert id groups
      joinGroupCount := acc.joinGroupCount.insert id count
      joinTypes := acc.joinTypes.insert id (joinTypeOf (distinctSources g id).length count) }

/-- `computeJoinTypes`. -/
def computeJoinTypes (g : CompiledGraph) : CompiledGraph := g.nodes.keys.foldl (computeJoinType g) g

/-! ### Validation -/

/-- `validateAliases`, with the aliases seen so far. -/
def validateAliases (g : CompiledGraph) : List (String × CompiledNode) → GoMap String → Option CompileError
  | [], _ => none
  | (id, n) :: rest, seen =>
    if n.asName = "" then validateAliases g rest seen
    else if n.asName ∈ g.nodes then some (.aliasIsNodeID id n.asName)
    else
      match seen.lookup n.asName with
      | some prev => some (.duplicateAlias n.asName prev id)
      | none => validateAliases g rest (seen.insert n.asName id)

/-- The configured name of a `workflow.output` node; other nodes have none. -/
def outputNodeName (n : CompiledNode) : String := if n.type = "workflow.output" then strField n.config "name" else ""

/-- The `workflow.output` nodes with a name; two of them with one name are an error. -/
def collectOutputs :
    List (String × CompiledNode) → GoMap String → List String → Except CompileError (List String)
  | [], _, acc => .ok acc
  | (id, n) :: rest, names, acc =>
    let name := outputNodeName n
    if name = "" then collectOutputs rest names acc
    else
      match names.lookup name with
      | some existing => .error (.duplicateOutputName name existing id)
      | none => collectOutputs rest (names.insert name id) (acc ++ [id])

/-- `findOutputLeadingTo`: the first output of `ancestor`, in sorted order, from which `target` can be reached. -/
def findOutputLeadingTo (g : CompiledGraph) (ancestor target : String) : String :=
  ((sortStrings (g.outputs ancestor).keys).find? fun o => reachableFrom g (g.targets ancestor o) target).getD ""

/-- `areMutuallyExclusive`: some common ancestor with several outputs first reaches the nodes by different outputs. -/
def areMutuallyExclusive (g : CompiledGraph) (nodeA nodeB : String) : Bool :=
  (traceAncestors g nodeA).any fun ancestor =>
    decide (ancestor ∈ traceAncestors g nodeB) && decide (1 < (g.outputs ancestor).keys.length) &&
      (let outputForA := findOutputLeadingTo g ancestor nodeA
       let outputForB := findOutputLeadingTo g ancestor nodeB
       decide (outputForA ≠ "") && decide (outputForB ≠ "") && decide (outputForA ≠ outputForB))

/-- `ValidateOutputExclusivity`. -/
def validateOutputExclusivity (g : CompiledGraph) : Option CompileError :=
  match collectOutputs g.nodes.toPairs ∅ [] with
  | .error e => some e
  | .ok outputNodes =>
    ((orderedPairs outputNodes).find? fun p => !areMutuallyExclusive g p.1 p.2).map
      fun p => .outputsNotExclusive p.1 p.2

/-! ### `Compile` -/

/-- The timeout of a workflow; none is zero. -/
def parseTimeout (timeout : String) : Except CompileError Int :=
  if timeout = "" then .ok 0
  else
    match Duration.parse timeout with
    | none => .error (.invalidTimeout timeout)
    | some d => .ok d

/-- The graph of nodes and edges, before the checks on the whole graph. -/
def buildGraph (wf : WorkflowConfig) (resolver : NodeOutputResolver) : Except CompileError CompiledGraph :=
  match parseTimeout wf.timeout with
  | .error e => .error e
  | .ok timeout =>
    match compileNodes resolver (emptyGraph wf.id timeout) wf.nodes.toPairs with
    | .error e => .error e
    | .ok g =>
      match compileEdges g wf.edges with
      | .error e => .error e
      | .ok g => .ok (classifyNodes g)

/-- `Compile`. -/
def compile (wf : WorkflowConfig) (resolver : Option NodeOutputResolver) : Except CompileError CompiledGraph :=
  match buildGraph wf (resolver.getD defaultOutputResolver) with
  | .error e => .error e
  | .ok g =>
    match detectCycle g with
    | .error path => .error (.cycle path)
    | .ok _ =>
      let g := computeJoinTypes g
      match validateAliases g g.nodes.toPairs ∅ with
      | some e => .error e
      | none =>
        match validateOutputExclusivity g with
        | some e => .error e
        | none => .ok g

theorem exists_compile (wf : WorkflowConfig) (resolver : Option NodeOutputResolver) {p : CompiledGraph → Bool}
    (h : (match compile wf resolver with | .ok g => p g | .error _ => false) = true) :
    ∃ g, compile wf resolver = .ok g ∧ p g = true := by
  split at h
  · rename_i g hg
    exact ⟨g, hg, h⟩
  · cases h

end Noda.Engine
