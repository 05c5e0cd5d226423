import Noda.Lib.GoMap

/-!
# Workflow definitions and compiled graphs

The data types of `internal/engine`: the parsed workflow (`compiler.go`, `WorkflowConfig`) and the executable graph
`Compile` makes of it (`CompiledGraph`).  A config value is a JSON value (`Value`); numbers are integers.
-/

namespace Noda.Engine

/-- A JSON-like config value (Go's `any` inside a config). -/
inductive Value where
  | null
  | bool (b : Bool)
  | num (n : Int)
  | str (s : String)
  | arr (items : List Value)
  | obj (fields : List (String × Value))

/-- A config map (`map[string]any`). -/
abbrev Config := List (String × Value)

/-- `config[key].(string)`, the empty string when the field is absent or not a string. -/
def strField (config : Config) (key : String) : String :=
  match config.lookup key with
  | some (.str s) => s
  | _ => ""

/-- How a node handles several inbound edges. -/
inductive JoinType where
  | joinNone
  | joinAND
  | joinOR
  | joinMixed
  deriving DecidableEq, Repr

/-- Retry behaviour on an error edge. -/
structure RetryConfig where
  attempts : Int
  backoff : String
  delay : String
  deriving DecidableEq, Repr

/-- A connection between two nodes; an empty `output` means `"success"`. -/
structure EdgeConfig where
  fromNode : String
  toNode : String
  output : String := ""
  retry : Option RetryConfig := none
  deriving DecidableEq, Repr

/-- A node of a workflow: its type, service slots, output alias and config. -/
structure NodeConfig where
  type : String
  services : GoMap String := ∅
  asName : String := ""
  config : Config := []

/-- A parsed workflow definition. -/
structure WorkflowConfig where
  id : String
  timeout : String := ""
  nodes : GoMap NodeConfig
  edges : List EdgeConfig

/-- Compiled metadata of one node; `outputs` are the output names its descriptor declares. -/
structure CompiledNode where
  id : String
  type : String
  asName : String
  config : Config
  services : GoMap String
  outputs : List String
  configRefs : List String

/-- A compiled edge with its retry policy. -/
structure CompiledEdge where
  fromNode : String
  toNode : String
  output : String
  retry : Option RetryConfig
  deriving DecidableEq, Repr

/-- The executable representation of a workflow. -/
structure CompiledGraph where
  workflowID : String
  timeout : Int
  nodes : GoMap CompiledNode
  /-- node ↦ output ↦ targets -/
  adjacency : GoMap (GoMap (List String))
  /-- `from:output:to` ↦ edge -/
  edges : GoMap CompiledEdge
  /-- node ↦ sources, one entry per inbound edge -/
  reverse : GoMap (List String)
  entryNodes : List String
  terminalNodes : List String
  depCount : GoMap Nat
  joinTypes : GoMap JoinType
  /-- node ↦ source ↦ index of the group of mutually exclusive sources it belongs to -/
  joinGroups : GoMap (GoMap Nat)
  joinGroupCount : GoMap Nat

namespace CompiledGraph

variable (g : CompiledGraph)

/-- `g.Adjacency[n]`. -/
def outputs (n : String) : GoMap (List String) := g.adjacency.getD n ∅

/-- `g.Adjacency[n][o]`. -/
def targets (n o : String) : List String := (g.outputs n).getD o []

/-- The targets of all edges of `n`, output by output. -/
def successors (n : String) : List String := (g.outputs n).toPairs.flatMap Prod.snd

/-- `g.Reverse[n]`. -/
def sources (n : String) : List String := g.reverse.getD n []

/-- `g.JoinGroups[t][n]`. -/
def groupOf (t n : String) : Option Nat := (g.joinGroups.getD t ∅).lookup n

/-- `g.JoinGroupCount[t]`. -/
def groupCount (t : String) : Nat := g.joinGroupCount.getD t 0

/-- `GetEdge`. -/
def getEdge (n output t : String) : Option CompiledEdge := g.edges.lookup (n ++ ":" ++ output ++ ":" ++ t)

end CompiledGraph

end Noda.Engine
