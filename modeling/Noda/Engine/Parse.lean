import Noda.Engine.Config
import Noda.Lib.Duration
import Noda.Lib.Json

/-!
# Reading a workflow

`ParseWorkflowFromMap` makes a `WorkflowConfig` of the JSON of a workflow, and `validateRetryConfig` checks the retry
policy of an edge.  What Go does with a number is a parameter (`Numbers`): a config keeps its numbers as they are read,
the attempts of a policy are converted to an `int`, and `%v` prints a service that is no string.
-/

namespace Noda.Engine

/-- The conversions of numbers, and the verb `%v`. -/
structure Numbers where
  value : Rat → Int
  toInt : Rat → Int
  format : Json → String

mutual

/-- A config value of the JSON. -/
def toValue (N : Numbers) : Json → Value
  | .null => .null
  | .bool b => .bool b
  | .num n => .num (N.value n)
  | .str s => .str s
  | .arr items => .arr (toItems N items)
  | .obj fields => .obj (toConfig N fields)

def toItems (N : Numbers) : List Json → List Value
  | [] => []
  | v :: items => toValue N v :: toItems N items

def toConfig (N : Numbers) : List (String × Json) → Config
  | [] => []
  | (k, v) :: fields => (k, toValue N v) :: toConfig N fields

end

/-- `MapStrVal`. -/
def mapStrVal (m : List (String × Json)) (key : String) : String :=
  match m.lookup key with
  | some (.str s) => s
  | _ => ""

/-- What is wrong with a retry policy. -/
inductive RetryFault where
  | attempts (got : Int)
  | delayRequired
  | delay (got : String)
  | backoff (got : String)
  deriving DecidableEq, Repr

inductive ReadError where
  | node (id : String)
  | retry (edge : String) (fault : RetryFault)
  deriving DecidableEq, Repr

/-- `edgeDesc`. -/
def edgeDesc (fromNode toNode : String) : String := "edge " ++ fromNode ++ " → " ++ toNode

/-- `validateRetryConfig`: the policy with its backoff filled in. -/
def validateRetryConfig (rc : RetryConfig) (fromNode toNode : String) : Except ReadError RetryConfig :=
  if rc.attempts < 1 then .error (.retry (edgeDesc fromNode toNode) (.attempts rc.attempts))
  else if rc.delay = "" then .error (.retry (edgeDesc fromNode toNode) .delayRequired)
  else if Duration.parse rc.delay = none then .error (.retry (edgeDesc fromNode toNode) (.delay rc.delay))
  else if rc.backoff = "" then .ok { rc with backoff := "fixed" }
  else if rc.backoff ≠ "fixed" ∧ rc.backoff ≠ "exponential" then
    .error (.retry (edgeDesc fromNode toNode) (.backoff rc.backoff))
  else .ok rc

variable (N : Numbers)

/-- The config of a node, from its fields. -/
def parseNode (nm : List (String × Json)) : NodeConfig where
  type := mapStrVal nm "type"
  asName := mapStrVal nm "as"
  config := match nm.lookup "config" with
    | some (.obj fields) => toConfig N fields
    | _ => []
  services := match nm.lookup "services" with
    | some (.obj fields) => GoMap.ofPairs (fields.map fun e => (e.1, (e.2.asStr).getD (N.format e.2)))
    | _ => ∅

/-- The nodes, in the order in which the map is visited. -/
def parseNodes : List (String × Json) → Except ReadError (List (String × NodeConfig))
  | [] => .ok []
  | (id, .obj nm) :: rest =>
    match parseNodes rest with
    | .error err => .error err
    | .ok nodes => .ok ((id, parseNode N nm) :: nodes)
  | (id, _) :: _ => .error (.node id)

/-- The retry policy of an edge, if it has one. -/
def parseRetry (em : List (String × Json)) : Except ReadError (Option RetryConfig) :=
  match em.lookup "retry" with
  | some (.obj retryRaw) =>
    let attempts := match retryRaw.lookup "attempts" with
      | some (.num a) => N.toInt a
      | _ => 0
    match validateRetryConfig ⟨attempts, mapStrVal retryRaw "backoff", mapStrVal retryRaw "delay"⟩
        (mapStrVal em "from") (mapStrVal em "to") with
    | .error err => .error err
    | .ok rc => .ok (some rc)
  | _ => .ok none

/-- The edges; what is no object is skipped. -/
def parseEdges : List Json → Except ReadError (List EdgeConfig)
  | [] => .ok []
  | .obj em :: rest =>
    match parseRetry N em with
    | .error err => .error err
    | .ok retry =>
      match parseEdges rest with
      | .error err => .error err
      | .ok edges => .ok (⟨mapStrVal em "from", mapStrVal em "to", mapStrVal em "output", retry⟩ :: edges)
  | _ :: rest => parseEdges rest

/-- `ParseWorkflowFromMap`. -/
def parseWorkflowFromMap (id : String) (raw : List (String × Json)) : Except ReadError WorkflowConfig :=
  let nodesRaw := match raw.lookup "nodes" with
    | some (.obj fields) => fields
    | _ => []
  let edgesRaw := match raw.lookup "edges" with
    | some (.arr items) => items
    | _ => []
  match parseNodes N nodesRaw with
  | .error err => .error err
  | .ok nodes =>
    match parseEdges N edgesRaw with
    | .error err => .error err
    | .ok edges => .ok { id, timeout := mapStrVal raw "timeout", nodes := GoMap.ofPairs nodes, edges }

end Noda.Engine
