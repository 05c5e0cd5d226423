import Noda.Engine.Config

/-!
# Execution context and node dispatch

The state a run shares between its nodes (`ExecutionContextImpl` of `context.go`) and what `dispatchNode`
(`dispatch.go`) does around a call of a node's executor: `prepare` before it, `conclude` after it.  `D` is Go's `any`:
node data and service instances.  Logging, metrics, traces and the interception of HTTP responses are left out: the run
does not read them.
-/

namespace Noda.Engine

/-- An executor's error, with the code `api.ErrorCode` gives it. -/
structure ExecError where
  code : String
  message : String
  deriving DecidableEq, Repr

/-- What a call of `Execute` yields.  `dispatchNode` recovers a panic. -/
inductive ExecResult (D : Type) where
  | ok (output : String) (data : D)
  | fail (err : ExecError)
  | panic (message : String)
  deriving DecidableEq, Repr

/-- A stored output: the executor's data, or the error data of a failed call. -/
inductive Output (D : Type) where
  | data (d : D)
  | errorData (err : ExecError) (nodeID nodeType : String) (availableNodes : List String)
  deriving DecidableEq, Repr

/-- The errors `dispatchNode` returns. -/
inductive NodeFailure where
  | panicked (id message : String)
  | unknownType (id type : String)
  | serviceNotFound (id service slot : String)
  | execution (id type : String) (err : ExecError) (availableNodes : List String)
  | undeclaredOutput (id output : String)
  deriving DecidableEq, Repr

/-! ### Execution context -/

/-- `ExecutionContextImpl`. -/
structure ExecutionContext (D : Type) where
  outputs : GoMap (Output D) := ∅
  aliases : GoMap String := ∅
  nodeErrors : GoMap ExecError := ∅
  retainOutputs : Bool := false
  workflowOutputName : String := ""
  workflowOutputData : Option D := none

namespace ExecutionContext

variable {D : Type} (c : ExecutionContext D)

/-- The key of a node's output: its registered alias, or its id. -/
def outputKey (nodeID : String) : String := c.aliases.getD nodeID nodeID

def setOutput (nodeID : String) (out : Output D) : ExecutionContext D :=
  { c with outputs := c.outputs.insert (c.outputKey nodeID) out }

def getOutput (nodeID : String) : Option (Output D) := c.outputs.lookup (c.outputKey nodeID)

def setNodeError (nodeID : String) (err : ExecError) : ExecutionContext D :=
  { c with nodeErrors := c.nodeErrors.insert nodeID err }

def nodeError (nodeID : String) : Option ExecError := c.nodeErrors.lookup nodeID

def registerAlias (nodeID name : String) : ExecutionContext D :=
  { c with aliases := c.aliases.insert nodeID name }

def outputKeys : List String := sortStrings c.outputs.keys

def evictOutput (key : String) : ExecutionContext D :=
  if c.retainOutputs then c else { c with outputs := c.outputs.erase key }

def setWorkflowOutput (name : String) (data : D) : ExecutionContext D :=
  { c with workflowOutputName := name, workflowOutputData := some data }

def workflowOutput : String × Option D := (c.workflowOutputName, c.workflowOutputData)

end ExecutionContext

/-! ### Dispatch of one node -/

variable {D : Type}

/-- The registries a run reads: the node types with a factory, and the service instances. -/
structure Registries (D : Type) where
  hasFactory : String → Bool
  services : GoMap D

/-- The loop that resolves the service slots of a node: the instance for each slot. -/
def resolveServices (id : String) (services : GoMap D) :
    List (String × String) → Except NodeFailure (List (String × D))
  | [] => .ok []
  | (slot, svcName) :: rest =>
    match services.lookup svcName with
    | none => .error (.serviceNotFound id svcName slot)
    | some svc =>
      match resolveServices id services rest with
      | .error e => .error e
      | .ok resolved => .ok ((slot, svc) :: resolved)

/-- `dispatchNode` up to the call of the executor: the service instances it is handed. -/
def prepare (reg : Registries D) (node : CompiledNode) : Except NodeFailure (List (String × D)) :=
  if reg.hasFactory node.type then resolveServices node.id reg.services node.services.toPairs
  else .error (.unknownType node.id node.type)

def registerNode (node : CompiledNode) (c : ExecutionContext D) : ExecutionContext D :=
  if node.asName = "" then c else c.registerAlias node.id node.asName

/-- `outputExecutor.Execute`: the name comes from the config, the data from its resolution. -/
def outputExecute (config : Config) : ExecResult D → ExecResult D
  | .panic message => .panic message
  | .fail err =>
    if strField config "name" = "" then .fail ⟨"INTERNAL_ERROR", "workflow.output: missing required field \"name\""⟩
    else .fail err
  | .ok _ data =>
    if strField config "name" = "" then .fail ⟨"INTERNAL_ERROR", "workflow.output: missing required field \"name\""⟩
    else .ok (strField config "name") data

/-- The result of a node's executor; any result is possible, but the name a `workflow.output` node returns is fixed. -/
def executeNode (node : CompiledNode) (r : ExecResult D) : ExecResult D :=
  if node.type = "workflow.output" then outputExecute node.config r else r

/-- The fired output; an executor that names none fires `"success"`. -/
def firedOutput (output : String) : String := if output = "" then "success" else output

/-- `dispatchNode` after the call of the executor. -/
def conclude (node : CompiledNode) (availableNodes : List String) (r : ExecResult D) (c : ExecutionContext D) :
    ExecutionContext D × Except NodeFailure String :=
  match r with
  | .panic message => (c, .error (.panicked node.id message))
  | .fail err =>
    if "error" ∈ node.outputs then
      ((c.setOutput node.id (.errorData err node.id node.type availableNodes)).setNodeError node.id err, .ok "error")
    else (c, .error (.execution node.id node.type err availableNodes))
  | .ok output data =>
    if node.type = "workflow.output" then
      ((c.setWorkflowOutput output data).setOutput node.id (.data data), .ok output)
    else if firedOutput output ∈ node.outputs then (c.setOutput node.id (.data data), .ok (firedOutput output))
    else (c.setOutput node.id (.data data), .error (.undeclaredOutput node.id (firedOutput output)))

/-- The output a node fires with a result, if `dispatchNode` returns one. -/
def outcome (node : CompiledNode) : ExecResult D → Option String
  | .panic _ => none
  | .fail _ => if "error" ∈ node.outputs then some "error" else none
  | .ok output _ =>
    if node.type = "workflow.output" then some output
    else if firedOutput output ∈ node.outputs then some (firedOutput output)
    else none

theorem conclude_ok {node : CompiledNode} {avail : List String} {r : ExecResult D} {c : ExecutionContext D}
    {o : String} :
    (conclude node avail r c).2 = .ok o ↔ outcome node r = some o := by
  cases r with
  | panic message => simp [conclude, outcome]
  | fail err => simp only [conclude, outcome]; split <;> simp
  | ok output data =>
    simp only [conclude, outcome]
    split
    · simp
    · split <;> simp

end Noda.Engine
