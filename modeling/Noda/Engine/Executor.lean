import Noda.Engine.Context
import Noda.Engine.Eviction
import Noda.Lib.Transition

/-!
# The executor

`ExecuteGraph` of `executor.go` and `retryNode` of `retry.go`, as a transition system.  Every dispatched node is a
goroutine with a program counter (`Pc`); a step (`localStep`) moves one goroutine past at most one access to shared
state (`Effect`), so the runs of the system are the interleavings of the goroutines.  What an executor returns, whether
a waiting retry sees the end of the context before its timer, and when the caller's context ends are choices of the
environment, made in the actions.

Goroutines are never removed, so a node that is dispatched twice is there twice.  `log` is a ghost: the events of the
run, the newest first; the run does not read it.  Counters are small (at most the number of nodes), so their wrap-around
is left out.
-/

namespace Noda.Engine

variable {D : Type}

/-- Why a context has ended. -/
inductive CtxError where
  | canceled
  | deadlineExceeded
  deriving DecidableEq, Repr

/-- The errors `ExecuteGraph` returns. -/
inductive WorkflowError (D : Type) where
  | noEntryNodes (workflow : String)
  | node (e : NodeFailure)
  | noErrorEdge (id : String) (orig : Option ExecError) (errData : Option (Output D))
  | timeout (budget : Int) (workflow : String)
  | aborted (workflow : String)
  | incomplete (workflow : String) (join : JoinType) (id : String) (got total : Nat)
  deriving DecidableEq, Repr

/-- A retry loop: the policy it follows, the number of the next attempt and the policies of the later error edges. -/
structure RetryLoop where
  policy : RetryConfig
  attempt : Nat
  rest : List RetryConfig
  deriving DecidableEq, Repr

/-- Where a goroutine is; `retry` is `none` in the first call of `dispatchNode`. -/
inductive Pc (D : Type) where
  | start
  | dispatching (retry : Option RetryLoop)
  | executing (retry : Option RetryLoop) (services : List (String × D))
  | storing (retry : Option RetryLoop) (r : ExecResult D) (availableNodes : List String)
  | returned (retry : Option RetryLoop) (res : Except NodeFailure String)
  | retrying (loop : RetryLoop)
  | failing (e : WorkflowError D)
  | cancelling
  | completing (output : String) (keys : List String)
  | evicting (output key : String) (keys : List String)
  | following (output : String) (targets : List String)
  | arriving (output target : String) (targets : List String)
  | finished

/-- The events of a run.  `completed n o`: the final output of `n` is `o`; `arrival n o t`: an edge is followed. -/
inductive Event (D : Type) where
  | dispatched (n : String)
  | leftEarly (n : String)
  | executed (n : String) (services : List (String × D)) (r : ExecResult D)
  | stored (n : String) (r : ExecResult D)
  | failed (n : String) (e : WorkflowError D)
  | cancelled (n : String)
  | completed (n o : String)
  | released (n key : String)
  | evicted (n key : String)
  | arrival (n o t : String)
  | ctxEnded (e : CtxError)
  deriving DecidableEq

/-- The state of a run.  `groupSeen` and `arrived` are the join bookkeeping, `refs` the counts of the eviction
tracker, `toStart` the entry nodes the main goroutine has still to start. -/
structure RunState (D : Type) where
  exec : ExecutionContext D
  groupSeen : String → List Bool
  arrived : String → Nat
  refs : GoMap Int
  ctxErr : Option CtxError
  firstErr : Option (WorkflowError D)
  toStart : List String
  goroutines : List (String × Pc D)
  result : Option (Option (WorkflowError D))
  panicked : Bool
  log : List (Event D)

/-- The one thing a step of a goroutine does to the shared state. -/
inductive Effect (D : Type) where
  | quiet
  | leave
  | register
  | ret (services : List (String × D)) (r : ExecResult D)
  | store (r : ExecResult D) (availableNodes : List String)
  | fail (e : WorkflowError D)
  | cancel
  | complete (o : String)
  | release (key : String)
  | evict (key : String)
  | arrive (o t : String) (group : Nat)
  | count (t : String)
  | panic

/-- What the environment decides in a step of a goroutine. -/
inductive Choice (D : Type) where
  | go
  | execute (r : ExecResult D)
  | ctxDone

inductive Action (D : Type) where
  | startEntry
  | advance (i : Nat) (c : Choice D)
  | ctxEnd (e : CtxError)
  | finish (inherited : Option Int)

/-! ### Node goroutines -/

section

variable (g : CompiledGraph) (reg : Registries D)

/-- `graph.Nodes[n]`, for a node that is there. -/
def CompiledGraph.node (n : String) : CompiledNode := g.nodes.getD n ⟨"", "", "", [], ∅, [], []⟩

/-- The retry policies on the error edges of a node, in edge order. -/
def retryPolicies (n : String) : List RetryConfig :=
  (g.targets n "error").filterMap fun t => (g.getEdge n "error" t).bind CompiledEdge.retry

/-- The output of `n` is final: `NodeCompleted` comes next. -/
def settle (n o : String) : Pc D × Effect D := (.completing o (consumedKeys g n), .complete o)

/-- The loop over the error edges: retry by the next policy, or follow the error edges. -/
def nextPolicy (n : String) : List RetryConfig → Pc D × Effect D
  | [] => settle g n "error"
  | policy :: rest => (.retrying ⟨policy, 1, rest⟩, .quiet)

/-- What a goroutine does with the result of `dispatchNode`. -/
def afterDispatch (exec : ExecutionContext D) (n : String) :
    Option RetryLoop → Except NodeFailure String → Pc D × Effect D
  | _, .error e => (.failing (.node e), .quiet)
  | none, .ok o =>
    if o = "error" then
      if g.targets n "error" = [] then (.failing (.noErrorEdge n (exec.nodeError n) (exec.getOutput n)), .quiet)
      else nextPolicy g n (retryPolicies g n)
    else settle g n o
  | some loop, .ok o =>
    if o = "error" then (.retrying { loop with attempt := loop.attempt + 1 }, .quiet) else settle g n o

/-- One step of the goroutine of `n`: its next program counter and what it does to the shared state. -/
def localStep (s : RunState D) (n : String) : Pc D → Choice D → Option (Pc D × Effect D)
  | .start, .go =>
    if s.ctxErr ≠ none then some (.finished, .leave)
    else if n ∈ g.nodes then some (.dispatching none, .quiet)
    else some (.finished, .panic) -- `node.ID` of a nil node, outside of the recover of `dispatchNode`
  | .dispatching retry, .go =>
    match prepare reg (g.node n) with
    | .error e => some (.returned retry (.error e), .quiet)
    | .ok services => some (.executing retry services, .register)
  | .executing retry services, .execute r =>
    some (.storing retry (executeNode (g.node n) r) s.exec.outputKeys, .ret services (executeNode (g.node n) r))
  | .storing retry r availableNodes, .go =>
    some (.returned retry (conclude (g.node n) availableNodes r s.exec).2, .store r availableNodes)
  | .returned retry res, .go => some (afterDispatch g s.exec n retry res)
  | .retrying loop, .go =>
    if (loop.attempt : Int) ≤ loop.policy.attempts then some (.dispatching (some loop), .quiet)
    else some (nextPolicy g n loop.rest)
  | .retrying loop, .ctxDone => -- the wait before an attempt sees the end of the context
    if (loop.attempt : Int) ≤ loop.policy.attempts ∧ s.ctxErr ≠ none then some (nextPolicy g n loop.rest) else none
  | .failing e, .go => some (.cancelling, .fail e)
  | .cancelling, .go => some (.finished, .cancel)
  | .completing o [], .go => some (.following o (g.targets n o), .quiet)
  | .completing o (key :: keys), .go =>
    match s.refs.lookup key with
    | none => some (.completing o keys, .quiet)
    | some ref => some (if ref - 1 = 0 then .evicting o key keys else .completing o keys, .release key)
  | .evicting o key keys, .go => some (.completing o keys, .evict key)
  | .following _ [], .go => some (.finished, .quiet)
  | .following o (t :: ts), .go =>
    let group := (g.groupOf t n).getD 0 -- the zero value, for a source that is not in the map
    match (s.groupSeen t)[group]? with
    | none => some (.finished, .panic) -- an index out of range
    | some seen => some (if seen then .following o ts else .arriving o t ts, .arrive o t group)
  | .arriving o t ts, .go => some (.following o ts, .count t)
  | _, _ => none

/-! ### Shared state -/

/-- `dispatchIfReady`: a goroutine for `t`. -/
def RunState.dispatch (s : RunState D) (t : String) : RunState D :=
  { s with goroutines := s.goroutines ++ [(t, .start)], log := .dispatched t :: s.log }

/-- The effect of a step of `n` on the shared state. -/
def RunState.perform (s : RunState D) (n : String) : Effect D → RunState D
  | .quiet => s
  | .leave => { s with log := .leftEarly n :: s.log }
  | .register => { s with exec := registerNode (g.node n) s.exec }
  | .ret services r => { s with log := .executed n services r :: s.log }
  | .store r availableNodes =>
    { s with exec := (conclude (g.node n) availableNodes r s.exec).1, log := .stored n r :: s.log }
  | .fail e => { s with firstErr := s.firstErr.or (some e), log := .failed n e :: s.log }
  | .cancel => { s with ctxErr := s.ctxErr.or (some .canceled), log := .cancelled n :: s.log }
  | .complete o => { s with log := .completed n o :: s.log }
  | .release key => { s with refs := s.refs.modify key 0 (· - 1), log := .released n key :: s.log }
  | .evict key => { s with exec := s.exec.evictOutput key, log := .evicted n key :: s.log }
  | .arrive o t group =>
    { s with
      groupSeen := Function.update s.groupSeen t ((s.groupSeen t).set group true)
      log := .arrival n o t :: s.log }
  | .count t =>
    let s := { s with arrived := Function.update s.arrived t (s.arrived t + 1) }
    if s.arrived t = g.groupCount t then s.dispatch t else s
  | .panic => { s with panicked := true }

/-- The first join, by id, that received some of its branches only. -/
def starvedJoin (s : RunState D) : Option String :=
  (sortStrings g.joinGroupCount.keys).find? fun id =>
    1 < g.groupCount id ∧ 0 < s.arrived id ∧ s.arrived id < g.groupCount id

/-- The error of a run whose context has ended; without a timeout of its own it reports the inherited budget. -/
def ctxEndError (inherited : Option Int) : CtxError → WorkflowError D
  | .deadlineExceeded => .timeout (if g.timeout = 0 then inherited.getD g.timeout else g.timeout) g.workflowID
  | .canceled => .aborted g.workflowID

/-- The result of the run: the first recorded error, the end of the context, or a starved join. -/
def runResult (s : RunState D) (inherited : Option Int) : Option (WorkflowError D) :=
  (s.firstErr.or (s.ctxErr.map (ctxEndError g inherited))).or
    ((starvedJoin g s).map fun id =>
      .incomplete g.workflowID (g.joinTypes.getD id .joinNone) id (s.arrived id) (g.groupCount id))

def Pc.isFinished : Pc D → Bool
  | .finished => true
  | _ => false

/-- `wg.Wait()` returns: the main goroutine has started all entry nodes, and all node goroutines have returned. -/
def RunState.waited (s : RunState D) : Bool := s.toStart.isEmpty && s.goroutines.all fun p => p.2.isFinished

/-- One step of a run of `ExecuteGraph`. -/
def step (s : RunState D) (a : Action D) : Option (RunState D) :=
  if s.result ≠ none ∨ s.panicked then none
  else
    match a with
    | .startEntry =>
      match s.toStart with
      | [] => none
      | t :: ts => some (RunState.dispatch { s with toStart := ts } t)
    | .advance i c =>
      match s.goroutines[i]? with
      | none => none
      | some (n, pc) =>
        match localStep g reg s n pc c with
        | none => none
        | some (pc', eff) => some (RunState.perform g { s with goroutines := s.goroutines.set i (n, pc') } n eff)
    | .ctxEnd e => if s.ctxErr = none then some { s with ctxErr := some e, log := .ctxEnded e :: s.log } else none
    | .finish inherited => if s.waited then some { s with result := some (runResult g s inherited) } else none

/-- The state in which `ExecuteGraph` starts, on a fresh execution context. -/
def initial (retainOutputs : Bool) : RunState D where
  exec := { retainOutputs }
  groupSeen t := List.replicate (g.groupCount t) false
  arrived _ := 0
  refs := (newEvictionTracker g).refs
  ctxErr := none
  firstErr := none
  toStart := g.entryNodes
  goroutines := []
  result := if g.entryNodes = [] then some (some (.noEntryNodes g.workflowID)) else none
  panicked := false
  log := []

end

end Noda.Engine
