import Mathlib.Algebra.Ring.Nat
import Noda.Lib.StreamGroup
import Noda.Lib.Transition

/-!
# The worker runtime

`internal/worker/runtime.go`: the consumers and the reaper of one worker on any number of instances, over the consumer
group of the worker's topic.  A goroutine step (`goroutineStep`, and `callStep` inside `processMessage`) performs at
most one Redis command, so the runs of `step` are the interleavings of all goroutines of all instances.

The environment chooses in the actions how a processing attempt ends (`Handling`), how each Redis command ends for its
caller (`Reply`: it may fail, or panic, with the server having carried it out or not), the clock, when instances start,
stop and crash, and what others publish.  `log` is a ghost: the results of `runMessage` and the dead letters so far.
-/

namespace Noda.Worker

open StreamGroup

/-! ### Configuration -/

/-- `DeadLetterConfig`. -/
structure DeadLetterConfig where
  topic : String
  after : Int
  deriving DecidableEq, Repr

/-- `RetryConfig`; `minIdle` is in nanoseconds. -/
structure RetryConfig where
  minIdle : Int
  maxAttempts : Int
  deriving DecidableEq, Repr

/-- `WorkerConfig`, as far as the runtime reads it outside of the workflow it runs. -/
structure WorkerConfig where
  id : String
  topic : String
  group : String
  concurrency : Int
  timeout : Int
  deadLetter : Option DeadLetterConfig
  retry : RetryConfig
  deriving DecidableEq, Repr

def maxConcurrency : Int := 1000

def defaultMessageTimeout : Int := 5 * 60 * 1000000000

def defaultMaxAttempts : Int := 10

def minIdleFloor : Int := 60 * 1000000000

def minIdleMargin : Int := 30 * 1000000000

/-- `resolveRetry`.  The sum is an `int64` and wraps. -/
def resolveRetry (rc : RetryConfig) (timeout : Int) : RetryConfig :=
  let timeout := if timeout ≤ 0 then defaultMessageTimeout else timeout
  let maxAttempts := if rc.maxAttempts ≤ 0 then defaultMaxAttempts else rc.maxAttempts
  let minAllowed := Int.bmod (timeout + minIdleMargin) (2 ^ 64)
  let minIdle := if rc.minIdle ≤ 0 ∨ rc.minIdle < minAllowed then minAllowed else rc.minIdle
  { minIdle := if minIdle < minIdleFloor then minIdleFloor else minIdle, maxAttempts }

/-- `resolveDeadLetter`. -/
def resolveDeadLetter (dl : Option DeadLetterConfig) (maxAttempts : Int) : Option DeadLetterConfig :=
  match dl with
  | none => none
  | some dl =>
    if dl.topic = "" then none
    else if dl.after ≤ 0 then some { dl with after := maxAttempts }
    else some dl

/-- The configuration `Start` hands to the goroutines of the worker. -/
def WorkerConfig.resolve (w : WorkerConfig) : WorkerConfig :=
  let retry := resolveRetry w.retry w.timeout
  { w with retry, deadLetter := resolveDeadLetter w.deadLetter retry.maxAttempts }

/-- The check of `ValidateConfigs` on one worker. -/
def validateConfig (w : WorkerConfig) : Bool := w.concurrency ≤ maxConcurrency

/-- `failureAction`. -/
inductive FailureAction where
  | pending
  | deadLetter
  | drop
  deriving DecidableEq, Repr

/-- `decideFailureDisposition`. -/
def decideFailureDisposition (attempts : Int) (dl : Option DeadLetterConfig) (maxAttempts : Int) : FailureAction :=
  let maxAttempts := if maxAttempts ≤ 0 then defaultMaxAttempts else maxAttempts
  match dl.filter (0 < ·.after) with
  | some dl => if attempts ≥ dl.after then .deadLetter else .pending
  | none => if attempts ≥ maxAttempts then .drop else .pending

/-! ### Messages -/

/-- The fields of a stream entry. -/
abbrev Values := List (String × String)

/-- A message: an entry of the worker's topic. -/
abbrev Message := Entry Values

/-- The payload `moveToDeadLetter` publishes. -/
structure DeadLetterRecord where
  originalTopic : String
  originalGroup : String
  originalMessageId : Nat
  originalPayload : Values
  error : String
  traceId : String
  deadLetteredAt : Nat

/-- `msgResult`. -/
structure MsgResult where
  badInput : Bool
  err : Option String
  deriving DecidableEq, Repr

/-- What happens in `runMessage`: the input mapping fails, the handler returns, or something panics. -/
inductive Handling where
  | badMapping (err : String)
  | handled (err : Option String)
  | panicked (value stack : String)

/-- `runMessage`. -/
def runMessage : Handling → MsgResult
  | .badMapping err => ⟨true, some err⟩
  | .handled err => ⟨false, err⟩
  | .panicked value stack => ⟨false, some ("worker.recover: panic in message processing: " ++ value ++ "\n" ++ stack)⟩

/-- How a Redis command ends for its caller: with a reply, or with an error or a panic after the server may or may not
have carried it out. -/
inductive Reply where
  | ok
  | err (applied : Bool)
  | panic (applied : Bool)
  deriving DecidableEq, Repr

/-- The server has carried out the command. -/
def Reply.applied : Reply → Bool
  | .ok => true
  | .err applied => applied
  | .panic applied => applied

/-! ### The server -/

/-- What the worker has done: `runMessage` has returned for a message, a dead letter has been appended to a topic. -/
inductive Event where
  | ran (id : Nat) (res : MsgResult)
  | deadLettered (topic : String) (record : DeadLetterRecord)

/-- The streams of the server and the consumer group of the worker. -/
structure Server where
  streams : String → List (Entry Values)
  group : Group
  log : List Event

namespace Server

/-- `XADD topic * …`. -/
def add (sv : Server) (topic : String) (now : Nat) (values : Values) : Server :=
  { sv with streams := fun t => if t = topic then StreamGroup.add now values (sv.streams t) else sv.streams t }

/-- `XACK`. -/
def ack (sv : Server) (id : Nat) : Server := { sv with group := sv.group.ack id }

/-- `XREADGROUP` of one new message. -/
def read (sv : Server) (topic consumer : String) (now : Nat) : List Message × Server :=
  let r := Group.read consumer now 1 (sv.streams topic) sv.group
  (r.1, { sv with group := r.2 })

/-- `XAUTOCLAIM`; `minIdle` is sent in milliseconds. -/
def claim (sv : Server) (topic consumer : String) (minIdle : Int) (now cursor count : Nat) :
    List Message × Nat × Server :=
  let r := sv.group.claim consumer (minIdle / 1000000) now cursor count
  ((sv.streams topic).filter (·.id ∈ r.1), r.2.1, { sv with group := r.2.2 })

/-- The event happens. -/
def note (sv : Server) (e : Event) : Server := { sv with log := e :: sv.log }

end Server

/-! ### Processing one message -/

/-- Which of the acknowledgements of the source an `XACK` is. -/
inductive Ack where
  | processed
  | badMapping
  | dropped
  | deadLettered
  deriving DecidableEq, Repr

/-- Where a call of `processMessage` is. -/
inductive Stage where
  | running
  | counting (err : String)
  | publishing (err : String)
  | acking (ack : Ack)
  | returned

/-- A call of `processMessage`; a negative `attempts` is unknown. -/
structure Call where
  msg : Message
  attempts : Int
  traceId : String
  stage : Stage

variable (marshal : DeadLetterRecord → Option String) (w : WorkerConfig)

/-- The decision of `disposeFailure`. -/
def disposeFailure (attempts : Int) (err : String) : Stage :=
  match decideFailureDisposition attempts w.deadLetter w.retry.maxAttempts with
  | .deadLetter => .publishing err
  | .drop => .acking .dropped
  | .pending => .returned

/-- What `processMessage` does with the result of `runMessage`. -/
def dispose (attempts : Int) (res : MsgResult) : Stage :=
  match res.err with
  | none => .acking .processed
  | some err =>
    if res.badInput then
      if w.deadLetter.isSome then .publishing err else .acking .badMapping
    else if attempts < 0 then .counting err
    else disposeFailure w attempts err

/-- `getDeliveryAttempts`: `0` if the lookup fails or finds nothing. -/
def getDeliveryAttempts (sv : Server) (id : Nat) : Reply → Int
  | .ok => ((sv.group.range id id 1 none).head?.map fun r => (r.2 : Int)).getD 0
  | _ => 0

/-- The payload of a dead letter. -/
def deadLetterRecord (c : Call) (err : String) (now : Nat) : DeadLetterRecord where
  originalTopic := w.topic
  originalGroup := w.group
  originalMessageId := c.msg.id
  originalPayload := c.msg.values
  error := err
  traceId := c.traceId
  deadLetteredAt := now

/-- The publishing half of `moveToDeadLetter`. -/
def publishDeadLetter (sv : Server) (c : Call) (err : String) (now : Nat) (reply : Reply) : Server × Stage :=
  match w.deadLetter with
  | none => (sv, .returned) -- a nil dereference, recovered in `processMessage`
  | some dl =>
    let record := deadLetterRecord w c err now
    match marshal record with
    | none => (sv, .returned)
    | some data =>
      (if reply.applied then (sv.add dl.topic now [("payload", data)]).note (.deadLettered dl.topic record) else sv,
        if reply = .ok then .acking .deadLettered else .returned)

/-- What the environment decides in a step of a call. -/
inductive CallChoice where
  | run (h : Handling) (traceId : String)
  | command (reply : Reply) (now : Nat)

/-- A step of `processMessage`: `runMessage`, or one Redis command. -/
def callStep (sv : Server) (c : Call) (choice : CallChoice) : Option (Server × Call) :=
  match c.stage, choice with
  | .running, .run h traceId =>
    let res := runMessage h
    some (sv.note (.ran c.msg.id res), { c with traceId, stage := dispose w c.attempts res })
  | .counting err, .command reply _ =>
    some (sv, { c with
      stage := match reply with
        | .panic _ => .returned
        | _ => disposeFailure w (getDeliveryAttempts sv c.msg.id reply) err })
  | .publishing err, .command reply now =>
    let r := publishDeadLetter marshal w sv c err now reply
    some (r.1, { c with stage := r.2 })
  | .acking _, .command reply _ =>
    some (if reply.applied then sv.ack c.msg.id else sv, { c with stage := .returned })
  | _, _ => none

/-! ### Consumers and reapers -/

/-- Where a goroutine is: `consuming` and `handling` are `consume`, `ticking` is `reap`, the others are `reapOnce`. -/
inductive Phase where
  | consuming
  | handling (call : Call)
  | ticking
  | claiming (cursor : Nat)
  | prefetching (msgs : List Message) (next : Nat)
  | page (calls : List Call) (next : Nat)
  | exited

/-- A goroutine of an instance, with the consumer it acts for. -/
structure Goroutine where
  inst : Nat
  consumer : String
  phase : Phase

/-- What the environment decides in a step of a goroutine. -/
inductive Choice where
  | loop
  | command (reply : Reply) (now : Nat)
  | call (i : Nat) (choice : CallChoice)

/-- The calls a page of claimed messages starts; without a prefetched count the call looks it up. -/
def startCalls (counts : List (Nat × Nat)) (msgs : List Message) : List Call :=
  msgs.map fun m => ⟨m, ((counts.lookup m.id).map fun n => (n : Int)).getD (-1), "", .running⟩

/-- `prefetchAttempts` of a page that is not empty; `nil` if the lookup fails. -/
def prefetchAttempts (sv : Server) (consumer : String) (msgs : List Message) : Reply → List (Nat × Nat)
  | .ok => sv.group.range ((msgs.head?.map Entry.id).getD 0) (lastId msgs) msgs.length (some consumer)
  | _ => []

/-- `consume` after `XREADGROUP`, which has been asked for one message. -/
def afterRead : List Message → Phase
  | m :: _ => .handling ⟨m, -1, "", .running⟩
  | [] => .consuming

/-- `reapOnce` after `XAUTOCLAIM`: an empty page needs no counts. -/
def afterClaim (msgs : List Message) (next : Nat) : Phase :=
  match msgs with
  | [] => .page [] next
  | m :: msgs => .prefetching (m :: msgs) next

def Call.isReturned (c : Call) : Bool :=
  match c.stage with
  | .returned => true
  | _ => false

/-- A step of a goroutine; `cancelled` is `ctx.Err() != nil`.  The context may end between the check at the top of a
loop and the command after it, so the commands do not depend on it.  A panic outside of `processMessage` ends the
process: that is a lost reply and a crash of the instance. -/
def goroutineStep (cancelled : Bool) (sv : Server) (g : Goroutine) (choice : Choice) : Option (Server × Phase) :=
  match g.phase, choice with
  | .consuming, .loop => if cancelled then some (sv, .exited) else none
  | .consuming, .command reply now =>
    let r := sv.read w.topic g.consumer now
    match reply with
    | .ok => some (r.2, afterRead r.1)
    | .err applied => some (if applied then r.2 else sv, .consuming)
    | .panic _ => none
  | .handling c, .call _ choice =>
    (callStep marshal w sv c choice).map fun r => (r.1, .handling r.2)
  | .handling c, .loop => if c.isReturned then some (sv, .consuming) else none
  | .ticking, .loop => some (sv, if cancelled then .exited else .claiming 0)
  | .claiming _, .loop => if cancelled then some (sv, .ticking) else none
  | .claiming cursor, .command reply now =>
    let r := sv.claim w.topic g.consumer w.retry.minIdle now cursor (max w.concurrency 1).toNat
    match reply with
    | .ok => some (r.2.2, afterClaim r.1 r.2.1)
    | .err applied => some (if applied then r.2.2 else sv, .ticking)
    | .panic _ => none
  | .prefetching msgs next, .command reply _ =>
    match reply with
    | .panic _ => none
    | _ => some (sv, .page (startCalls (prefetchAttempts sv g.consumer msgs reply) msgs) next)
  | .page calls next, .call i choice =>
    match calls[i]? with
    | none => none
    | some c => (callStep marshal w sv c choice).map fun r => (r.1, .page (calls.set i r.2) next)
  | .page calls next, .loop =>
    if calls.all Call.isReturned then some (sv, if next = 0 then .ticking else .claiming next) else none
  | _, _ => none

/-! ### The system -/

/-- The state of the worker on all instances. -/
structure State where
  server : Server
  goroutines : List Goroutine
  instances : Nat
  stopped : List Nat

/-- What may happen next. -/
inductive Action where
  | start
  | stop (inst : Nat)
  | crash (inst : Nat)
  | publish (topic : String) (now : Nat) (values : Values)
  | step (t : Nat) (choice : Choice)

/-- The goroutines `Start` starts. -/
def startGoroutines (inst : Nat) : List Goroutine :=
  (List.range (max w.concurrency 1).toNat).map (fun i => ⟨inst, w.id ++ "-" ++ toString i, .consuming⟩) ++
    [⟨inst, w.id ++ "-reaper", .ticking⟩]

/-- One step of the worker; `w` is its configuration as `Start` has resolved it. -/
def step (s : State) : Action → Option State
  | .start =>
    if validateConfig w then
      some { s with goroutines := s.goroutines ++ startGoroutines w s.instances, instances := s.instances + 1 }
    else none
  | .stop inst => some { s with stopped := inst :: s.stopped }
  | .crash inst => some { s with goroutines := s.goroutines.filter (·.inst ≠ inst) }
  | .publish topic now values => some { s with server := s.server.add topic now values }
  | .step t choice =>
    match s.goroutines[t]? with
    | none => none
    | some g =>
      (goroutineStep marshal w (g.inst ∈ s.stopped) s.server g choice).map fun r =>
        { s with server := r.1, goroutines := s.goroutines.set t { g with phase := r.2 } }

/-- No instance runs; the streams and the group are whatever earlier deployments have left. -/
def initial (streams : String → List (Entry Values)) (group : Group) : State where
  server := ⟨streams, group, []⟩
  goroutines := []
  instances := 0
  stopped := []

end Noda.Worker
