import Noda.Engine.Context
import Noda.Lib.Duration
import Noda.Lib.ErrorTree
import Noda.Lib.Json
import Noda.Lib.Strconv

/-!
# From a failed node to the response

The typed errors of `pkg/api/errors.go`, the classification of database errors (`internal/dberr`) and
`MapErrorToHTTP`.  On its way from a node to the client an error is wrapped: by the node of a sub-workflow that has no
error output, by the run when an error output has no edge, by each turn of a loop.

Outside dev mode the response depends only on what `exposed` shows of the error and of all it wraps: not on the texts of
drivers and of wrappers, not on the reason of a conflict, not on the way it came (`failures_reported`).
-/

namespace Noda.Errors

/-- The types of errors that the code asks for, with their fields; of any other error, its text.  A `Cause` or a wrapped
error is below the kind in the tree. -/
inductive ErrorKind where
  | serviceUnavailable (service : String)
  | validation (field message : String) (value : Json)
  | timeout (duration : Int) (operation : String)
  | notFound (resource id : String)
  | conflict (resource reason : String)
  | nodeExecution (nodeID nodeType : String) (availableNodes : List String)
  | postgres (code columnName text : String)
  | sqlite (extendedCode : Nat) (text : String)
  | other (text : String)

abbrev GoError := ErrorTree ErrorKind

/-! ### Texts -/

def timeoutError (duration : Int) (operation : String) : String :=
  if duration ≤ 0 then "timeout: " ++ operation
  else "timeout after " ++ Duration.toText duration ++ ": " ++ operation

def notFoundError (resource id : String) : String :=
  if id = "" then resource ++ " not found" else resource ++ " not found: " ++ id

/-- `": %v"` of a cause that may be missing. -/
def causeSuffix : List String → String
  | [] => ""
  | cause :: _ => ": " ++ cause

/-- `Error()`, around the texts of the wrapped errors. -/
def ErrorKind.error : ErrorKind → List String → String
  | serviceUnavailable service, causes => "service unavailable: " ++ service ++ ": " ++ causes.head?.getD "<nil>"
  | validation field message _, causes =>
    "validation error on field " ++ field.goQuote ++ ": " ++ message ++ causeSuffix causes
  | timeout duration operation, _ => timeoutError duration operation
  | notFound resource id, _ => notFoundError resource id
  | conflict resource reason, causes => "conflict on " ++ resource ++ ": " ++ reason ++ causeSuffix causes
  | nodeExecution nodeID nodeType availableNodes, causes =>
    "node " ++ nodeID.goQuote ++ " (" ++ nodeType ++ "): " ++ causes.head?.getD "" ++ " [available nodes: " ++
      ", ".intercalate availableNodes ++ "]"
  | postgres _ _ text, _ => text
  | sqlite _ text, _ => text
  | other text, _ => text

def message (err : GoError) : String := err.error ErrorKind.error

/-- `fmt.Errorf` with `%w` after a text. -/
def errorf (before : String) (err : GoError) : GoError := .wrap (.other (before ++ message err)) err

/-! ### The types that are asked for -/

structure ValidationError where
  field : String
  message : String
  value : Json

/-- An error whose text dev mode shows in full: what it is about, and `Error()`. -/
structure Detailed where
  about : String
  error : String

structure NodeContext where
  nodeID : String
  nodeType : String
  availableNodes : List String
  deriving DecidableEq, Repr

structure PgError where
  code : String
  columnName : String
  deriving DecidableEq, Repr

def validation? (err : GoError) : Option ValidationError :=
  match err.kind with
  | .validation field message value => some ⟨field, message, value⟩
  | _ => none

def notFound? (err : GoError) : Option (String × String) :=
  match err.kind with
  | .notFound resource id => some (resource, id)
  | _ => none

def conflict? (err : GoError) : Option Detailed :=
  match err.kind with
  | .conflict resource _ => some ⟨resource, message err⟩
  | _ => none

def serviceUnavailable? (err : GoError) : Option Detailed :=
  match err.kind with
  | .serviceUnavailable service => some ⟨service, message err⟩
  | _ => none

def timeout? (err : GoError) : Option (Int × String) :=
  match err.kind with
  | .timeout duration operation => some (duration, operation)
  | _ => none

def nodeExecution? (err : GoError) : Option NodeContext :=
  match err.kind with
  | .nodeExecution nodeID nodeType availableNodes => some ⟨nodeID, nodeType, availableNodes⟩
  | _ => none

def pg? (err : GoError) : Option PgError :=
  match err.kind with
  | .postgres code columnName _ => some ⟨code, columnName⟩
  | _ => none

def sqlite? (err : GoError) : Option Nat :=
  match err.kind with
  | .sqlite extendedCode _ => some extendedCode
  | _ => none

/-- `ErrorCode`; `none` is the nil error. -/
def errorCode : Option GoError → String
  | none => ""
  | some err =>
    if (err.asType validation?).isSome then "VALIDATION_ERROR"
    else if (err.asType notFound?).isSome then "NOT_FOUND"
    else if (err.asType conflict?).isSome then "CONFLICT"
    else if (err.asType serviceUnavailable?).isSome then "SERVICE_UNAVAILABLE"
    else if (err.asType timeout?).isSome then "TIMEOUT"
    else "INTERNAL_ERROR"

/-! ### Database errors -/

def pgConflict : String → Option String
  | "23505" => some "unique constraint violation"
  | "23503" => some "foreign key constraint violation"
  | "23P01" => some "exclusion constraint violation"
  | _ => none

def pgValidation : String → Option String
  | "23502" => some "not-null constraint violation"
  | "23514" => some "check constraint violation"
  | "22P02" => some "invalid input syntax"
  | "22003" => some "numeric value out of range"
  | "22007" => some "invalid datetime format"
  | "22008" => some "datetime field overflow"
  | "22001" => some "value too long for column"
  | "22023" => some "invalid parameter value"
  | _ => none

def pgUnavailable : List String := ["40001", "40P01", "53300", "08000", "08003", "08006"]

def pgQueryCanceled : String := "57014"

/-- `sqlite3.ErrConstraint.Extend`. -/
def constraintExtend (n : Nat) : Nat := 19 + n * 256

def sqliteConflict (code : Nat) : Option String :=
  if code = constraintExtend 8 ∨ code = constraintExtend 6 ∨ code = constraintExtend 10 then
    some "unique constraint violation"
  else if code = constraintExtend 3 then some "foreign key constraint violation"
  else none

/-- The last code is `ErrMismatch`, which has no extended variant. -/
def sqliteValidation (code : Nat) : Option String :=
  if code = constraintExtend 5 then some "not-null constraint violation"
  else if code = constraintExtend 1 then some "check constraint violation"
  else if code = constraintExtend 12 ∨ code = 20 then some "invalid input syntax"
  else none

/-- What the driver's code of a database error says to the caller; `none` is an error of no known meaning. -/
def classifyPg (pge : PgError) (resource : String) : Option ErrorKind :=
  match pgConflict pge.code with
  | some reason => some (.conflict resource reason)
  | none =>
    match pgValidation pge.code with
    | some reason => some (.validation pge.columnName reason .null)
    | none =>
      if pge.code ∈ pgUnavailable then some (.serviceUnavailable "database")
      else if pge.code = pgQueryCanceled then some (.timeout 0 "database query")
      else none

def classifySqlite (code : Nat) (resource : String) : Option ErrorKind :=
  match sqliteConflict code with
  | some reason => some (.conflict resource reason)
  | none => (sqliteValidation code).map fun reason => .validation "" reason .null

/-- `Classify`. -/
def classify (err : GoError) (resource : String) : Option GoError :=
  match err.asType pg? with
  | some pge => (classifyPg pge resource).map fun k => .wrap k err
  | none =>
    match err.asType sqlite? with
    | some code => (classifySqlite code resource).map fun k => .wrap k err
    | none => none

/-- `ClassifyOr`. -/
def classifyOr (err : GoError) (resource op : String) : GoError :=
  (classify err resource).getD (errorf (op ++ ": ") err)

/-! ### The response -/

structure ErrorData where
  code : String
  message : String
  details : Option (GoMap Json) := none
  traceID : String
  nodeID : String := ""
  nodeType : String := ""

/-- The `switch` of `MapErrorToHTTP`. -/
def mapType (err : GoError) (code traceID : String) (devMode : Bool) : Nat × ErrorData :=
  match err.asType validation? with
  | some valErr =>
    (422, { code, message := valErr.message, traceID,
            details := some (GoMap.ofPairs [("field", .str valErr.field), ("value", valErr.value)]) })
  | none =>
  match err.asType notFound? with
  | some nfErr => (404, { code, message := notFoundError nfErr.1 nfErr.2, traceID })
  | none =>
  match err.asType conflict? with
  | some cfErr => (409, { code, message := if devMode then cfErr.error else "conflict on " ++ cfErr.about, traceID })
  | none =>
  match err.asType serviceUnavailable? with
  | some suErr =>
    (503, { code, message := if devMode then suErr.error else "service unavailable: " ++ suErr.about, traceID })
  | none =>
  match err.asType timeout? with
  | some toErr => (504, { code, message := timeoutError toErr.1 toErr.2, traceID })
  | none => (500, { code, message := if devMode then message err else "Internal server error", traceID })

/-- The node context that dev mode adds. -/
def ErrorData.enrich (resp : ErrorData) (nodeErr : NodeContext) : ErrorData :=
  { resp with
    nodeID := nodeErr.nodeID
    nodeType := nodeErr.nodeType
    details := some ((resp.details.getD ∅).insert "available_nodes" (.arr (nodeErr.availableNodes.map .str))) }

/-- `MapErrorToHTTP`, of an error that is not nil. -/
def mapErrorToHTTP (err : GoError) (traceID : String) (devMode : Bool) : Nat × ErrorData :=
  let code := if errorCode (some err) = "" then "INTERNAL_ERROR" else errorCode (some err)
  let (status, resp) := mapType err code traceID devMode
  match devMode, err.asType nodeExecution? with
  | true, some nodeErr => (status, resp.enrich nodeErr)
  | _, _ => (status, resp)

/-! ### The way of an error -/

/-- Who wraps an error on its way: `dispatchNode` for a node that declares no error output, `ExecuteGraph` for one whose
error output has no edge, `control.loop` for its turn.  `workflow.run` and `runSubWorkflow` pass it on as it is. -/
inductive Layer where
  | node (nodeID nodeType : String) (availableNodes : List String)
  | noErrorEdge (nodeID : String)
  | loop (iteration : Nat)
  deriving DecidableEq, Repr

def Layer.wrap : Layer → GoError → GoError
  | node nodeID nodeType availableNodes, err => .wrap (.nodeExecution nodeID nodeType availableNodes) err
  | noErrorEdge nodeID, err => errorf ("node " ++ nodeID.goQuote ++ " failed with no error edge: ") err
  | loop iteration, err => errorf ("loop: iteration " ++ toString iteration ++ ": ") err

/-- An error that has come up through layers, the outermost first. -/
def rise (layers : List Layer) (err : GoError) : GoError := layers.foldr Layer.wrap err

/-- What the engine keeps of an error for the node's error output. -/
def execError (err : GoError) : Engine.ExecError := ⟨errorCode (some err), message err⟩

/-! ### What a client may learn -/

/-- The fields of an error that the response of production mode is made of. -/
inductive Exposed where
  | validation (field message : String) (value : Json)
  | notFound (resource id : String)
  | conflict (resource : String)
  | serviceUnavailable (service : String)
  | timeout (duration : Int) (operation : String)

def ErrorKind.exposed : ErrorKind → Option Exposed
  | validation field message value => some (.validation field message value)
  | notFound resource id => some (.notFound resource id)
  | conflict resource _ => some (.conflict resource)
  | serviceUnavailable service => some (.serviceUnavailable service)
  | timeout duration operation => some (.timeout duration operation)
  | nodeExecution .. | postgres .. | sqlite .. | other .. => none

def exposed (err : GoError) : List Exposed := err.shown ErrorKind.exposed

namespace Exposed

def validation? : Exposed → Option ValidationError
  | validation field message value => some ⟨field, message, value⟩
  | _ => none

def notFound? : Exposed → Option (String × String)
  | notFound resource id => some (resource, id)
  | _ => none

def conflict? : Exposed → Option String
  | conflict resource => some resource
  | _ => none

def serviceUnavailable? : Exposed → Option String
  | serviceUnavailable service => some service
  | _ => none

def timeout? : Exposed → Option (Int × String)
  | timeout duration operation => some (duration, operation)
  | _ => none

end Exposed

section

variable (err : GoError)

private theorem asType_validation : err.asType validation? = (exposed err).findSome? Exposed.validation? := by
  refine Option.map_id_apply.symm.trans (ErrorTree.map_asType (g := id) (fun e => ?_) err)
  cases e with | node k causes => cases k <;> rfl

private theorem asType_notFound : err.asType notFound? = (exposed err).findSome? Exposed.notFound? := by
  refine Option.map_id_apply.symm.trans (ErrorTree.map_asType (g := id) (fun e => ?_) err)
  cases e with | node k causes => cases k <;> rfl

private theorem asType_timeout : err.asType timeout? = (exposed err).findSome? Exposed.timeout? := by
  refine Option.map_id_apply.symm.trans (ErrorTree.map_asType (g := id) (fun e => ?_) err)
  cases e with | node k causes => cases k <;> rfl

private theorem map_asType_conflict :
    (err.asType conflict?).map Detailed.about = (exposed err).findSome? Exposed.conflict? := by
  refine ErrorTree.map_asType (fun e => ?_) err
  cases e with | node k causes => cases k <;> rfl

private theorem map_asType_serviceUnavailable :
    (err.asType serviceUnavailable?).map Detailed.about = (exposed err).findSome? Exposed.serviceUnavailable? := by
  refine ErrorTree.map_asType (fun e => ?_) err
  cases e with | node k causes => cases k <;> rfl

private theorem errorCode_eq_of_exposed {err err' : GoError} (h : exposed err' = exposed err) :
    errorCode (some err') = errorCode (some err) := by
  have hconflict : (err'.asType conflict?).isSome = (err.asType conflict?).isSome := by
    rw [← Option.isSome_map (f := Detailed.about), map_asType_conflict, h, ← map_asType_conflict, Option.isSome_map]
  have hunavailable : (err'.asType serviceUnavailable?).isSome = (err.asType serviceUnavailable?).isSome := by
    rw [← Option.isSome_map (f := Detailed.about), map_asType_serviceUnavailable, h, ← map_asType_serviceUnavailable,
      Option.isSome_map]
  simp only [errorCode, hconflict, hunavailable, asType_validation, asType_notFound, asType_timeout, h]

/-- So does the response, outside dev mode. -/
private theorem mapType_eq_of_exposed {err err' : GoError} (h : exposed err' = exposed err) (code traceID : String) :
    mapType err' code traceID false = mapType err code traceID false := by
  have hconflict := (map_asType_conflict err').trans ((congrArg _ h).trans (map_asType_conflict err).symm)
  have hunavailable :=
    (map_asType_serviceUnavailable err').trans ((congrArg _ h).trans (map_asType_serviceUnavailable err).symm)
  simp only [mapType, asType_validation, asType_notFound, asType_timeout, h]
  cases (exposed err).findSome? Exposed.validation? with
  | some valErr => rfl
  | none =>
  cases (exposed err).findSome? Exposed.notFound? with
  | some nfErr => rfl
  | none =>
  cases hc : err.asType conflict? with
  | some cfErr =>
    rw [hc] at hconflict
    obtain ⟨cfErr', hc', habout⟩ := Option.map_eq_some_iff.1 hconflict
    rw [hc']
    simp [habout]
  | none =>
  rw [hc] at hconflict
  rw [Option.map_eq_none_iff.1 hconflict]
  cases hs : err.asType serviceUnavailable? with
  | some suErr =>
    rw [hs] at hunavailable
    obtain ⟨suErr', hs', habout⟩ := Option.map_eq_some_iff.1 hunavailable
    rw [hs']
    simp [habout]
  | none =>
  rw [hs] at hunavailable
  rw [Option.map_eq_none_iff.1 hunavailable]
  cases (exposed err).findSome? Exposed.timeout? <;> rfl

end

/-- The status that goes with a code. -/
def statusOf (code : String) : Nat :=
  if code = "VALIDATION_ERROR" then 422
  else if code = "NOT_FOUND" then 404
  else if code = "CONFLICT" then 409
  else if code = "SERVICE_UNAVAILABLE" then 503
  else if code = "TIMEOUT" then 504
  else 500

private theorem errorCode_ne_empty (err : GoError) : errorCode (some err) ≠ "" := by
  simp only [errorCode]
  split_ifs <;> decide

/-- The two switches, of `ErrorCode` and of `MapErrorToHTTP`, agree. -/
private theorem mapType_spec (err : GoError) (code traceID : String) (devMode : Bool) :
    (mapType err code traceID devMode).1 = statusOf (errorCode (some err)) ∧
    (mapType err code traceID devMode).2.code = code ∧ (mapType err code traceID devMode).2.nodeID = "" := by
  simp only [mapType, errorCode]
  cases err.asType validation? with
  | some valErr => exact ⟨rfl, rfl, rfl⟩
  | none =>
  cases err.asType notFound? with
  | some nfErr => exact ⟨rfl, rfl, rfl⟩
  | none =>
  cases err.asType conflict? with
  | some cfErr => exact ⟨rfl, rfl, rfl⟩
  | none =>
  cases err.asType serviceUnavailable? with
  | some suErr => exact ⟨rfl, rfl, rfl⟩
  | none =>
  cases err.asType timeout? with
  | some toErr => exact ⟨rfl, rfl, rfl⟩
  | none => exact ⟨rfl, rfl, rfl⟩

private theorem mapErrorToHTTP_production (err : GoError) (traceID : String) :
    mapErrorToHTTP err traceID false = mapType err (errorCode (some err)) traceID false := by
  simp [mapErrorToHTTP, errorCode_ne_empty]

/-- In both modes the status and the code say of what type the error is; dev mode names the node. -/
private theorem mapErrorToHTTP_spec (err : GoError) (traceID : String) (devMode : Bool) :
    (mapErrorToHTTP err traceID devMode).1 = statusOf (errorCode (some err)) ∧
    (mapErrorToHTTP err traceID devMode).2.code = errorCode (some err) ∧
    (mapErrorToHTTP err traceID devMode).2.nodeID =
      if devMode then ((err.asType nodeExecution?).map NodeContext.nodeID).getD "" else "" := by
  obtain ⟨hstatus, hcode, hnode⟩ := mapType_spec err (errorCode (some err)) traceID devMode
  simp only [mapErrorToHTTP, errorCode_ne_empty, ↓reduceIte]
  cases devMode with
  | false => exact ⟨hstatus, hcode, hnode⟩
  | true =>
    cases err.asType nodeExecution? with
    | none => exact ⟨hstatus, hcode, hnode⟩
    | some nodeErr => exact ⟨hstatus, hcode, rfl⟩

/-! ### Wrapping -/

private theorem exposed_errorf (before : String) (err : GoError) : exposed (errorf before err) = exposed err :=
  ErrorTree.shown_wrap ..

private theorem exposed_layer (layer : Layer) (err : GoError) : exposed (layer.wrap err) = exposed err := by
  cases layer with
  | node nodeID nodeType availableNodes => exact ErrorTree.shown_wrap ..
  | noErrorEdge nodeID => exact exposed_errorf ..
  | loop iteration => exact exposed_errorf ..

private theorem exposed_rise (layers : List Layer) (err : GoError) : exposed (rise layers err) = exposed err := by
  induction layers with
  | nil => rfl
  | cons layer layers ih => exact (exposed_layer layer _).trans ih

/-- The node that a layer names. -/
def Layer.context : Layer → Option NodeContext
  | node nodeID nodeType availableNodes => some ⟨nodeID, nodeType, availableNodes⟩
  | noErrorEdge _ | loop _ => none

private theorem asType_wrap {α : Type} (p : GoError → Option α) (k : ErrorKind) (err : GoError) :
    (ErrorTree.wrap k err).asType p = (p (.wrap k err)).or (err.asType p) := by
  simp [ErrorTree.wrap, ErrorTree.asType, ErrorTree.asTypeAny]

/-- The node that dev mode names is the outermost one without an error output. -/
private theorem asType_rise (layers : List Layer) (err : GoError) :
    (rise layers err).asType nodeExecution? = (layers.findSome? Layer.context).or (err.asType nodeExecution?) := by
  induction layers with
  | nil => rfl
  | cons layer layers ih =>
    rw [rise, List.foldr_cons, List.findSome?_cons]
    cases layer with
    | node nodeID nodeType availableNodes => exact asType_wrap ..
    | noErrorEdge nodeID => exact (asType_wrap ..).trans ih
    | loop iteration => exact (asType_wrap ..).trans ih

/-! ### Database errors -/

/-- What the driver says of an error: the code of PostgreSQL with its column, or else that of SQLite. -/
def driver (err : GoError) : Option (PgError ⊕ Nat) :=
  ((err.asType pg?).map .inl).or ((err.asType sqlite?).map .inr)

/-- What is exposed of a classified error. -/
def verdict (resource : String) : PgError ⊕ Nat → Option ErrorKind
  | .inl pge => classifyPg pge resource
  | .inr code => classifySqlite code resource

private theorem classify_eq (err : GoError) (resource : String) :
    classify err resource = ((driver err).bind (verdict resource)).map fun k => .wrap k err := by
  rw [classify, driver]
  cases err.asType pg? with
  | some pge => rfl
  | none =>
    cases err.asType sqlite? with
    | some code => rfl
    | none => rfl

/-- What a classified error exposes is what the driver's code says, and what was exposed before. -/
private theorem exposed_classifyOr (err : GoError) (resource op : String) :
    exposed (classifyOr err resource op) =
      (((driver err).bind (verdict resource)).bind ErrorKind.exposed).toList ++ exposed err := by
  rw [classifyOr, classify_eq]
  cases (driver err).bind (verdict resource) with
  | none => exact exposed_errorf ..
  | some k => exact ErrorTree.shown_wrap ..

/-! ### Every failure -/

/-- How an error of a node is reported, by whatever way it comes to the client. -/
structure Reported (err : GoError) : Prop where
  /-- The status and the code are those of the node's error output. -/
  code : ∀ layers traceID devMode,
    (mapErrorToHTTP (rise layers err) traceID devMode).1 = statusOf (execError err).code ∧
    (mapErrorToHTTP (rise layers err) traceID devMode).2.code = (execError err).code
  /-- Production mode tells errors apart by their exposed fields only. -/
  hidden : ∀ err' layers layers' traceID, exposed err' = exposed err →
    mapErrorToHTTP (rise layers' err') traceID false = mapErrorToHTTP (rise layers err) traceID false
  /-- So it tells database errors apart by what the driver says of them only. -/
  driver : ∀ err' layers layers' resource op op' traceID, driver err' = driver err →
    exposed err = [] → exposed err' = [] →
    mapErrorToHTTP (rise layers' (classifyOr err' resource op')) traceID false =
      mapErrorToHTTP (rise layers (classifyOr err resource op)) traceID false
  /-- Dev mode names the outermost node on the way that has no error output. -/
  node : ∀ layers traceID devMode, (mapErrorToHTTP (rise layers err) traceID devMode).2.nodeID =
    if devMode then
      (((layers.findSome? Layer.context).or (err.asType nodeExecution?)).map NodeContext.nodeID).getD ""
    else ""

private theorem production_eq {err err' : GoError} (h : exposed err' = exposed err) (layers layers' : List Layer)
    (traceID : String) :
    mapErrorToHTTP (rise layers' err') traceID false = mapErrorToHTTP (rise layers err) traceID false := by
  have hrise : exposed (rise layers' err') = exposed (rise layers err) := by
    rw [exposed_rise, exposed_rise, h]
  rw [mapErrorToHTTP_production, mapErrorToHTTP_production, errorCode_eq_of_exposed hrise]
  exact mapType_eq_of_exposed hrise _ _

/-- Every error of every node, wrapped in every way. -/
theorem failures_reported (err : GoError) : Reported err where
  code := by
    intro layers traceID devMode
    obtain ⟨hstatus, hcode, -⟩ := mapErrorToHTTP_spec (rise layers err) traceID devMode
    have hrise := errorCode_eq_of_exposed (exposed_rise layers err)
    rw [hrise] at hstatus hcode
    exact ⟨hstatus, hcode⟩
  hidden := fun _ layers layers' traceID h => production_eq h layers layers' traceID
  driver := by
    intro err' layers layers' resource op op' traceID hdriver hexposed hexposed'
    refine production_eq ?_ layers layers' traceID
    rw [exposed_classifyOr, exposed_classifyOr, hdriver, hexposed, hexposed']
  node := by
    intro layers traceID devMode
    obtain ⟨-, -, hnode⟩ := mapErrorToHTTP_spec (rise layers err) traceID devMode
    rw [hnode, asType_rise]

end Noda.Errors
