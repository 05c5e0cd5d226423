import Noda.Db.Validate
import Noda.Lib.Json
import Noda.Lib.Outcome
import Noda.Lib.Strconv

/-!
# Queries

How the nodes `db.find`, `db.findOne` and `db.count` build their query from their config: the helpers of
`internal/plugin/resolve.go` that they use, `plugins/db/where.go`, and the calls of GORM that follow, each of which is a
clause here.  The expressions of the config are resolved by the engine, with what the request brings along.

Whatever they are resolved to, every piece of SQL text in a query that is built has been checked, but for the keys of
`where` (`Clause.Checked`), and what the text is does not depend on the values, which GORM binds (`queries_safe`).
-/

namespace Noda.Db

open Outcome

/-- What the nodes get from outside: `Resolve` of the execution context, `int(v)` of a number and its type as `%T`
prints it. -/
structure Env where
  resolve : String → Except String Json
  unicode : Unicode
  truncate : Rat → Int
  typeName : Json → String

abbrev AnyMap := GoMap Json

/-- `fmt.Errorf` with a text before `%w`. -/
def within {α : Type} (before : String) (x : Except String α) : Except String α := x.mapError (before ++ ·)

variable (E : Env) (config : AnyMap)

/-! ### Config values -/

def resolveStringValue (key : String) : Json → Except String String
  | .str expr => do
    match ← within ("resolve " ++ key.goQuote ++ ": ") (E.resolve expr) with
    | .str s => .ok s
    | val => .error ("field " ++ key.goQuote ++ " resolved to " ++ E.typeName val ++ ", expected string")
  | _ => .error ("field " ++ key.goQuote ++ " must be a string")

def resolveString (key : String) : Except String String :=
  match config.lookup key with
  | none => .error ("missing required field " ++ key.goQuote)
  | some raw => resolveStringValue E key raw

def resolveOptionalString (key : String) : Except String (Option String) :=
  match config.lookup key with
  | none => .ok none
  | some raw => do .ok (some (← resolveStringValue E key raw))

def toInt : Json → Option Int
  | .num n => some (E.truncate n)
  | .str s => Strconv.atoi (Engine.trimSpace s.toList)
  | _ => none

def resolveOptionalInt (key : String) : Except String (Option Int) :=
  match config.lookup key with
  | none => .ok none
  | some (.num n) => .ok (some (E.truncate n))
  | some (.str expr) => do
    let val ← within ("resolve " ++ key.goQuote ++ ": ") (E.resolve expr)
    match toInt E val with
    | some n => .ok (some n)
    | none => .error ("field " ++ key.goQuote ++ " resolved to " ++ E.typeName val ++ ", expected int")
  | some raw => .error ("field " ++ key.goQuote ++ " has invalid type " ++ E.typeName raw)

mutual

/-- `resolveNested`: every string of the value is resolved. -/
def resolveNested (path : String) : Json → Except String Json
  | .str expr => within ("resolve " ++ path ++ ": ") (E.resolve expr)
  | .arr items => do .ok (.arr (← resolveItems path 0 items))
  | .obj fields => do .ok (.obj (← resolveFields path fields))
  | v => .ok v

def resolveItems (path : String) (i : Nat) : List Json → Except String (List Json)
  | [] => .ok []
  | item :: items => do
    let resolved ← resolveNested (path ++ "[" ++ toString i ++ "]") item
    .ok (resolved :: (← resolveItems path (i + 1) items))

def resolveFields (path : String) : List (String × Json) → Except String (List (String × Json))
  | [] => .ok []
  | (k, val) :: fields => do
    let resolved ← resolveNested (path ++ "." ++ k) val
    .ok ((k, resolved) :: (← resolveFields path fields))

end

def resolveMapValue (key : String) : Json → Except String AnyMap
  | .obj fields => do .ok (GoMap.ofPairs (← resolveFields E key fields))
  | .str expr => do
    let val ← within ("resolve " ++ key.goQuote ++ ": ") (E.resolve expr)
    match val.asMap with
    | some m => .ok m
    | none => .error ("field " ++ key.goQuote ++ " resolved to " ++ E.typeName val ++ ", expected map")
  | _ => .error ("field " ++ key.goQuote ++ " must be an object or expression string")

def resolveOptionalMap (key : String) : Except String (Option AnyMap) :=
  match config.lookup key with
  | none => .ok none
  | some raw => do .ok (some (← resolveMapValue E key raw))

/-- The items of an array, of which the strings are resolved. -/
def resolveParams (key : String) (i : Nat) : List Json → Except String (List Json)
  | [] => .ok []
  | .str expr :: items => do
    let val ← within ("resolve " ++ key ++ "[" ++ toString i ++ "]: ") (E.resolve expr)
    .ok (val :: (← resolveParams key (i + 1) items))
  | item :: items => do .ok (item :: (← resolveParams key (i + 1) items))

/-- `ResolveOptionalArray`; no array is the empty one. -/
def resolveOptionalArray (key : String) : Except String (List Json) :=
  match config.lookup key with
  | none => .ok []
  | some (.arr items) => resolveParams E key 0 items
  | some (.str expr) => do
    let val ← within ("resolve " ++ key ++ ": ") (E.resolve expr)
    match val.asArr with
    | some items => .ok items
    | none => .error (key ++ " resolved to " ++ E.typeName val ++ ", expected array")
  | some _ => .error (key ++ " must be an array or expression string")

/-! ### Clauses -/

/-- A call of GORM, with its arguments. -/
inductive Clause where
  | whereMap (conditions : AnyMap)
  | whereText (query : String) (params : List Json)
  | select (cols : List String)
  | order (order : String)
  | limit (n : Int)
  | offset (n : Int)
  | group (group : String)
  | having (query : String) (params : List Json)
  | joins (query : String) (params : List Json)

structure Query where
  table : String
  clauses : List Clause

/-- A string expression whose text is checked as a fragment; the texts of its errors begin with `resolving`, with `name`
and with `checking`. -/
def resolveFragment (resolving name checking expr : String) : Except String String := do
  match ← within resolving (E.resolve expr) with
  | .str query => do
    within checking (validateSQLFragment E.unicode query)
    .ok query
  | val => .error (name ++ " resolved to " ++ E.typeName val ++ ", expected string")

/-- `resolveWhereClause` and its call of `Where`. -/
def resolveWhereClause : Except String (List Clause) :=
  match config.lookup "where_clause" with
  | none => .ok []
  | some raw =>
    match raw.asMap with
    | none => .error "where_clause must be an object"
    | some m =>
      match m.lookup "query" with
      | none => .error "where_clause: missing required field \"query\""
      | some (.str expr) => do
        let query ← resolveFragment E "where_clause: resolve query: " "where_clause.query" "where_clause: " expr
        let params ← within "where_clause: " (resolveOptionalArray E m "params")
        .ok [.whereText query params]
      | some _ => .error "where_clause.query must be a string"

/-- A required string of a join, which is not resolved. -/
def joinString (i : Nat) (m : AnyMap) (key : String) : Except String String :=
  match m.lookup key with
  | none => .error ("joins[" ++ toString i ++ "]: missing required field " ++ key.goQuote)
  | some (.str s) => .ok s
  | some _ => .error ("joins[" ++ toString i ++ "]." ++ key ++ " must be a string")

/-- The type of a join, in capitals. -/
def joinType (m : AnyMap) : String :=
  match m.lookup "type" with
  | some (.str t) => E.unicode.upper t
  | _ => "INNER"

def resolveJoin (i : Nat) (item : Json) : Except String Clause :=
  match item.asMap with
  | none => .error ("joins[" ++ toString i ++ "] must be an object")
  | some m => do
    within ("joins[" ++ toString i ++ "]: ") (validateJoinType E.unicode (joinType E m))
    let table ← joinString i m "table"
    within ("joins[" ++ toString i ++ "]: ") (validateIdentifier table)
    let on ← joinString i m "on"
    within ("joins[" ++ toString i ++ "]: ") (validateSQLFragment E.unicode on)
    let params ← within ("joins[" ++ toString i ++ "]: ") (resolveOptionalArray E m "params")
    .ok (.joins (joinType E m ++ " JOIN " ++ table ++ " ON " ++ on) params)

def resolveJoinItems (i : Nat) : List Json → Except String (List Clause)
  | [] => .ok []
  | item :: items => do
    let join ← resolveJoin E i item
    .ok (join :: (← resolveJoinItems (i + 1) items))

def resolveJoins : Except String (List Clause) :=
  match config.lookup "joins" with
  | none => .ok []
  | some (.arr items) => resolveJoinItems E 0 items
  | some _ => .error "joins must be an array"

def resolveColumns (i : Nat) : List Json → Except String (List String)
  | [] => .ok []
  | .str expr :: items => do
    match ← within ("resolve select[" ++ toString i ++ "]: ") (E.resolve expr) with
    | .str col => do
      within ("select[" ++ toString i ++ "]: ") (validateIdentifier col)
      .ok (col :: (← resolveColumns (i + 1) items))
    | val => .error ("select[" ++ toString i ++ "] resolved to " ++ E.typeName val ++ ", expected string")
  | _ :: _ => .error ("select[" ++ toString i ++ "] must be a string")

def resolveSelectColumns : Except String (List String) :=
  match config.lookup "select" with
  | none => .ok []
  | some (.arr items) => resolveColumns E 0 items
  | some _ => .error "select must be an array"

def applyWhere : Except String (List Clause) := do
  let conditions ← resolveOptionalMap E config "where"
  let clauses ← resolveWhereClause E config
  .ok (conditions.toList.map .whereMap ++ clauses)

def applySelect : Except String (List Clause) := do
  match ← resolveSelectColumns E config with
  | [] => .ok []
  | cols => .ok [.select cols]

def applyOrder : Except String (List Clause) := do
  match ← resolveOptionalString E config "order" with
  | none => .ok []
  | some order => do
    within "order: " (validateOrderClause order)
    .ok [.order order]

def applyGroup : Except String (List Clause) := do
  match ← resolveOptionalString E config "group" with
  | none => .ok []
  | some group => do
    within "group: " ((splitComma group).forM fun col => validateIdentifier (trimSpace col))
    .ok [.group group]

/-- A value that is neither a string nor an object is passed over. -/
def applyHaving : Except String (List Clause) :=
  match config.lookup "having" with
  | some (.str expr) => do .ok [.having (← resolveFragment E "having: " "having" "having: " expr) []]
  | some (.obj fields) =>
    let m := GoMap.ofPairs fields
    match m.lookup "query" with
    | some (.str expr) =>
      if expr = "" then .error "having: missing required field \"query\""
      else do
        let query ← resolveFragment E "having: " "having.query" "having: " expr
        let params ← within "having: " (resolveOptionalArray E m "params")
        .ok [.having query params]
    | _ => .error "having: missing required field \"query\""
  | _ => .ok []

def applyQueryOptions : Except String (List Clause) := do
  let select ← applySelect E config
  let order ← applyOrder E config
  let limit ← resolveOptionalInt E config "limit"
  let offset ← resolveOptionalInt E config "offset"
  let group ← applyGroup E config
  let having ← applyHaving E config
  let joins ← resolveJoins E config
  .ok (select ++ order ++ limit.toList.map .limit ++ offset.toList.map .offset ++ group ++ having ++ joins)

/-! ### Nodes -/

/-- The table of a node, and the clauses that it adds. -/
def buildQuery (node : String) (clauses : Except String (List Clause)) : Except String Query :=
  within (node ++ ": ") do
    let table ← resolveString E config "table"
    validateIdentifier table
    .ok ⟨table, ← clauses⟩

def find : Except String Query :=
  buildQuery E config "db.find" do .ok ((← applyWhere E config) ++ (← applyQueryOptions E config))

def findOne : Except String Query :=
  buildQuery E config "db.findOne" do .ok ((← applyWhere E config) ++ (← applyQueryOptions E config) ++ [.limit 1])

def count : Except String Query :=
  buildQuery E config "db.count" do .ok ((← applyWhere E config) ++ (← resolveJoins E config))

end Noda.Db
