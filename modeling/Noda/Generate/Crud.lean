import Noda.Config.Resolved
import Noda.Lib.Writes

/-!
# Generated CRUD

`GenerateCRUD`: the routes, the workflows and the schemas for a model.  An expression of a route or a workflow is what
it reads: `{{ body.x }}` is `Source.body "x"` and `{{ input.x }}` is `Value.input "x"`, for whatever name `x` is.  A map
that is filled by a loop is that of its writes.  The files are named by what they hold and for which workflow; the
schemas of a model are named by their kind.
-/

namespace Noda.Generate.Crud

open Noda.Config

structure CRUDOptions where
  service : String
  basePath : String
  operations : List String
  artifacts : List String
  scopeCol : String
  scopeParam : String

/-- Both the scope column and the scope parameter are given. -/
def CRUDOptions.Scoped (opts : CRUDOptions) : Prop := opts.scopeCol ≠ "" ∧ opts.scopeParam ≠ ""

instance (opts : CRUDOptions) : Decidable opts.Scoped := inferInstanceAs (Decidable (_ ∧ _))

/-! ### Columns -/

structure ColInfo where
  name : String
  type : String
  primaryKey : Bool
  notNull : Bool
  default : String
  enum : List String
  deriving DecidableEq

/-- `m[key].(bool)`, with the zero value. -/
def boolField (m : AnyMap) (key : String) : Bool :=
  match m.lookup key with
  | some (.bool b) => b
  | _ => false

def colInfo (name : String) (m : AnyMap) : ColInfo where
  name := name
  type := (strField m "type").getD ""
  primaryKey := boolField m "primary_key"
  notNull := boolField m "not_null"
  default := (strField m "default").getD ""
  enum := stringsField m "enum"

def parseColumns (model : AnyMap) : List ColInfo :=
  let cols := (mapField model "columns").getD ∅
  (sortStrings cols.keys).filterMap fun name => (mapField cols name).map (colInfo name)

/-- The columns that the database or the application fills. -/
def ColInfo.isTimestamp (col : ColInfo) : Bool :=
  col.name = "created_at" || col.name = "updated_at" || col.name = "deleted_at"

/-- The columns that neither a route nor an update takes from the body. -/
def ColInfo.skipped (scopeCol : String) (col : ColInfo) : Bool :=
  col.primaryKey || col.isTimestamp || col.name = scopeCol

/-! ### Names -/

inductive Op where
  | create
  | list
  | get
  | update
  | delete
  deriving DecidableEq, Repr

/-- The cases of the `switch`. -/
def Op.ofName : String → Option Op
  | "create" => some .create
  | "list" => some .list
  | "get" => some .get
  | "update" => some .update
  | "delete" => some .delete
  | _ => none

def hasSuffix (s suffix : String) : Bool := suffix.toList.isSuffixOf s.toList

/-- `s[:len(s)-n]`. -/
def cutLast (s : String) (n : Nat) : String := String.ofList (s.toList.take (s.toList.length - n))

def singularize (s : String) : String :=
  if hasSuffix s "ies" then cutLast s 3 ++ "y"
  else if hasSuffix s "zzes" then cutLast s 3
  else if hasSuffix s "ches" || hasSuffix s "shes" then cutLast s 2
  else if hasSuffix s "ses" || hasSuffix s "xes" || hasSuffix s "zes" then cutLast s 2
  else if hasSuffix s "us" || hasSuffix s "ss" then s
  else if hasSuffix s "s" then cutLast s 1
  else s

/-- The name of the workflow of an operation. -/
def wfName (table : String) : Op → String
  | .create => "create-" ++ singularize table
  | .list => "list-" ++ table
  | .get => "get-" ++ singularize table
  | .update => "update-" ++ singularize table
  | .delete => "delete-" ++ singularize table

/-! ### Schemas -/

structure Property where
  type : String
  enum : List String
  deriving DecidableEq

/-- The schemas for the bodies; those for the id and for the paging are the same for every model. -/
structure ModelSchemas where
  createProps : GoMap Property
  createRequired : List String
  updateProps : GoMap Property

def jsonSchemaType (colType : String) : String :=
  if colType ∈ ["integer", "int", "bigint", "serial"] then "integer"
  else if colType = "decimal" then "number"
  else if colType ∈ ["boolean", "bool"] then "boolean"
  else "string"

def generateModelSchemas (columns : List ColInfo) (scopeCol : String) : ModelSchemas :=
  let cols := columns.filter fun col =>
    ¬(col.primaryKey || col.isTimestamp || (scopeCol ≠ "" && col.name = scopeCol))
  let props := GoMap.ofWrites (cols.map fun col => (col.name, ⟨jsonSchemaType col.type, col.enum⟩))
  { createProps := props
    createRequired := (cols.filter fun col => col.notNull && col.default = "").map ColInfo.name
    updateProps := props }

/-- Which of the schemas of the model a route refers to. -/
inductive SchemaName where
  | create
  | update
  | idParams
  | listQuery
  deriving DecidableEq, Repr

/-! ### Routes -/

/-- What an input of a trigger is: `params.x`, `body.x`, or `query.x` with a default. -/
inductive Source where
  | param (name : String)
  | body (name : String)
  | query (name default : String)
  deriving DecidableEq, Repr

structure Route where
  method : String
  path : String
  workflow : String
  input : GoMap Source
  query : Option SchemaName := none
  params : Option SchemaName := none
  body : Option SchemaName := none
  summary : String

variable (table : String) (columns : List ColInfo) (opts : CRUDOptions)

/-- `m[key] = v`, if there is a scope. -/
def scopeWrite {α : Type} (key : String) (v : α) : List (String × α) := if opts.Scoped then [(key, v)] else []

def scopeInput : List (String × Source) := scopeWrite opts opts.scopeParam (.param opts.scopeParam)

def bodyInput : List (String × Source) :=
  (columns.filter fun col => ¬col.skipped opts.scopeCol).map fun col => (col.name, .body col.name)

def idInput : List (String × Source) := [("id", .param "id")]

def createRoute : Route where
  method := "POST"
  path := opts.basePath
  workflow := wfName table .create
  input := GoMap.ofWrites (bodyInput columns opts ++ scopeInput opts)
  body := some .create
  summary := "Create a new " ++ singularize table

def listRoute : Route where
  method := "GET"
  path := opts.basePath
  workflow := wfName table .list
  input := GoMap.ofWrites ([("limit", .query "limit" "20"), ("offset", .query "offset" "0")] ++ scopeInput opts)
  query := some .listQuery
  summary := "List " ++ table

def getRoute : Route where
  method := "GET"
  path := opts.basePath ++ "/:id"
  workflow := wfName table .get
  input := GoMap.ofWrites (idInput ++ scopeInput opts)
  params := some .idParams
  summary := "Get a " ++ singularize table ++ " by ID"

def updateRoute : Route where
  method := "PUT"
  path := opts.basePath ++ "/:id"
  workflow := wfName table .update
  input := GoMap.ofWrites (idInput ++ bodyInput columns opts ++ scopeInput opts)
  params := some .idParams
  body := some .update
  summary := "Update a " ++ singularize table

def deleteRoute : Route where
  method := "DELETE"
  path := opts.basePath ++ "/:id"
  workflow := wfName table .delete
  input := GoMap.ofWrites (idInput ++ scopeInput opts)
  params := some .idParams
  summary := "Delete a " ++ singularize table

def route : Op → Route
  | .create => createRoute table columns opts
  | .list => listRoute table opts
  | .get => getRoute table opts
  | .update => updateRoute table columns opts
  | .delete => deleteRoute table opts

/-! ### Workflows -/

/-- What a field of a node is: `input.x`, `input.x` with a default, or the id that was generated. -/
inductive Value where
  | input (name : String)
  | inputOr (name : String) (otherwise : Nat)
  | generatedId
  deriving DecidableEq, Repr

/-- A node that works on the database.  An absent map is empty. -/
structure DbNode where
  type : String
  table : String
  service : String
  data : GoMap Value := ∅
  conditions : GoMap Value := ∅
  paging : GoMap Value := ∅
  required : Bool := false

inductive Node where
  /-- `gen_id` -/
  | setId
  | db (node : DbNode)
  | respond (status : Option Nat) (body : List (String × String))
  | error (status : Nat) (code message : String)

structure Edge where
  source : String
  target : String
  output : String
  deriving DecidableEq, Repr

structure Workflow where
  id : String
  nodes : List (String × Node)
  edges : List Edge

/-- There is a primary key of type `uuid`. -/
def hasUUIDPK : Bool := columns.any fun col => col.primaryKey && col.type = "uuid"

/-- What a column writes into the data of a new row. -/
def createWrite (col : ColInfo) : Option (String × Value) :=
  if col.primaryKey && hasUUIDPK columns then some ("id", .generatedId)
  else if col.primaryKey then none
  else if col.isTimestamp then none
  else some (col.name, .input col.name)

def scopeField : List (String × Value) := scopeWrite opts opts.scopeCol (.input opts.scopeParam)

def createData : GoMap Value := GoMap.ofWrites (columns.filterMap (createWrite columns) ++ scopeField opts)

def updateData : GoMap Value :=
  GoMap.ofWrites ((columns.filter fun col => ¬col.skipped opts.scopeCol).map fun col => (col.name, .input col.name))

/-- The `where` map of a list. -/
def listWhere : GoMap Value := GoMap.ofWrites (scopeField opts)

/-- The `where` map of a row. -/
def rowWhere : GoMap Value := GoMap.ofWrites ([("id", .input "id")] ++ scopeField opts)

def createNode : DbNode where
  type := "db.create"
  table := table
  service := opts.service
  data := createData columns opts

def conflictNode : Node := .error 409 "CONFLICT" (singularize table ++ " already exists")

def generateCreateWorkflow : Workflow where
  id := wfName table .create
  nodes := (if hasUUIDPK columns then [("gen_id", .setId)] else []) ++
    [("create", .db (createNode table columns opts)), ("respond", .respond (some 201) [("", "nodes.create")]),
      ("conflict", conflictNode table)]
  edges := (if hasUUIDPK columns then [⟨"gen_id", "create", "success"⟩] else []) ++
    [⟨"create", "respond", "success"⟩, ⟨"create", "conflict", "exists"⟩]

def findNode : DbNode where
  type := "db.find"
  table := table
  service := opts.service
  conditions := listWhere opts
  paging := GoMap.ofPairs [("limit", .inputOr "limit" 20), ("offset", .inputOr "offset" 0)]

def countNode : DbNode where
  type := "db.count"
  table := table
  service := opts.service
  conditions := listWhere opts

def generateListWorkflow : Workflow where
  id := wfName table .list
  nodes := [("find", .db (findNode table opts)), ("count", .db (countNode table opts)),
    ("respond", .respond none [("data", "nodes.find"), ("total", "nodes.count.count")])]
  edges := [⟨"find", "respond", "success"⟩, ⟨"count", "respond", "success"⟩]

def findOneNode : DbNode where
  type := "db.findOne"
  table := table
  service := opts.service
  conditions := rowWhere opts
  required := true

def generateGetWorkflow : Workflow where
  id := wfName table .get
  nodes := [("find_one", .db (findOneNode table opts)), ("respond", .respond none [("", "nodes.find_one")])]
  edges := [⟨"find_one", "respond", "success"⟩]

def updateNode : DbNode where
  type := "db.update"
  table := table
  service := opts.service
  data := updateData columns opts
  conditions := rowWhere opts

def generateUpdateWorkflow : Workflow where
  id := wfName table .update
  nodes := [("find_one", .db (findOneNode table opts)), ("update", .db (updateNode table columns opts)),
    ("respond", .respond none [("", "nodes.update")]), ("conflict", conflictNode table)]
  edges := [⟨"find_one", "update", "success"⟩, ⟨"update", "respond", "success"⟩, ⟨"update", "conflict", "exists"⟩]

def deleteNode : DbNode where
  type := "db.delete"
  table := table
  service := opts.service
  conditions := rowWhere opts

def generateDeleteWorkflow : Workflow where
  id := wfName table .delete
  nodes := [("delete", .db (deleteNode table opts)), ("respond", .respond (some 204) [])]
  edges := [⟨"delete", "respond", "success"⟩]

def workflow : Op → Workflow
  | .create => generateCreateWorkflow table columns opts
  | .list => generateListWorkflow table opts
  | .get => generateGetWorkflow table opts
  | .update => generateUpdateWorkflow table columns opts
  | .delete => generateDeleteWorkflow table opts

/-! ### Files -/

inductive FileName where
  | schemas
  | route (wfName : String)
  | workflow (wfName : String)
  deriving DecidableEq, Repr

inductive File where
  | schemas (s : ModelSchemas)
  | route (r : Route)
  | workflow (w : Workflow)

/-- `CRUDResult.Files`. -/
abbrev Files := FileName → Option File

def Files.write (files : Files) (name : FileName) (file : File) : Files :=
  fun other => if other = name then some file else files other

def CRUDOptions.withDefaults (opts : CRUDOptions) (table : String) : CRUDOptions where
  service := if opts.service = "" then "db" else opts.service
  basePath := if opts.basePath = "" then "/api/" ++ table else opts.basePath
  operations := if opts.operations = [] then ["create", "list", "get", "update", "delete"] else opts.operations
  artifacts := if opts.artifacts = [] then ["routes", "workflows", "schemas"] else opts.artifacts
  scopeCol := opts.scopeCol
  scopeParam := opts.scopeParam

/-- A round of the loop over the operations. -/
def writeOp (files : Files) (op : Op) : Files :=
  let files := if "routes" ∈ opts.artifacts then
    files.write (.route (wfName table op)) (.route (route table columns opts op)) else files
  if "workflows" ∈ opts.artifacts then
    files.write (.workflow (wfName table op)) (.workflow (workflow table columns opts op)) else files

/-- `GenerateCRUD` for a table, with the options as they are after the defaults. -/
def generateFiles : Files :=
  let files : Files := if "schemas" ∈ opts.artifacts then
    Files.write (fun _ => none) .schemas (.schemas (generateModelSchemas columns opts.scopeCol)) else fun _ => none
  (opts.operations.filterMap Op.ofName).foldl (writeOp table columns opts) files

def tableOf (model : AnyMap) : String := (strField model "table").getD ""

def generateCRUD (model : AnyMap) (opts : CRUDOptions) : Files :=
  if tableOf model = "" then fun _ => none
  else generateFiles (tableOf model) (parseColumns model) (opts.withDefaults (tableOf model))

end Noda.Generate.Crud
