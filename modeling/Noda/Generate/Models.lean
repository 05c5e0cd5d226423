import Noda.Lib.Ddl
import Noda.Lib.GoMap

/-!
# Migrations from models

`internal/generate/migration.go` for PostgreSQL: the differences between two sets of models (`diffModels`).
`strings.ToUpper` is a parameter.
-/

namespace Noda.Generate

open Ddl

/-! ### Models -/

structure ColumnDef where
  type : String
  primaryKey : Bool
  notNull : Bool
  default : String
  enum : List String
  maxLength : Int
  precision : Int
  scale : Int
  deriving DecidableEq, Repr

structure RelDef where
  type : String
  table : String
  foreignKey : String
  onDelete : String
  junction : String
  localKey : String
  deriving DecidableEq, Repr

structure IndexDef where
  columns : List String
  unique : Bool
  deriving DecidableEq, Repr

structure ModelDef where
  table : String
  columns : GoMap ColumnDef
  relations : GoMap RelDef
  indexes : List IndexDef
  timestamps : Bool
  softDelete : Bool
  deriving DecidableEq

/-- What `loadModels` yields: a map from tables to models that knows each model by its table. -/
structure Models where
  map : GoMap ModelDef
  table_eq : ∀ t m, map.lookup t = some m → m.table = t

/-! ### Tables -/

variable (upper : String → String)

def postgresType (col : ColumnDef) : String :=
  match col.type with
  | "uuid" => "UUID"
  | "text" => "TEXT"
  | "varchar" => if col.maxLength > 0 then "VARCHAR(" ++ toString col.maxLength ++ ")" else "VARCHAR(255)"
  | "integer" | "int" => "INTEGER"
  | "bigint" => "BIGINT"
  | "boolean" | "bool" => "BOOLEAN"
  | "decimal" =>
    let p := if col.precision = 0 then 10 else col.precision
    let s := if col.scale = 0 then 2 else col.scale
    "NUMERIC(" ++ toString p ++ "," ++ toString s ++ ")"
  | "timestamp" => "TIMESTAMPTZ"
  | "json" | "jsonb" => "JSONB"
  | "serial" => "SERIAL"
  | other => upper other

/-- A column of `CREATE TABLE`. -/
def createdColumn (col : ColumnDef) : Column :=
  ⟨postgresType upper col, col.notNull || col.primaryKey, col.default, col.primaryKey⟩

/-- A column of `ADD COLUMN`, which says nothing of the primary key. -/
def addedColumn (col : ColumnDef) : Column := ⟨postgresType upper col, col.notNull, col.default, false⟩

def timestampColumn : ColumnDef := ⟨"timestamp", false, true, "NOW()", [], 0, 0, 0⟩

def deletedColumn : ColumnDef := ⟨"timestamp", false, false, "", [], 0, 0, 0⟩

/-- The columns that `timestamps` and `soft_delete` stand for. -/
def impliedColumns (m : ModelDef) : List (String × ColumnDef) :=
  (if m.timestamps then [("created_at", timestampColumn), ("updated_at", timestampColumn)] else []) ++
    if m.softDelete then [("deleted_at", deletedColumn)] else []

def sortedEntries {α : Type} (m : GoMap α) : List (String × α) :=
  (sortStrings m.keys).filterMap fun k => (m.lookup k).map (k, ·)

def tableColumns (m : ModelDef) : List (String × Column) :=
  (sortedEntries m.columns ++ impliedColumns m).map fun e => (e.1, createdColumn upper e.2)

def indexName (table : String) (columns : List String) : String :=
  "idx_" ++ table ++ "_" ++ "_".intercalate columns

def fkName (table relName : String) : String := "fk_" ++ table ++ "_" ++ relName

def IndexDef.index (table : String) (idx : IndexDef) : Index := ⟨table, idx.columns, idx.unique⟩

def RelDef.constraint (rel : RelDef) : ForeignKey := ⟨rel.foreignKey, rel.table, "id", rel.onDelete⟩

def tableIndexes (m : ModelDef) : List (String × Index) :=
  m.indexes.map fun idx => (indexName m.table idx.columns, idx.index m.table)

def tableForeignKeys (m : ModelDef) : List (String × ForeignKey) :=
  ((sortedEntries m.relations).filter (·.2.type = "belongsTo")).map fun r => (fkName m.table r.1, r.2.constraint)

/-- A junction table, with the names that PostgreSQL gives to inline constraints. -/
structure Junction where
  name : String
  columns : List (String × Column)
  foreignKeys : List (String × ForeignKey)
  deriving DecidableEq, Repr

def RelDef.junctionTable (rel : RelDef) (table : String) : Junction where
  name := rel.junction
  columns := [(rel.localKey, ⟨"UUID", true, "", true⟩), (rel.foreignKey, ⟨"UUID", true, "", true⟩)]
  foreignKeys :=
    [(rel.junction ++ "_" ++ rel.localKey ++ "_fkey", ⟨rel.localKey, table, "id", "CASCADE"⟩),
      (rel.junction ++ "_" ++ rel.foreignKey ++ "_fkey", ⟨rel.foreignKey, rel.table, "id", "CASCADE"⟩)]

/-- The junction tables of a model. -/
def junctions (m : ModelDef) : List Junction :=
  ((sortedEntries m.relations).filter fun r => r.2.type = "manyToMany" ∧ r.2.junction ≠ "").map
    fun r => r.2.junctionTable m.table

/-- `createTableSQL`. -/
def createTableSQL (m : ModelDef) : List Stmt × Stmt :=
  (.createTable m.table (tableColumns upper m) ::
    ((tableIndexes m).map (fun i => .createIndex i.1 i.2) ++
      (tableForeignKeys m).map (fun k => .addForeignKey m.table k.1 k.2) ++
      (junctions m).map fun j => .createTableIfNotExists j.name j.columns j.foreignKeys),
    .dropTable m.table)

/-! ### Differences -/

inductive Change where
  | createTable (table : String) (model : ModelDef)
  | dropTable (table : String) (model : ModelDef)
  | addColumn (table column : String) (new : ColumnDef)
  | dropColumn (table column : String) (old : Option ColumnDef)
  | alterColumn (table column : String) (old new : ColumnDef)
  | addIndex (table : String) (index : IndexDef)
  | dropIndex (table : String) (index : IndexDef)
  | addFK (table relName : String) (rel : RelDef)
  | dropFK (table relName : String) (rel : RelDef)

def columnChanged (old new : ColumnDef) : Bool :=
  old.type ≠ new.type || old.notNull ≠ new.notNull || old.default ≠ new.default || old.primaryKey ≠ new.primaryKey ||
    old.maxLength ≠ new.maxLength || old.precision ≠ new.precision || old.scale ≠ new.scale || old.enum ≠ new.enum

/-- The key of an index in `indexSet`. -/
def IndexDef.key (idx : IndexDef) : String := ",".intercalate idx.columns ++ if idx.unique then ":unique" else ""

def indexSet (indexes : List IndexDef) : GoMap IndexDef := indexes.foldl (fun set idx => set.insert idx.key idx) ∅

def alterColumns (t : String) (old new : ModelDef) : List Change :=
  new.columns.toPairs.filterMap fun c => (old.columns.lookup c.1).bind fun o =>
    if columnChanged o c.2 then some (.alterColumn t c.1 o c.2) else none

/-- The changes of the columns of a table. -/
def diffColumns (t : String) (old new : ModelDef) : List Change :=
  (new.columns.toPairs.filter fun c => c.1 ∉ old.columns).map (fun c => .addColumn t c.1 c.2) ++
  (old.columns.toPairs.filter fun c => c.1 ∉ new.columns).map (fun c => .dropColumn t c.1 (some c.2)) ++
  alterColumns t old new

/-- The changes of the columns that `timestamps` and `soft_delete` stand for. -/
def diffImplied (t : String) (old new : ModelDef) : List Change :=
  (if new.timestamps ∧ !old.timestamps then
    [.addColumn t "created_at" timestampColumn, .addColumn t "updated_at" timestampColumn] else []) ++
  (if !new.timestamps ∧ old.timestamps then
    [.dropColumn t "created_at" none, .dropColumn t "updated_at" none] else []) ++
  (if new.softDelete ∧ !old.softDelete then [.addColumn t "deleted_at" deletedColumn] else []) ++
  if !new.softDelete ∧ old.softDelete then [.dropColumn t "deleted_at" none] else []

def diffIndexes (t : String) (old new : ModelDef) : List Change :=
  ((indexSet new.indexes).toPairs.filter fun i => i.1 ∉ indexSet old.indexes).map (fun i => .addIndex t i.2) ++
  ((indexSet old.indexes).toPairs.filter fun i => i.1 ∉ indexSet new.indexes).map fun i => .dropIndex t i.2

/-- The old relation of that name is the same foreign key. -/
def sameFK (old : Option RelDef) (rel : RelDef) : Bool :=
  old.any fun o => o.type = "belongsTo" ∧ o.table = rel.table ∧ o.foreignKey = rel.foreignKey ∧
    o.onDelete = rel.onDelete

def diffRelations (t : String) (old new : ModelDef) : List Change :=
  (new.relations.toPairs.filter fun r => r.2.type = "belongsTo" ∧ !sameFK (old.relations.lookup r.1) r.2).map
    (fun r => .addFK t r.1 r.2) ++
  (old.relations.toPairs.filter fun r => r.2.type = "belongsTo" ∧ r.1 ∉ new.relations).map fun r => .dropFK t r.1 r.2

/-- The changes of a table that is in both sets. -/
def diffTable (t : String) (old new : ModelDef) : List Change :=
  diffColumns t old new ++ diffImplied t old new ++ diffIndexes t old new ++ diffRelations t old new

def diffModels (old new : Models) : List Change :=
  (new.map.toPairs.filter fun e => e.1 ∉ old.map).map (fun e => .createTable e.1 e.2) ++
  (old.map.toPairs.filter fun e => e.1 ∉ new.map).map (fun e => .dropTable e.1 e.2) ++
  new.map.toPairs.flatMap fun e =>
    match old.map.lookup e.1 with
    | none => []
    | some oldModel => diffTable e.1 oldModel e.2

end Noda.Generate
