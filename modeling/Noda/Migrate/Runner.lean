import Noda.Lib.SortBy
import Noda.Lib.Sql
import Noda.Lib.Transition
import Mathlib.Data.String.Basic

/-!
# The migration runner

`Up` and `Down` of `internal/migrate`, called one after the other on a database and a directory to which files are added
at any time, also during a call.  What a script does to the schema is a parameter; a script, a query or a file operation
may fail at any time.

`Up` goes by the versions in the directory, `Down` by the greatest version in the table.  That is the migration applied
last only if none with a greater version was applied before it, and the file found for it is the one applied only if no
file of the same version precedes it.  As long as this is so when `Down` is called, the history is as it should be
(`history_in_order`).
-/

namespace Noda.Migrate

open Transition Sql

/-! ### The directory -/

/-- An entry of the directory. -/
structure File where
  name : String
  isDir : Bool
  content : String
  deriving DecidableEq, Repr

structure Migration where
  version : String
  name : String
  deriving DecidableEq, Repr

def upSuffix : String := ".up.sql"

def Migration.base (m : Migration) : String := m.version ++ "_" ++ m.name

def Migration.upFile (m : Migration) : String := m.base ++ upSuffix

def Migration.downFile (m : Migration) : String := m.base ++ ".down.sql"

/-- `strings.SplitN(base, "_", 2)`, if it has two parts. -/
def splitBase (base : List Char) : Option Migration :=
  match base.dropWhile (· ≠ '_') with
  | [] => none
  | _ :: name => some ⟨String.ofList (base.takeWhile (· ≠ '_')), String.ofList name⟩

/-- The migration of a directory entry. -/
def File.migration (f : File) : Option Migration :=
  let name := f.name.toList
  let suffix := upSuffix.toList
  if f.isDir then none
  else if suffix.isSuffixOf name then splitBase (name.take (name.length - suffix.length))
  else none

/-- The loop of `findMigrations`, with the versions it has seen. -/
def scan : List File → List String → List Migration
  | [], _ => []
  | f :: files, seen =>
    match f.migration with
    | none => scan files seen
    | some m => if m.version ∈ seen then scan files seen else m :: scan files (m.version :: seen)

/-- `findMigrations`; `os.ReadDir` sorts by name.  A directory that does not exist has no files. -/
def findMigrations (dir : List File) : List Migration := sortBy Migration.version (scan (sortBy File.name dir) [])

/-- `os.ReadFile`. -/
def readFile (dir : List File) (name : String) : Option String :=
  (dir.find? fun f => f.name = name ∧ !f.isDir).map (·.content)

/-! ### The database -/

/-- The versions in `schema_migrations`, and the rest of the schema. -/
structure Database (S : Type) where
  rows : List String
  schema : S

/-- The order of the versions in the database. -/
structure Collation where
  le : String → String → Bool
  total : ∀ a b, le a b = true ∨ le b a = true
  trans : ∀ a b c, le a b = true → le b c = true → le a c = true
  antisymm : ∀ a b, le a b = true → le b a = true → a = b

/-- The order by code points. -/
def Collation.binary : Collation where
  le := fun a b => a ≤ b
  total := by simpa using le_total
  trans := by simpa using fun a b c => @le_trans _ _ a b c
  antisymm := by simpa using fun a b => @le_antisymm _ _ a b

/-- `ORDER BY version DESC LIMIT 1`. -/
def Collation.last (c : Collation) : List String → Option String
  | [] => none
  | v :: vs =>
    match c.last vs with
    | none => some v
    | some w => if c.le v w then some w else some v

inductive Error where
  | database
  | readDir
  | read (file : String)
  | apply (base : String)
  | record (version : String)
  | noMigrations
  | notFound (version : String)
  | rollback (base : String)
  | removeRecord (version : String)
  deriving DecidableEq, Repr

variable {S : Type} (exec : String → S → Option S)

/-- `tx.Exec`; `false` is an error. -/
def execScript (sql : String) (db : Database S) : Bool × Database S :=
  match exec sql db.schema with
  | none => (false, db)
  | some schema => (true, { db with schema })

/-- The transaction of `Up`. -/
def applyTx (m : Migration) (sql : String) : Tx (Database S) Error Unit := do
  let ok ← statement (.apply m.base) (execScript exec sql)
  if ok then
    -- the version is the primary key
    let unique ← statement (.record m.version) fun db =>
      if m.version ∈ db.rows then (false, db) else (true, { db with rows := m.version :: db.rows })
    if unique then pure () else throw (.record m.version)
  else throw (.apply m.base)

/-- The transaction of `Down`. -/
def rollbackTx (m : Migration) (sql : String) : Tx (Database S) Error Unit := do
  let ok ← statement (.rollback m.base) (execScript exec sql)
  if ok then statement (.removeRecord m.version) fun db => ((), { db with rows := db.rows.filter (· ≠ m.version) })
  else throw (.rollback m.base)

/-! ### Calls -/

/-- A script that was executed, of a transaction that was committed. -/
inductive Event where
  | up (m : Migration) (sql : String)
  | down (m : Migration) (sql : String)
  deriving DecidableEq, Repr

/-- Where the program is: between calls, or in `Up` or `Down`, before it reads the database or the directory, in the
loop over the migrations, or before the transaction. -/
inductive Pc where
  | idle
  | upStart
  | upScan (applied : List String)
  | upLoop (applied : List String) (files ran : List Migration)
  | downStart
  | downScan (version : String)
  | downRun (target : Migration)
  deriving DecidableEq, Repr

/-- What a call has returned, with the log before and after it, and the directory as `Up` has read it. -/
inductive Return where
  | up (start : List Event) (scanned : List File) (log : List Event) (ran : List Migration) (err : Option Error)
  | down (start log : List Event) (result : Except Error Migration)

/-- The log has the newest event first.  `start` and `scanned` are the log at the start of the call, and the directory
as it was read; they are for the returns. -/
structure State (S : Type) where
  dir : List File
  db : Database S
  pc : Pc
  log : List Event
  start : List Event
  scanned : List File
  returns : List Return

def initial (schema : S) : State S := ⟨[], ⟨[], schema⟩, .idle, [], [], [], []⟩

/-- What the environment decides in a step: whether a query or a file operation fails, and the faults of a
transaction. -/
structure Choice where
  fails : Bool
  faults : Faults
  deriving DecidableEq, Repr

inductive Action where
  | add (f : File)
  | up
  | down
  | step (c : Choice)
  deriving DecidableEq, Repr

def State.upReturn (s : State S) (ran : List Migration) (err : Option Error) : State S :=
  { s with pc := .idle, returns := .up s.start s.scanned s.log ran err :: s.returns }

def State.downReturn (s : State S) (result : Except Error Migration) : State S :=
  { s with pc := .idle, returns := .down s.start s.log result :: s.returns }

/-- The body of the loop of `Up`, for a migration that is not applied. -/
def applyMigration (s : State S) (applied : List String) (m : Migration) (files ran : List Migration) (c : Choice) :
    State S :=
  match if c.fails then none else readFile s.dir m.upFile with
  | none => s.upReturn ran (some (.read m.upFile))
  | some sql =>
    match transaction .database (applyTx exec m sql) c.faults s.db with
    | (.error e, db) => { s with db }.upReturn ran (some e)
    | (.ok _, db) => { s with db, log := .up m sql :: s.log, pc := .upLoop applied files (ran ++ [m]) }

/-- The end of `Down`. -/
def rollbackMigration (s : State S) (m : Migration) (c : Choice) : State S :=
  match if c.fails then none else readFile s.dir m.downFile with
  | none => s.downReturn (.error (.read m.downFile))
  | some sql =>
    match transaction .database (rollbackTx exec m sql) c.faults s.db with
    | (.error e, db) => { s with db }.downReturn (.error e)
    | (.ok _, db) => { s with db, log := .down m sql :: s.log }.downReturn (.ok m)

variable (coll : Collation)

/-- A step of the call in progress. -/
def stepCall (s : State S) (c : Choice) : Option (State S) :=
  match s.pc with
  | .idle => none
  | .upStart => some (if c.fails then s.upReturn [] (some .database) else { s with pc := .upScan s.db.rows })
  | .upScan applied =>
    some (if c.fails then s.upReturn [] (some .readDir)
      else { s with pc := .upLoop applied (findMigrations s.dir) [], scanned := s.dir })
  | .upLoop _ [] ran => some (s.upReturn ran none)
  | .upLoop applied (m :: files) ran =>
    some (if m.version ∈ applied then { s with pc := .upLoop applied files ran }
      else applyMigration exec s applied m files ran c)
  | .downStart =>
    some (if c.fails then s.downReturn (.error .database)
      else
        match coll.last s.db.rows with
        | none => s.downReturn (.error .noMigrations)
        | some version => { s with pc := .downScan version })
  | .downScan version =>
    some (if c.fails then s.downReturn (.error .readDir)
      else
        match (findMigrations s.dir).find? (·.version = version) with
        | none => s.downReturn (.error (.notFound version))
        | some target => { s with pc := .downRun target })
  | .downRun target => some (rollbackMigration exec s target c)

/-- One step of the history: a file is added under a new name, a call begins or goes on. -/
def step (s : State S) : Action → Option (State S)
  | .add f => if s.dir.any (·.name = f.name) then none else some { s with dir := f :: s.dir }
  | .up => if s.pc = .idle then some { s with pc := .upStart, start := s.log, scanned := [] } else none
  | .down => if s.pc = .idle then some { s with pc := .downStart, start := s.log, scanned := [] } else none
  | .step c => stepCall exec coll s c

end Noda.Migrate
