import Mathlib.Data.List.Induction
import Mathlib.Data.List.Nodup
import Mathlib.Logic.Function.Basic

/-!
# Data definition

The schema of a relational database, and what the statements that change it do.  A statement is executed if its guard
holds: what it refers to exists, and what it creates has a new name.  Tables and indexes share one space of names.

`Runs` is the execution of a script.  Statements that each set one entry of one map, and that do not depend on each
other's entries, can be executed in any order, and yield the map in which all of them are set (`runs_updates`).

What is dropped takes with it all that involves it.  Removals add up (`remove_remove`), so they can be made in any
order.
-/

namespace Ddl

structure Column where
  type : String
  notNull : Bool
  default : String
  primaryKey : Bool
  deriving DecidableEq, Repr

def Column.demote (col : Column) : Column := { col with primaryKey := false }

structure Index where
  table : String
  columns : List String
  unique : Bool
  deriving DecidableEq, Repr

structure ForeignKey where
  column : String
  refTable : String
  refColumn : String
  onDelete : String
  deriving DecidableEq, Repr

/-- Columns and foreign keys are named within their table. -/
@[ext] structure Schema where
  tables : String → Bool
  columns : String × String → Option Column
  indexes : String → Option Index
  foreignKeys : String × String → Option ForeignKey

inductive Alteration where
  | setType (type : String)
  | setNotNull
  | dropNotNull
  | setDefault (value : String)
  | dropDefault
  deriving DecidableEq, Repr

def Alteration.apply (col : Column) : Alteration → Column
  | .setType type => { col with type }
  | .setNotNull => { col with notNull := true }
  | .dropNotNull => { col with notNull := false }
  | .setDefault value => { col with default := value }
  | .dropDefault => { col with default := "" }

/-- Tables are dropped with `IF EXISTS … CASCADE`, indexes and constraints with `IF EXISTS`. -/
inductive Stmt where
  | createTable (t : String) (cols : List (String × Column))
  | createTableIfNotExists (t : String) (cols : List (String × Column)) (fks : List (String × ForeignKey))
  | dropTable (t : String)
  | addColumn (t c : String) (col : Column)
  | dropColumn (t c : String)
  | alterColumn (t c : String) (a : Alteration)
  | createIndex (n : String) (idx : Index)
  | dropIndex (n : String)
  | addForeignKey (t n : String) (fk : ForeignKey)
  | dropConstraint (t n : String)
  deriving DecidableEq, Repr

/-- Objects of a schema. -/
structure Removal where
  tables : List String := []
  columns : List (String × String) := []
  indexes : List String := []
  foreignKeys : List (String × String) := []

instance : Append Removal :=
  ⟨fun R R' => ⟨R.tables ++ R'.tables, R.columns ++ R'.columns, R.indexes ++ R'.indexes,
    R.foreignKeys ++ R'.foreignKeys⟩⟩

namespace Schema

/-- The name is that of a table or an index. -/
def taken (S : Schema) (n : String) : Bool := S.tables n || (S.indexes n).isSome

def isKey (S : Schema) (k : String × String) : Bool := (S.columns k).any (·.primaryKey)

/-- The primary key of the table loses a column. -/
def losesKey (S : Schema) (R : Removal) (t : String) : Bool := R.columns.any fun d => decide (d.1 = t) && S.isKey d

/-- The objects are removed, and with them the columns, indexes and foreign keys that involve them.  What is left of a
primary key is no primary key. -/
def remove (S : Schema) (R : Removal) : Schema where
  tables := fun t => S.tables t && t ∉ R.tables
  columns := fun k =>
    if k.1 ∈ R.tables ∨ k ∈ R.columns then none
    else if S.losesKey R k.1 then (S.columns k).map Column.demote
    else S.columns k
  indexes := fun n => (S.indexes n).filter fun idx =>
    n ∉ R.indexes ∧ idx.table ∉ R.tables ∧ ∀ c ∈ idx.columns, (idx.table, c) ∉ R.columns
  foreignKeys := fun k => (S.foreignKeys k).filter fun fk =>
    k ∉ R.foreignKeys ∧ k.1 ∉ R.tables ∧ fk.refTable ∉ R.tables ∧ (k.1, fk.column) ∉ R.columns ∧
      (fk.refTable, fk.refColumn) ∉ R.columns

end Schema

/-- What is involved in a column, an index or a foreign key exists. -/
structure Schema.Closed (S : Schema) : Prop where
  columns : ∀ k, S.columns k ≠ none → S.tables k.1 = true
  indexes : ∀ n idx, S.indexes n = some idx →
    S.tables idx.table = true ∧ ∀ c ∈ idx.columns, S.columns (idx.table, c) ≠ none
  foreignKeys : ∀ k fk, S.foreignKeys k = some fk →
    S.columns (k.1, fk.column) ≠ none ∧ S.columns (fk.refTable, fk.refColumn) ≠ none

/-- What a statement needs. -/
def Stmt.Guard (S : Schema) : Stmt → Prop
  | .createTable t cols => S.taken t = false ∧ (cols.map Prod.fst).Nodup
  | .createTableIfNotExists t cols fks => S.taken t = true ∨ (cols.map Prod.fst).Nodup ∧ ∀ fk ∈ fks,
      fk.2.column ∈ cols.map Prod.fst ∧ S.columns (fk.2.refTable, fk.2.refColumn) ≠ none
  | .dropTable _ => True
  | .addColumn t c _ => S.tables t = true ∧ S.columns (t, c) = none
  | .dropColumn t c => S.columns (t, c) ≠ none ∧
      ∀ k fk, S.foreignKeys k = some fk → fk.refTable = t → fk.refColumn = c → k.1 = t
  | .alterColumn t c a => S.columns (t, c) ≠ none ∧ (a = .dropNotNull → S.isKey (t, c) = false)
  | .createIndex n idx => S.taken n = false ∧ S.tables idx.table = true ∧ idx.columns ≠ [] ∧
      ∀ c ∈ idx.columns, S.columns (idx.table, c) ≠ none
  | .dropIndex _ => True
  | .addForeignKey t n fk => S.foreignKeys (t, n) = none ∧ S.columns (t, fk.column) ≠ none ∧
      S.columns (fk.refTable, fk.refColumn) ≠ none
  | .dropConstraint t _ => S.tables t = true

def Stmt.apply (S : Schema) : Stmt → Schema
  | .createTable t cols => { S with
      tables := Function.update S.tables t true
      columns := fun k => if k.1 = t then cols.lookup k.2 else S.columns k }
  | .createTableIfNotExists t cols fks =>
    if S.taken t then S
    else { S with
      tables := Function.update S.tables t true
      columns := fun k => if k.1 = t then cols.lookup k.2 else S.columns k
      foreignKeys := fun k => if k.1 = t then fks.lookup k.2 else S.foreignKeys k }
  | .dropTable t => S.remove { tables := [t] }
  | .addColumn t c col => { S with columns := Function.update S.columns (t, c) (some col) }
  | .dropColumn t c => S.remove { columns := [(t, c)] }
  | .alterColumn t c a => { S with columns := Function.update S.columns (t, c) ((S.columns (t, c)).map a.apply) }
  | .createIndex n idx => { S with indexes := Function.update S.indexes n (some idx) }
  | .dropIndex n => S.remove { indexes := [n] }
  | .addForeignKey t n fk => { S with foreignKeys := Function.update S.foreignKeys (t, n) (some fk) }
  | .dropConstraint t n => S.remove { foreignKeys := [(t, n)] }

/-- What a statement removes. -/
def Stmt.removal : Stmt → Removal
  | .dropTable t => { tables := [t] }
  | .dropColumn t c => { columns := [(t, c)] }
  | .dropIndex n => { indexes := [n] }
  | .dropConstraint t n => { foreignKeys := [(t, n)] }
  | _ => {}

def removal (script : List Stmt) : Removal where
  tables := script.flatMap (·.removal.tables)
  columns := script.flatMap (·.removal.columns)
  indexes := script.flatMap (·.removal.indexes)
  foreignKeys := script.flatMap (·.removal.foreignKeys)

/-- The script leads from the first schema to the second one. -/
def Runs : Schema → List Stmt → Schema → Prop
  | S, [], S' => S' = S
  | S, st :: script, S' => st.Guard S ∧ Runs (st.apply S) script S'

/-! ### Scripts -/

variable {S S' T : Schema} {script script' : List Stmt}

theorem runs_append : Runs S (script ++ script') S' ↔ ∃ T, Runs S script T ∧ Runs T script' S' := by
  induction script generalizing S with
  | nil => simp [Runs]
  | cons st script ih =>
    simp only [List.cons_append, Runs, ih]
    constructor
    · rintro ⟨hg, T, hs, hs'⟩
      exact ⟨T, ⟨hg, hs⟩, hs'⟩
    · rintro ⟨T, ⟨hg, hs⟩, hs'⟩
      exact ⟨hg, T, hs, hs'⟩

theorem Runs.append (h : Runs S script T) (h' : Runs T script' S') : Runs S (script ++ script') S' :=
  runs_append.2 ⟨T, h, h'⟩

theorem runs_parts {β : Type} (state : List β → Schema) (part : β → List Stmt) {L : List β}
    (h : ∀ before e after, L = before ++ e :: after → Runs (state before) (part e) (state (before ++ [e]))) :
    Runs (state []) (L.flatMap part) (state L) := by
  induction L using List.reverseRecOn with
  | nil => rfl
  | append_singleton L e ih =>
    have hinit := ih fun before e' after hL => h before e' (after ++ [e]) (by simp [hL])
    rw [List.flatMap_append, List.flatMap_singleton]
    exact hinit.append (h L e [] rfl)

theorem runs_alterations {g : String × String → Option Column} {t c : String} {col : Column} {as : List Alteration}
    (hcol : g (t, c) = some col) (hkey : .dropNotNull ∈ as → col.primaryKey = false) :
    Runs { S with columns := g } (as.map (.alterColumn t c))
      { S with columns := Function.update g (t, c) (some (as.foldl Alteration.apply col)) } := by
  induction as generalizing g col with
  | nil =>
    rw [List.foldl_nil, ← hcol, Function.update_eq_self]
    rfl
  | cons a as ih =>
    have hsame : (a.apply col).primaryKey = col.primaryKey := by
      cases a with
      | _ => rfl
    refine ⟨⟨by simp [hcol], ?_⟩, ?_⟩
    · rintro rfl
      simpa [Schema.isKey, hcol] using hkey List.mem_cons_self
    · have hrest := ih (Function.update_self (t, c) (some (a.apply col)) g) fun ha => by
        rw [hsame]
        exact hkey (List.mem_cons_of_mem _ ha)
      rw [Function.update_idem] at hrest
      simp only [Stmt.apply, hcol, Option.map_some]
      exact hrest

theorem Schema.Closed.columns_none {k : String × String} (hS : S.Closed) (ht : S.tables k.1 = false) :
    S.columns k = none := by
  by_contra hcol
  exact Bool.false_ne_true (ht.symm.trans (hS.columns k hcol))

theorem Schema.Closed.foreignKeys_none {k : String × String} (hS : S.Closed) (ht : S.tables k.1 = false) :
    S.foreignKeys k = none := by
  cases hfk : S.foreignKeys k with
  | none => rfl
  | some fk => exact absurd (hS.columns_none (k := (k.1, fk.column)) ht) (hS.foreignKeys k fk hfk).1

/-- Statements, in groups, that each set the entry of one key of a map, whatever the entries of the other keys are. -/
theorem runs_updates {β κ V : Type} [DecidableEq κ] (set : (κ → V) → Schema) {stmts : β → List Stmt} (key : β → κ)
    (val : β → V) {L : List β} {f f' : κ → V} (hnodup : (L.map key).Nodup)
    (hrun : ∀ e ∈ L, ∀ g : κ → V, g (key e) = f (key e) →
      Runs (set g) (stmts e) (set (Function.update g (key e) (val e))))
    (hset : ∀ e ∈ L, f' (key e) = val e) (hkeep : ∀ k, k ∉ L.map key → f' k = f k) :
    Runs (set f) (L.flatMap stmts) (set f') := by
  induction L generalizing f with
  | nil =>
    obtain rfl : f' = f := funext fun k => hkeep k List.not_mem_nil
    rfl
  | cons e L ih =>
    rw [List.map_cons, List.nodup_cons] at hnodup
    rw [List.flatMap_cons]
    refine (hrun e List.mem_cons_self f rfl).append (ih hnodup.2 (fun e' he' g hg => ?_) ?_ ?_)
    · refine hrun e' (List.mem_cons_of_mem _ he') g (hg.trans (Function.update_of_ne ?_ _ _))
      intro hk
      exact hnodup.1 (hk ▸ List.mem_map_of_mem he')
    · exact fun e' he' => hset e' (List.mem_cons_of_mem _ he')
    · intro k hk
      by_cases hke : k = key e
      · subst hke
        rw [Function.update_self]
        exact hset e List.mem_cons_self
      · rw [Function.update_of_ne hke]
        exact hkeep k (by simp [hke, hk])

/-! ### Removals -/

namespace Removal

variable (R R' : Removal)

@[simp] theorem tables_append : (R ++ R').tables = R.tables ++ R'.tables := rfl

@[simp] theorem columns_append : (R ++ R').columns = R.columns ++ R'.columns := rfl

@[simp] theorem indexes_append : (R ++ R').indexes = R.indexes ++ R'.indexes := rfl

@[simp] theorem foreignKeys_append : (R ++ R').foreignKeys = R.foreignKeys ++ R'.foreignKeys := rfl

end Removal

namespace Schema

variable (S : Schema) {R R' : Removal}

theorem losesKey_eq_true {t : String} : S.losesKey R t = true ↔ ∃ d ∈ R.columns, d.1 = t ∧ S.isKey d = true := by
  simp [losesKey]

private theorem losesKey_append (t : String) : S.losesKey (R ++ R') t = (S.losesKey R t || S.losesKey R' t) := by
  simp [losesKey]

theorem isKey_remove (k : String × String) : (S.remove R).isKey k = true ↔
    S.isKey k = true ∧ k.1 ∉ R.tables ∧ k ∉ R.columns ∧ S.losesKey R k.1 = false := by
  simp only [isKey, remove]
  by_cases hk : k.1 ∈ R.tables ∨ k ∈ R.columns
  · rw [if_pos hk]
    simp only [Option.any_none, Bool.false_eq_true, false_iff]
    tauto
  · rw [if_neg hk]
    rw [not_or] at hk
    by_cases hlost : S.losesKey R k.1 = true
    · rw [if_pos hlost]
      cases S.columns k with
      | none => simp
      | some col => simp [Column.demote, hlost]
    · rw [if_neg hlost]
      simp [hk, hlost]

/-- After a first removal a second one breaks no more primary keys than without it. -/
private theorem losesKey_remove {t : String} (ht : t ∉ R.tables) (hkey : S.losesKey R t = false) :
    (S.remove R).losesKey R' t = S.losesKey R' t := by
  rw [Bool.eq_iff_iff, losesKey_eq_true, losesKey_eq_true]
  constructor
  · rintro ⟨d, hd, rfl, hk⟩
    exact ⟨d, hd, rfl, ((S.isKey_remove d).1 hk).1⟩
  · rintro ⟨d, hd, rfl, hk⟩
    refine ⟨d, hd, rfl, (S.isKey_remove d).2 ⟨hk, ht, fun hR => ?_, hkey⟩⟩
    exact Bool.false_ne_true (hkey.symm.trans ((S.losesKey_eq_true).2 ⟨d, hR, rfl, hk⟩))

theorem remove_remove (R R' : Removal) : (S.remove R).remove R' = S.remove (R ++ R') := by
  ext k v
  · simp [remove, Bool.and_assoc]
  · simp only [remove, Removal.tables_append, Removal.columns_append, List.mem_append, losesKey_append]
    by_cases hR : k.1 ∈ R.tables ∨ k ∈ R.columns
    · rw [if_pos hR]
      have hall : (k.1 ∈ R.tables ∨ k.1 ∈ R'.tables) ∨ k ∈ R.columns ∨ k ∈ R'.columns := by tauto
      rw [if_pos hall]
      simp
    · by_cases hR' : k.1 ∈ R'.tables ∨ k ∈ R'.columns
      · have hall : (k.1 ∈ R.tables ∨ k.1 ∈ R'.tables) ∨ k ∈ R.columns ∨ k ∈ R'.columns := by tauto
        rw [if_pos hR', if_pos hall]
      · have hall : ¬((k.1 ∈ R.tables ∨ k.1 ∈ R'.tables) ∨ k ∈ R.columns ∨ k ∈ R'.columns) := by tauto
        rw [if_neg hR, if_neg hR', if_neg hall]
        cases hlost : S.losesKey R k.1 with
        | true =>
          simp only [if_true, Bool.true_or, Option.map_map]
          split_ifs
          · rfl
          · rfl
        | false =>
          rw [not_or] at hR
          have hsame : (S.remove R).losesKey R' k.1 = S.losesKey R' k.1 := S.losesKey_remove hR.1 hlost
          simp only [remove] at hsame
          simp only [Bool.false_or, Bool.false_eq_true, if_false, hsame]
  · simp only [remove, Option.filter_eq_some_iff, decide_eq_true_eq, Removal.indexes_append, Removal.tables_append,
      Removal.columns_append, List.mem_append, not_or]
    constructor
    · rintro ⟨⟨hS, h₁, h₂, h₃⟩, h₁', h₂', h₃'⟩
      exact ⟨hS, ⟨h₁, h₁'⟩, ⟨h₂, h₂'⟩, fun c hc => ⟨h₃ c hc, h₃' c hc⟩⟩
    · rintro ⟨hS, h₁, h₂, h₃⟩
      exact ⟨⟨hS, h₁.1, h₂.1, fun c hc => (h₃ c hc).1⟩, h₁.2, h₂.2, fun c hc => (h₃ c hc).2⟩
  · simp only [remove, Option.filter_eq_some_iff, decide_eq_true_eq, Removal.foreignKeys_append, Removal.tables_append,
      Removal.columns_append, List.mem_append, not_or]
    tauto

/-- A removal depends only on which objects it names. -/
private theorem remove_congr (htables : ∀ t, t ∈ R.tables ↔ t ∈ R'.tables)
    (hcolumns : ∀ k, k ∈ R.columns ↔ k ∈ R'.columns)
    (hindexes : ∀ n, n ∈ R.indexes ↔ n ∈ R'.indexes) (hfks : ∀ k, k ∈ R.foreignKeys ↔ k ∈ R'.foreignKeys) :
    S.remove R = S.remove R' := by
  have hlost : ∀ t, S.losesKey R t = S.losesKey R' t := by
    intro t
    rw [Bool.eq_iff_iff, losesKey_eq_true, losesKey_eq_true]
    simp only [hcolumns]
  ext k v
  · simp [remove, htables]
  · simp only [remove, htables, hcolumns, hlost]
  · simp only [remove, htables, hcolumns, hindexes]
  · simp only [remove, htables, hcolumns, hfks]

theorem remove_comm (R R' : Removal) : (S.remove R).remove R' = (S.remove R').remove R := by
  rw [remove_remove, remove_remove]
  refine S.remove_congr ?_ ?_ ?_ ?_ <;>
  · intro x
    simp [or_comm]

theorem remove_nil : S.remove {} = S := by
  ext k v <;> simp [remove, losesKey]

end Schema

theorem removal_append (script script' : List Stmt) :
    removal (script ++ script') = removal script ++ removal script' := by
  simp only [removal, List.flatMap_append]
  rfl

@[simp] theorem removal_singleton (st : Stmt) : removal [st] = st.removal := by
  simp [removal]

theorem removal_flatMap {β : Type} (part : β → List Stmt) (L : List β) : removal (L.flatMap part) =
    ⟨L.flatMap fun e => (removal (part e)).tables, L.flatMap fun e => (removal (part e)).columns,
      L.flatMap fun e => (removal (part e)).indexes, L.flatMap fun e => (removal (part e)).foreignKeys⟩ := by
  simp only [removal, List.flatMap_assoc]

theorem removal_eq_empty (h : ∀ st ∈ script, st.removal = {}) : removal script = {} := by
  have hnil : ∀ {α : Type} (f : Removal → List α), f {} = [] → script.flatMap (fun st => f st.removal) = [] := by
    intro α f hf
    rw [List.flatMap_eq_nil_iff]
    intro st hst
    rw [h st hst, hf]
  rw [removal, hnil _ rfl, hnil _ rfl, hnil _ rfl, hnil _ rfl]

theorem runs_removals {β : Type} {part : β → List Stmt} {L : List β}
    (h : ∀ before e after, L = before ++ e :: after → Runs (S.remove (removal (before.flatMap part))) (part e)
      ((S.remove (removal (before.flatMap part))).remove (removal (part e)))) :
    Runs S (L.flatMap part) (S.remove (removal (L.flatMap part))) := by
  have hrun : Runs (S.remove (removal (([] : List β).flatMap part))) (L.flatMap part)
      (S.remove (removal (L.flatMap part))) := by
    refine runs_parts (fun before => S.remove (removal (before.flatMap part))) part fun before e after hL => ?_
    simp only [List.flatMap_append, List.flatMap_singleton, removal_append, ← S.remove_remove]
    exact h before e after hL
  rwa [List.flatMap_nil, show removal [] = {} from rfl, S.remove_nil] at hrun

end Ddl
