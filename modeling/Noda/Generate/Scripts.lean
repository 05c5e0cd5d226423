import Noda.Generate.CreateOrder
import Noda.Lib.SortBy

/-!
# Migration scripts

The up and down scripts that `internal/generate/migration.go` makes of the changes between two sets of models
(`changesToSQL`), as lists of statements.

Go visits its maps in an order of its own each time.  The order of the changes is therefore taken to be any one; that of
the relations of a model, which `topoSortCreates` also depends on, is the order of the map.
-/

namespace Noda.Generate

open Ddl CreateOrder

/-! ### Created tables -/

def ofModel (e : String × ModelDef) : CreateChange := ⟨e.1, some e.2⟩

def toModel (ch : CreateChange) : Option (String × ModelDef) := ch.model.map (ch.table, ·)

/-- `topoSortCreates`, with enough fuel. -/
def topoSortCreates (creates : List (String × ModelDef)) : List (String × ModelDef) :=
  ((CreateOrder.topoSortCreates (creates.length + 1) (creates.map ofModel)).getD []).filterMap toModel

/-- The created tables that a created table refers to, of the changes `creates`. -/
def deps (creates : List (String × ModelDef)) (table : String) : List String :=
  (((creates.lookup table).map fun m =>
    (m.relations.toPairs.filter (·.2.type = "belongsTo")).map (·.2.table)).getD []).filter (· ∈ creates.map Prod.fst)

variable {models : List (String × ModelDef)}

private theorem map_table_ofModel (models : List (String × ModelDef)) :
    (models.map ofModel).map CreateChange.table = models.map Prod.fst := by
  rw [List.map_map]
  rfl

private theorem filterMap_toModel (models : List (String × ModelDef)) :
    (models.map ofModel).filterMap toModel = models := by
  rw [List.filterMap_map]
  exact List.filterMap_some

private theorem flatMap_parents (hnodup : (models.map Prod.fst).Nodup) (t : String) :
    ((models.map ofModel).flatMap fun ch => if ch.table = t then ch.parents else []) =
      ((models.lookup t).map fun m =>
        (m.relations.toPairs.filter (·.2.type = "belongsTo")).map (·.2.table)).getD [] := by
  induction models with
  | nil => rfl
  | cons e models ih =>
    obtain ⟨t', m⟩ := e
    rw [List.map_cons, List.nodup_cons] at hnodup
    rw [List.map_cons, List.flatMap_cons, ih hnodup.2]
    by_cases heq : t = t'
    · subst heq
      have hnone : models.lookup t = none := by
        rw [Assoc.lookup_eq_none]
        intro m' hm'
        exact hnodup.1 (List.mem_map.2 ⟨(t, m'), hm', rfl⟩)
      rw [hnone, List.lookup_cons_self]
      simp [ofModel, CreateChange.parents]
    · rw [List.lookup_cons, beq_eq_false_iff_ne.2 heq]
      simp [ofModel, Ne.symm heq]

private theorem createdDeps_ofModels (hnodup : (models.map Prod.fst).Nodup) :
    createdDeps (models.map ofModel) = deps models := by
  funext t
  rw [createdDeps, getD_deps, flatMap_parents hnodup, deps]
  refine List.filter_congr fun d _ => ?_
  rw [Bool.eq_iff_iff, isSome_tableModel, map_table_ofModel, decide_eq_true_eq]

/-- A single change stays as it is. -/
theorem topoSortCreates_of_length_le (hlength : models.length ≤ 1) : topoSortCreates models = models := by
  rw [topoSortCreates, CreateOrder.topoSortCreates, if_pos (by rw [List.length_map]; exact hlength), Option.getD_some,
    filterMap_toModel]

/-- The tables come out in the order of the search. -/
theorem topoSortCreates_eq (hnodup : (models.map Prod.fst).Nodup) (hlength : ¬models.length ≤ 1) :
    topoSortCreates models =
      (TopoSort.sort (deps models) (models.map Prod.fst)).filterMap fun t => (models.lookup t).map (t, ·) := by
  have hnodup' : ((models.map ofModel).map CreateChange.table).Nodup := by rwa [map_table_ofModel]
  have hfuel : (models.map ofModel).length < models.length + 1 := by
    rw [List.length_map]
    exact Nat.lt_succ_self _
  have hperm := perm_order hnodup'
  rw [topoSortCreates, CreateOrder.topoSortCreates_eq hfuel (by rw [List.length_map]; exact hlength), Option.getD_some,
    List.filterMap_filterMap, order, createdDeps_ofModels hnodup, map_table_ofModel]
  rw [order, createdDeps_ofModels hnodup, map_table_ofModel] at hperm
  refine List.filterMap_congr fun t ht => ?_
  obtain ⟨e, he, rfl⟩ := List.mem_map.1 (hperm.mem_iff.1 ht)
  have hlookup : (tableModel (models.map ofModel)).lookup e.1 = some (ofModel e) :=
    lookup_tableModel hnodup' (List.mem_map_of_mem he)
  rw [hlookup, (Assoc.lookup_eq_some hnodup).2 he]
  rfl

/-! ### Scripts -/

variable (upper : String → String)

/-- The place of a change in the order of the scripts. -/
def Change.order : Change → Nat
  | .createTable .. => 0
  | .addColumn .. => 1
  | .alterColumn .. => 2
  | .addIndex .. => 3
  | .addFK .. => 4
  | .dropFK .. => 5
  | .dropIndex .. => 6
  | .dropColumn .. => 7
  | .dropTable .. => 8

def alterations (old new : ColumnDef) : List Alteration :=
  (if old.type ≠ new.type then [.setType (postgresType upper new)] else []) ++
  (if old.notNull ≠ new.notNull then [if new.notNull then .setNotNull else .dropNotNull] else []) ++
  if old.default ≠ new.default then [if new.default ≠ "" then .setDefault new.default else .dropDefault] else []

/-- The part of the up script for a change. -/
def Change.up : Change → List Stmt
  | .createTable _ m => (createTableSQL upper m).1
  | .dropTable t _ => [.dropTable t]
  | .addColumn t c col => [.addColumn t c (addedColumn upper col)]
  | .dropColumn t c _ => [.dropColumn t c]
  | .alterColumn t c old new => (alterations upper old new).map (.alterColumn t c)
  | .addIndex t idx => [.createIndex (indexName t idx.columns) (idx.index t)]
  | .dropIndex t idx => [.dropIndex (indexName t idx.columns)]
  | .addFK t n rel => [.addForeignKey t (fkName t n) rel.constraint]
  | .dropFK t n _ => [.dropConstraint t (fkName t n)]

/-- The down script, extended by a change: what undoes an addition comes first, what undoes a removal last. -/
def Change.down (script : List Stmt) : Change → List Stmt
  | .createTable _ m => (createTableSQL upper m).2 :: script
  | .dropTable _ m => script ++ (createTableSQL upper m).1
  | .addColumn t c _ => .dropColumn t c :: script
  | .dropColumn t c (some col) => script ++ [.addColumn t c (addedColumn upper col)]
  | .dropColumn _ _ none => script
  | .alterColumn t c old new => (alterations upper new old).reverse.map (.alterColumn t c) ++ script
  | .addIndex t idx => .dropIndex (indexName t idx.columns) :: script
  | .dropIndex t idx => script ++ [.createIndex (indexName t idx.columns) (idx.index t)]
  | .addFK t n _ => .dropConstraint t (fkName t n) :: script
  | .dropFK t n rel => script ++ [.addForeignKey t (fkName t n) rel.constraint]

def Change.created : Change → Option (String × ModelDef)
  | .createTable t m => some (t, m)
  | _ => none

/-- The changes in the order of the scripts. -/
def ordered (changes : List Change) : List Change :=
  let sorted := sortBy Change.order changes
  (topoSortCreates (sorted.filterMap Change.created)).map (fun e => .createTable e.1 e.2) ++
    sorted.filter (·.created = none)

/-- `changesToSQL`: the up and the down script. -/
def changesToSQL (changes : List Change) : List Stmt × List Stmt :=
  ((ordered changes).flatMap (Change.up upper), (ordered changes).foldl (Change.down upper) [])

end Noda.Generate
