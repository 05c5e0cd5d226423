import Noda.Generate.Scripts

/-!
# The schema of a set of models

`schemaOf` is the schema that `createTableSQL` builds for all models of a set, and `WellFormed` says when a database can
have it: names do not clash, and what is referred to exists.  A junction table is created only if there is nothing of
its name: models and indexes come before junction tables, and one relation before another.
-/

namespace Noda.Generate

open Ddl

variable (upper : String → String)

namespace Models

def models (M : Models) : List ModelDef := M.map.toPairs.map Prod.snd

def indexes (M : Models) : List (String × Index) := M.models.flatMap tableIndexes

/-- The junction tables whose name is not that of a model or an index: `IF NOT EXISTS` finds these. -/
def junctions (M : Models) : List Junction :=
  (M.models.flatMap Generate.junctions).filter fun j => j.name ∉ M.map ∧ j.name ∉ M.indexes.map Prod.fst

/-- The junction table of that name, as the first relation has it. -/
def junction (M : Models) (t : String) : Option Junction := M.junctions.find? (·.name = t)

def schemaOf (M : Models) : Schema where
  tables := fun t => (M.map.lookup t).isSome || (M.junction t).isSome
  columns := fun k =>
    match M.map.lookup k.1 with
    | some m => (tableColumns upper m).lookup k.2
    | none => (M.junction k.1).bind (·.columns.lookup k.2)
  indexes := fun n => M.indexes.lookup n
  foreignKeys := fun k =>
    match M.map.lookup k.1 with
    | some m => (tableForeignKeys m).lookup k.2
    | none => (M.junction k.1).bind (·.foreignKeys.lookup k.2)

end Models

/-- The definition of a column of the table of a model, listed or implied. -/
def ModelDef.column (m : ModelDef) (c : String) : Option ColumnDef :=
  (sortedEntries m.columns ++ impliedColumns m).lookup c

/-- The model has a table with a column `id`. -/
def Models.hasId (M : Models) (t : String) : Bool := (M.map.lookup t).any fun m => (m.column "id").isSome

/-- Both tables have the same columns and constraints. -/
def Junction.same (j j' : Junction) : Prop := j.columns.Perm j'.columns ∧ j.foreignKeys.Perm j'.foreignKeys

instance (j j' : Junction) : Decidable (j.same j') := inferInstanceAs (Decidable (_ ∧ _))

/-- A database can have the schema of the models. -/
structure Models.WellFormed (M : Models) : Prop where
  /-- a column is listed or implied, not both -/
  columns : ∀ m ∈ M.models, ∀ c ∈ impliedColumns m, c.1 ∉ m.columns
  /-- indexes of one name are the same -/
  index_names : ∀ i ∈ M.indexes, ∀ i' ∈ M.indexes, i.1 = i'.1 → i = i'
  index_tables : ∀ i ∈ M.indexes, i.1 ∉ M.map
  index_columns : ∀ m ∈ M.models, ∀ idx ∈ m.indexes, idx.columns ≠ [] ∧ ∀ c ∈ idx.columns, (m.column c).isSome
  references : ∀ m ∈ M.models, ∀ r ∈ m.relations.toPairs, r.2.type = "belongsTo" →
    (m.column r.2.foreignKey).isSome ∧ M.hasId r.2.table
  junctions : ∀ j ∈ M.junctions, M.junction j.name = some j →
    (j.columns.map Prod.fst).Nodup ∧ ∀ fk ∈ j.foreignKeys, M.hasId fk.2.refTable

/-! ### Entries -/

section Entries

variable {α : Type} {m : GoMap α} {k : String} {v : α}

private theorem mem_sortedEntries : (k, v) ∈ sortedEntries m ↔ m.lookup k = some v := by
  simp only [sortedEntries, List.mem_filterMap, mem_sortStrings, Option.map_eq_some_iff, Prod.mk.injEq]
  constructor
  · rintro ⟨k', -, v', hv, rfl, rfl⟩
    exact hv
  · intro h
    exact ⟨k, AList.mem_keys.1 (AList.mem_of_lookup h), v, h, rfl, rfl⟩

private theorem map_fst_sortedEntries (m : GoMap α) : (sortedEntries m).map Prod.fst = sortStrings m.keys := by
  unfold sortedEntries
  rw [List.map_filterMap]
  have hall : ∀ k ∈ sortStrings m.keys, ((m.lookup k).map (k, ·)).map Prod.fst = some k := by
    intro k hk
    rw [mem_sortStrings] at hk
    obtain ⟨v, hv⟩ := AList.exists_lookup_of_mem (AList.mem_keys.2 hk)
    rw [hv]
    rfl
  rw [List.filterMap_congr hall, List.filterMap_some]

private theorem nodup_sortedEntries (m : GoMap α) : ((sortedEntries m).map Prod.fst).Nodup := by
  rw [map_fst_sortedEntries, nodup_sortStrings]
  exact m.keys_nodup

end Entries

variable {upper} {M : Models} {m : ModelDef} {t c n : String}

private theorem lookup_sortedEntries {α : Type} (m : GoMap α) (k : String) :
    (sortedEntries m).lookup k = m.lookup k := by
  ext v
  rw [Assoc.lookup_eq_some (nodup_sortedEntries m), mem_sortedEntries]

/-! ### Columns -/

theorem column_eq (m : ModelDef) (c : String) : m.column c = (m.columns.lookup c).or ((impliedColumns m).lookup c) := by
  rw [ModelDef.column, List.lookup_append, lookup_sortedEntries]

theorem lookup_tableColumns (m : ModelDef) (c : String) :
    (tableColumns upper m).lookup c = (m.column c).map (createdColumn upper) :=
  Assoc.lookup_map _ _

theorem nodup_impliedColumns (m : ModelDef) : ((impliedColumns m).map Prod.fst).Nodup := by
  unfold impliedColumns
  split_ifs <;> decide

theorem Models.mem_models : m ∈ M.models ↔ M.map.lookup m.table = some m := by
  unfold Models.models
  rw [List.mem_map]
  constructor
  · rintro ⟨⟨t, m⟩, h, rfl⟩
    rw [AList.mem_toPairs] at h
    rw [M.table_eq t m h]
    exact h
  · intro h
    exact ⟨(m.table, m), AList.mem_toPairs.2 h, rfl⟩

theorem Models.mem_models_of_lookup (h : M.map.lookup t = some m) : m ∈ M.models := by
  rw [M.mem_models, M.table_eq t m h]
  exact h

theorem Models.WellFormed.nodup_columns (h : M.WellFormed) (hm : m ∈ M.models) :
    ((tableColumns upper m).map Prod.fst).Nodup := by
  have hfst : (tableColumns upper m).map Prod.fst = (sortedEntries m.columns ++ impliedColumns m).map Prod.fst := by
    simp [tableColumns, Function.comp_def]
  rw [hfst, List.map_append, List.nodup_append]
  refine ⟨nodup_sortedEntries _, nodup_impliedColumns m, fun a ha b hb => ?_⟩
  rintro rfl
  obtain ⟨e, he, rfl⟩ := List.mem_map.1 hb
  rw [map_fst_sortedEntries, mem_sortStrings] at ha
  exact h.columns m hm e he (AList.mem_keys.2 ha)

namespace Models

theorem tables_of_lookup (h : M.map.lookup t = some m) : (M.schemaOf upper).tables t = true := by
  simp [schemaOf, h]

theorem columns_of_lookup (h : M.map.lookup t = some m) (c : String) :
    (M.schemaOf upper).columns (t, c) = (m.column c).map (createdColumn upper) := by
  simp only [schemaOf, h]
  exact lookup_tableColumns m c

theorem foreignKeys_of_lookup (h : M.map.lookup t = some m) (n : String) :
    (M.schemaOf upper).foreignKeys (t, n) = (tableForeignKeys m).lookup n := by
  simp only [schemaOf, h]

theorem columns_of_hasId (h : M.hasId t = true) : (M.schemaOf upper).columns (t, "id") ≠ none := by
  obtain ⟨m, hm, hid⟩ := (Option.any_eq_true _ _).1 h
  rw [columns_of_lookup hm]
  simpa using Option.isSome_iff_ne_none.1 hid

end Models

/-! ### Foreign keys -/

theorem fkName_inj {table a b : String} (h : fkName table a = fkName table b) : a = b := by
  unfold fkName at h
  apply String.toList_injective
  have hlist := congrArg String.toList h
  simpa using hlist

theorem mem_tableForeignKeys {fk : ForeignKey} : (n, fk) ∈ tableForeignKeys m ↔
    ∃ r rel, m.relations.lookup r = some rel ∧ rel.type = "belongsTo" ∧ n = fkName m.table r ∧ fk = rel.constraint := by
  simp only [tableForeignKeys, List.mem_map, List.mem_filter, decide_eq_true_eq, Prod.mk.injEq]
  constructor
  · rintro ⟨⟨r, rel⟩, ⟨hmem, htype⟩, rfl, rfl⟩
    exact ⟨r, rel, mem_sortedEntries.1 hmem, htype, rfl, rfl⟩
  · rintro ⟨r, rel, hmem, htype, rfl, rfl⟩
    exact ⟨(r, rel), ⟨mem_sortedEntries.2 hmem, htype⟩, rfl, rfl⟩

theorem nodup_tableForeignKeys (m : ModelDef) : ((tableForeignKeys m).map Prod.fst).Nodup := by
  have hnames : ((sortedEntries m.relations).filter (·.2.type = "belongsTo")).Pairwise fun a b => a.1 ≠ b.1 :=
    (List.pairwise_map.1 (nodup_sortedEntries m.relations)).filter _
  rw [tableForeignKeys, List.map_map, List.Nodup, List.pairwise_map]
  exact hnames.imp fun hne h => hne (fkName_inj h)

private theorem lookup_tableForeignKeys {fk : ForeignKey} : (tableForeignKeys m).lookup n = some fk ↔
    ∃ r rel, m.relations.lookup r = some rel ∧ rel.type = "belongsTo" ∧ n = fkName m.table r ∧ fk = rel.constraint := by
  rw [Assoc.lookup_eq_some (nodup_tableForeignKeys m), mem_tableForeignKeys]

theorem Models.foreignKeys_eq_some {fk : ForeignKey} (h : M.map.lookup t = some m) :
    (M.schemaOf upper).foreignKeys (t, n) = some fk ↔ ∃ r rel, m.relations.lookup r = some rel ∧
      rel.type = "belongsTo" ∧ n = fkName t r ∧ fk = rel.constraint := by
  rw [foreignKeys_of_lookup h, lookup_tableForeignKeys, M.table_eq t m h]

/-! ### Indexes -/

theorem Models.mem_indexes {idx : Index} : (n, idx) ∈ M.indexes ↔
    ∃ m ∈ M.models, ∃ i ∈ m.indexes, n = indexName m.table i.columns ∧ idx = i.index m.table := by
  simp only [Models.indexes, List.mem_flatMap, tableIndexes, List.mem_map, Prod.mk.injEq]
  constructor
  · rintro ⟨m, hm, i, hi, rfl, rfl⟩
    exact ⟨m, hm, i, hi, rfl, rfl⟩
  · rintro ⟨m, hm, i, hi, rfl, rfl⟩
    exact ⟨m, hm, i, hi, rfl, rfl⟩

theorem Models.WellFormed.indexes_eq_some (h : M.WellFormed) {idx : Index} :
    (M.schemaOf upper).indexes n = some idx ↔ (n, idx) ∈ M.indexes :=
  Assoc.lookup_eq_some_of_unique h.index_names

theorem Models.WellFormed.indexes_of_mem (h : M.WellFormed) (hm : M.map.lookup t = some m) {i : IndexDef}
    (hi : i ∈ m.indexes) : (M.schemaOf upper).indexes (indexName t i.columns) = some (i.index t) := by
  refine h.indexes_eq_some.2 (M.mem_indexes.2 ⟨m, M.mem_models_of_lookup hm, i, hi, ?_⟩)
  rw [M.table_eq t m hm]
  exact ⟨rfl, rfl⟩

/-! ### Junction tables -/

private theorem mem_junctions {j : Junction} : j ∈ junctions m ↔ ∃ r rel, m.relations.lookup r = some rel ∧
    rel.type = "manyToMany" ∧ rel.junction ≠ "" ∧ j = rel.junctionTable m.table := by
  simp only [junctions, List.mem_map, List.mem_filter, decide_eq_true_eq]
  constructor
  · rintro ⟨⟨r, rel⟩, ⟨hmem, htype, hj⟩, rfl⟩
    exact ⟨r, rel, mem_sortedEntries.1 hmem, htype, hj, rfl⟩
  · rintro ⟨r, rel, hmem, htype, hj, rfl⟩
    exact ⟨(r, rel), ⟨mem_sortedEntries.2 hmem, htype, hj⟩, rfl⟩

/-- The keys of a junction table are distinct, and so are then the names of its constraints. -/
private theorem nodup_foreignKeys {j : Junction} (hj : j ∈ junctions m) (h : (j.columns.map Prod.fst).Nodup) :
    (j.foreignKeys.map Prod.fst).Nodup := by
  obtain ⟨r, rel, -, -, -, rfl⟩ := mem_junctions.1 hj
  have hkeys : rel.localKey ≠ rel.foreignKey := by simpa [RelDef.junctionTable] using h
  simp only [RelDef.junctionTable, List.map_cons, List.map_nil, List.nodup_cons, List.mem_singleton, List.not_mem_nil,
    not_false_eq_true, List.nodup_nil, and_true]
  intro he
  apply hkeys
  apply String.toList_injective
  have hlist := congrArg String.toList he
  simpa using hlist

theorem junction_references {j : Junction} (hj : j ∈ junctions m) {fk : ForeignKey} (hfk : (n, fk) ∈ j.foreignKeys) :
    fk.column ∈ j.columns.map Prod.fst ∧ fk.refColumn = "id" := by
  obtain ⟨r, rel, -, -, -, rfl⟩ := mem_junctions.1 hj
  simp only [RelDef.junctionTable, List.mem_cons, Prod.mk.injEq, List.not_mem_nil, or_false] at hfk
  rcases hfk with ⟨-, rfl⟩ | ⟨-, rfl⟩
  · exact ⟨by simp [RelDef.junctionTable], rfl⟩
  · exact ⟨by simp [RelDef.junctionTable], rfl⟩

namespace Models

private theorem mem_junctions {j : Junction} : j ∈ M.junctions ↔ (∃ m ∈ M.models, j ∈ Generate.junctions m) ∧
    j.name ∉ M.map ∧ j.name ∉ M.indexes.map Prod.fst := by
  rw [junctions, List.mem_filter, List.mem_flatMap, decide_eq_true_eq]

private theorem exists_junction {j : Junction} (h : j ∈ M.junctions) : ∃ j', M.junction j.name = some j' := by
  rw [← Option.isSome_iff_exists, junction, List.find?_isSome]
  exact ⟨j, h, by simp⟩

private theorem junction_eq_some {j : Junction} (h : M.junction t = some j) : j ∈ M.junctions ∧ j.name = t :=
  ⟨List.mem_of_find?_eq_some h, by simpa using List.find?_some h⟩

theorem not_mem_of_junction {j : Junction} (h : M.junction t = some j) : t ∉ M.map := by
  obtain ⟨hmem, rfl⟩ := M.junction_eq_some h
  exact (M.mem_junctions.1 hmem).2.1

theorem junction_cases {j : Junction} (hm : m ∈ M.models) (hj : j ∈ Generate.junctions m) :
    j.name ∈ M.map ∨ (∃ i, (j.name, i) ∈ M.indexes) ∨ ∃ j', M.junction j.name = some j' := by
  by_cases hmap : j.name ∈ M.map
  · exact .inl hmap
  · by_cases hindex : j.name ∈ M.indexes.map Prod.fst
    · obtain ⟨⟨n, i⟩, hi, he⟩ := List.mem_map.1 hindex
      exact .inr (.inl ⟨i, (show n = j.name from he) ▸ hi⟩)
    · exact .inr (.inr (M.exists_junction (M.mem_junctions.2 ⟨⟨m, hm, hj⟩, hmap, hindex⟩)))

theorem tables_of_junction {j : Junction} (h : M.junction t = some j) : (M.schemaOf upper).tables t = true := by
  simp [schemaOf, h]

theorem columns_of_junction {j : Junction} (h : M.junction t = some j) (c : String) :
    (M.schemaOf upper).columns (t, c) = j.columns.lookup c := by
  simp only [schemaOf, AList.lookup_eq_none.2 (M.not_mem_of_junction h), h, Option.bind_some]

theorem foreignKeys_of_junction {j : Junction} (h : M.junction t = some j) (n : String) :
    (M.schemaOf upper).foreignKeys (t, n) = j.foreignKeys.lookup n := by
  simp only [schemaOf, AList.lookup_eq_none.2 (M.not_mem_of_junction h), h, Option.bind_some]

end Models

theorem Models.WellFormed.junction_ok (h : M.WellFormed) {j : Junction} (hj : M.junction t = some j) :
    (j.columns.map Prod.fst).Nodup ∧ (j.foreignKeys.map Prod.fst).Nodup ∧
      ∀ n fk, (n, fk) ∈ j.foreignKeys →
        fk.column ∈ j.columns.map Prod.fst ∧ fk.refColumn = "id" ∧ M.hasId fk.refTable := by
  obtain ⟨hmem, rfl⟩ := M.junction_eq_some hj
  obtain ⟨⟨m, -, hjm⟩, -⟩ := M.mem_junctions.1 hmem
  obtain ⟨hcols, hrefs⟩ := h.junctions j hmem hj
  refine ⟨hcols, nodup_foreignKeys hjm hcols, fun n fk hfk => ?_⟩
  obtain ⟨hcol, hid⟩ := junction_references hjm hfk
  exact ⟨hcol, hid, hrefs _ hfk⟩

theorem Models.WellFormed.not_table_of_index (h : M.WellFormed) {i : Index} (hi : (n, i) ∈ M.indexes) :
    (M.schemaOf upper).tables n = false := by
  have hjunction : M.junction n = none := by
    rw [Models.junction, List.find?_eq_none]
    intro j hj hname
    obtain rfl : j.name = n := by simpa using hname
    exact (M.mem_junctions.1 hj).2.2 (List.mem_map_of_mem hi)
  simp [Models.schemaOf, AList.lookup_eq_none.2 (h.index_tables _ hi), hjunction]

theorem Models.WellFormed.closed (h : M.WellFormed) : (M.schemaOf upper).Closed := by
  refine ⟨fun k hk => ?_, fun n idx hidx => ?_, fun k fk hfk => ?_⟩
  · simp only [schemaOf] at hk ⊢
    cases hm : M.map.lookup k.1 with
    | some m => simp
    | none =>
      rw [hm] at hk
      cases hj : M.junction k.1 with
      | some j => simp
      | none => simp [hj] at hk
  · obtain ⟨m, hm, i, hi, -, rfl⟩ := M.mem_indexes.1 (Assoc.mem_of_lookup hidx)
    have hlookup := M.mem_models.1 hm
    refine ⟨M.tables_of_lookup hlookup, fun c hc => ?_⟩
    rw [IndexDef.index, M.columns_of_lookup hlookup]
    simpa using Option.isSome_iff_ne_none.1 ((h.index_columns m hm i hi).2 c hc)
  · obtain ⟨t, n⟩ := k
    cases hm : M.map.lookup t with
    | some m =>
      rw [M.foreignKeys_of_lookup hm, lookup_tableForeignKeys] at hfk
      obtain ⟨r, rel, hrel, htype, -, rfl⟩ := hfk
      obtain ⟨hcol, hid⟩ := h.references m (M.mem_models_of_lookup hm) (r, rel) (AList.mem_toPairs.2 hrel) htype
      refine ⟨?_, M.columns_of_hasId hid⟩
      show (M.schemaOf upper).columns (t, rel.foreignKey) ≠ none
      rw [M.columns_of_lookup hm]
      simpa using Option.isSome_iff_ne_none.1 hcol
    | none =>
      cases hj : M.junction t with
      | none => simp [schemaOf, hm, hj] at hfk
      | some j =>
        rw [M.foreignKeys_of_junction hj] at hfk
        obtain ⟨hcol, hid, href⟩ := (h.junction_ok hj).2.2 _ fk (Assoc.mem_of_lookup hfk)
        rw [M.columns_of_junction hj, hid]
        refine ⟨fun hnone => ?_, M.columns_of_hasId href⟩
        obtain ⟨e, he, hname⟩ := List.mem_map.1 hcol
        exact (Assoc.lookup_eq_none.1 hnone) e.2 (hname ▸ he)

/-! ### Small sets -/

/-- A set of models with distinct tables. -/
def Models.ofList (ms : List ModelDef) : Models where
  map := GoMap.ofPairs (ms.map fun m => (m.table, m))
  table_eq := by
    intro t m h
    rw [GoMap.lookup_ofPairs] at h
    obtain ⟨m', -, he⟩ := List.mem_map.1 (Assoc.mem_of_lookup h)
    obtain ⟨rfl, rfl⟩ := Prod.mk.inj he
    rfl

def notes (columns : List (String × ColumnDef)) (timestamps : Bool) : ModelDef where
  table := "notes"
  columns := GoMap.ofPairs (("id", ⟨"uuid", true, true, "", [], 0, 0, 0⟩) :: columns)
  relations := ∅
  indexes := []
  timestamps := timestamps
  softDelete := false

def titleColumn (maxLength : Int) : ColumnDef := ⟨"varchar", false, true, "", [], maxLength, 0, 0⟩

def titled (maxLength : Int) : Models := .ofList [notes [("title", titleColumn maxLength)] false]

/-- Notes without titles. -/
def untitled (timestamps : Bool) : Models := .ofList [notes [] timestamps]

theorem titled_wellFormed : (titled 50).WellFormed ∧ (titled 100).WellFormed :=
  ⟨⟨by decide +kernel, by decide +kernel, by decide +kernel, by decide +kernel, by decide +kernel, by decide +kernel⟩,
    by decide +kernel, by decide +kernel, by decide +kernel, by decide +kernel, by decide +kernel, by decide +kernel⟩

theorem untitled_wellFormed (timestamps : Bool) : (untitled timestamps).WellFormed := by
  cases timestamps with
  | _ =>
    exact ⟨by decide +kernel, by decide +kernel, by decide +kernel, by decide +kernel, by decide +kernel,
      by decide +kernel⟩

def keyColumn (primaryKey : Bool) : ColumnDef := ⟨"uuid", primaryKey, true, "", [], 0, 0, 0⟩

/-- A table with an `id` and further columns. -/
def table (name : String) (columns : List (String × ColumnDef)) (relations : List (String × RelDef)) : ModelDef where
  table := name
  columns := GoMap.ofPairs (("id", keyColumn true) :: columns)
  relations := GoMap.ofPairs relations
  indexes := []
  timestamps := false
  softDelete := false

/-- Students and courses.  The junction table between them is a model of its own. -/
def school (columns : List (String × ColumnDef)) : Models :=
  .ofList [table "students" columns
      [("courses", ⟨"manyToMany", "courses", "course_id", "", "enrollments", "student_id"⟩)],
    table "courses" [] [],
    table "enrollments" [("student_id", keyColumn false), ("course_id", keyColumn false)]
      [("student", ⟨"belongsTo", "students", "student_id", "CASCADE", "", ""⟩)]]

def nickname : String × ColumnDef := ("nickname", ⟨"text", false, false, "", [], 0, 0, 0⟩)

theorem school_wellFormed : (school []).WellFormed ∧ (school [nickname]).WellFormed :=
  ⟨⟨by decide +kernel, by decide +kernel, by decide +kernel, by decide +kernel, by decide +kernel, by decide +kernel⟩,
    by decide +kernel, by decide +kernel, by decide +kernel, by decide +kernel, by decide +kernel, by decide +kernel⟩

theorem junction_of_empty (h : M.junctions = []) (n : String) : M.junction n = none := by
  rw [Models.junction, h, List.find?_nil]

end Noda.Generate
