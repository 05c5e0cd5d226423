import Noda.Generate.Changes

/-!
# The script of a table

`createTableSQL` on a database in which the names of the table and of its indexes are free and the tables it refers to
exist (`runs_tableSQL`).
-/

namespace Noda.Generate

open Ddl

variable (upper : String → String)

/-- The script of a table up to its junction tables. -/
def tableSQL (m : ModelDef) : List Stmt :=
  .createTable m.table (tableColumns upper m) ::
    ((tableIndexes m).map (fun i => .createIndex i.1 i.2) ++
      (tableForeignKeys m).map fun k => .addForeignKey m.table k.1 k.2)

def junctionSQL (j : Junction) : Stmt := .createTableIfNotExists j.name j.columns j.foreignKeys

theorem createTableSQL_eq (m : ModelDef) :
    (createTableSQL upper m).1 = tableSQL upper m ++ (junctions m).map junctionSQL := by
  simp [createTableSQL, tableSQL, junctionSQL]

def addTable (S : Schema) (m : ModelDef) : Schema where
  tables := Function.update S.tables m.table true
  columns := fun k => if k.1 = m.table then (tableColumns upper m).lookup k.2 else S.columns k
  indexes := fun n => ((tableIndexes m).lookup n).or (S.indexes n)
  foreignKeys := fun k => if k.1 = m.table then (tableForeignKeys m).lookup k.2 else S.foreignKeys k

variable {upper} {S : Schema} {M : Models} {m : ModelDef}

/-- A junction table is not created if there is something of its name. -/
theorem runs_skipped {js : List Junction} (h : ∀ j ∈ js, S.taken j.name = true) : Runs S (js.map junctionSQL) S := by
  induction js with
  | nil => rfl
  | cons j js ih =>
    rw [List.forall_mem_cons] at h
    refine ⟨.inl h.1, ?_⟩
    simp only [junctionSQL, Stmt.apply, h.1, if_true]
    exact ih h.2

theorem Models.WellFormed.nodup_tableIndexes (h : M.WellFormed) (hm : m ∈ M.models) (hnodup : m.indexes.Nodup) :
    ((tableIndexes m).map Prod.fst).Nodup := by
  rw [tableIndexes, List.map_map, List.Nodup, List.pairwise_map]
  refine hnodup.imp_of_mem fun {i i'} hi hi' hne hname => hne ?_
  have hmem : ∀ {i}, i ∈ m.indexes → (indexName m.table i.columns, i.index m.table) ∈ M.indexes :=
    fun hi => M.mem_indexes.2 ⟨m, hm, _, hi, rfl, rfl⟩
  have hsame := (Prod.mk.inj (h.index_names _ (hmem hi) _ (hmem hi') hname)).2
  simp only [IndexDef.index, Index.mk.injEq, true_and] at hsame
  cases i
  cases i'
  simpa using hsame

variable (upper) in
theorem Models.WellFormed.tableIndexes_lookup {t n : String} (h : M.WellFormed) (hm : M.map.lookup t = some m)
    {i : Index} :
    (tableIndexes m).lookup n = some i ↔ (M.schemaOf upper).indexes n = some i ∧ i.table = t := by
  have hmem := M.mem_models_of_lookup hm
  have hunique : ∀ e ∈ tableIndexes m, ∀ e' ∈ tableIndexes m, e.1 = e'.1 → e = e' := by
    intro e he e' he'
    exact h.index_names e (List.mem_flatMap.2 ⟨m, hmem, he⟩) e' (List.mem_flatMap.2 ⟨m, hmem, he'⟩)
  rw [Assoc.lookup_eq_some_of_unique hunique, h.indexes_eq_some]
  constructor
  · intro hi
    obtain ⟨idx, -, he⟩ := List.mem_map.1 hi
    refine ⟨List.mem_flatMap.2 ⟨m, hmem, hi⟩, ?_⟩
    rw [← (Prod.mk.inj he).2]
    exact M.table_eq t m hm
  · rintro ⟨hi, rfl⟩
    obtain ⟨m', hmem', hi⟩ := List.mem_flatMap.1 hi
    obtain ⟨idx, hidx, he⟩ := List.mem_map.1 hi
    have hlookup := M.mem_models.1 hmem'
    have htable : i.table = m'.table := by
      rw [← (Prod.mk.inj he).2]
      rfl
    rw [← htable, hm] at hlookup
    obtain rfl := Option.some.inj hlookup
    exact hi

private theorem runs_createIndexes (h : M.WellFormed) (hm : m ∈ M.models) (hnodup : m.indexes.Nodup)
    (htable : S.tables m.table = true)
    (hcolumns : ∀ c, (m.column c).isSome → S.columns (m.table, c) ≠ none)
    (hfree : ∀ i ∈ tableIndexes m, S.taken i.1 = false) :
    Runs S ((tableIndexes m).map fun i => .createIndex i.1 i.2)
      { S with indexes := fun n => ((tableIndexes m).lookup n).or (S.indexes n) } := by
  replace hnodup := h.nodup_tableIndexes hm hnodup
  rw [List.map_eq_flatMap]
  refine runs_updates (fun g => { S with indexes := g }) Prod.fst (fun i => some i.2) hnodup (fun i hi g hg => ?_)
    (fun i hi => ?_) fun n hn => ?_
  · obtain ⟨idx, hidx, rfl⟩ := List.mem_map.1 hi
    obtain ⟨hne, hcols⟩ := h.index_columns m hm idx hidx
    have hfree := hfree _ hi
    simp only [Schema.taken, Bool.or_eq_false_iff] at hfree
    refine ⟨⟨?_, htable, hne, fun c hc => hcolumns c (hcols c hc)⟩, rfl⟩
    simp only [Schema.taken, hg]
    simpa using hfree
  · rw [(Assoc.lookup_eq_some hnodup).2 hi]
    rfl
  · have hnone : (tableIndexes m).lookup n = none := by
      rw [Assoc.lookup_eq_none]
      intro idx hidx
      exact hn (List.mem_map_of_mem hidx)
    rw [hnone]
    rfl

private theorem runs_addForeignKeys (h : M.WellFormed) (hm : m ∈ M.models)
    (hcolumns : ∀ c, (m.column c).isSome → S.columns (m.table, c) ≠ none)
    (hfree : ∀ n, S.foreignKeys (m.table, n) = none)
    (hrefs : ∀ r rel, m.relations.lookup r = some rel → rel.type = "belongsTo" → S.columns (rel.table, "id") ≠ none) :
    Runs S ((tableForeignKeys m).map fun k => .addForeignKey m.table k.1 k.2)
      { S with foreignKeys :=
        fun k => if k.1 = m.table then (tableForeignKeys m).lookup k.2 else S.foreignKeys k } := by
  have hnodup := nodup_tableForeignKeys m
  have hkeys : ((tableForeignKeys m).map fun k => (m.table, k.1)).Nodup := by
    have hpair := hnodup.map (Prod.mk_right_injective m.table)
    rwa [List.map_map] at hpair
  rw [List.map_eq_flatMap]
  refine runs_updates (fun g => { S with foreignKeys := g }) (fun k => (m.table, k.1)) (fun k => some k.2) hkeys
    (fun k hk g hg => ?_) (fun k hk => ?_) fun k hk => ?_
  · obtain ⟨r, rel, hrel, htype, -, hfk⟩ := mem_tableForeignKeys.1 hk
    obtain ⟨hcol, -⟩ := h.references m hm (r, rel) (AList.mem_toPairs.2 hrel) htype
    refine ⟨⟨hg.trans (hfree k.1), ?_, ?_⟩, rfl⟩
    · rw [hfk]
      exact hcolumns _ hcol
    · rw [hfk]
      exact hrefs r rel hrel htype
  · rw [if_pos rfl, (Assoc.lookup_eq_some hnodup).2 hk]
  · by_cases ht : k.1 = m.table
    · rw [if_pos ht]
      have hfree := hfree k.2
      rw [← ht] at hfree
      rw [hfree, Assoc.lookup_eq_none]
      intro fk hfk
      exact hk (List.mem_map.2 ⟨(k.2, fk), hfk, Prod.ext ht.symm rfl⟩)
    · rw [if_neg ht]

theorem runs_tableSQL (h : M.WellFormed) (hm : m ∈ M.models) (hnodup : m.indexes.Nodup)
    (htable : S.taken m.table = false)
    (hfree : ∀ n, S.foreignKeys (m.table, n) = none)
    (hindexes : ∀ i ∈ tableIndexes m, S.taken i.1 = false)
    (hrefs : ∀ r rel, m.relations.lookup r = some rel → rel.type = "belongsTo" →
      rel.table = m.table ∨ S.columns (rel.table, "id") ≠ none) :
    Runs S (tableSQL upper m) (addTable upper S m) := by
  have hlookup := M.mem_models.1 hm
  have hcolumns : ∀ c, (m.column c).isSome → (tableColumns upper m).lookup c ≠ none := by
    intro c hc
    rw [lookup_tableColumns]
    simpa using Option.isSome_iff_ne_none.1 hc
  refine ⟨⟨htable, h.nodup_columns hm⟩, ?_⟩
  refine (runs_createIndexes h hm hnodup (Function.update_self ..) (fun c hc => ?_) fun i hi => ?_).append
    (runs_addForeignKeys h hm (fun c hc => ?_) hfree fun r rel hrel htype => ?_)
  · simpa [Stmt.apply] using hcolumns c hc
  · have hne : i.1 ≠ m.table := by
      rintro he
      have hmem : i ∈ M.indexes := List.mem_flatMap.2 ⟨m, hm, hi⟩
      exact h.index_tables i hmem (he ▸ AList.mem_of_lookup hlookup)
    simpa [Stmt.apply, Schema.taken, Function.update_of_ne hne] using hindexes i hi
  · simpa [Stmt.apply] using hcolumns c hc
  · obtain ⟨-, hid⟩ := h.references m hm (r, rel) (AList.mem_toPairs.2 hrel) htype
    by_cases hself : rel.table = m.table
    · rw [Models.hasId, hself, hlookup] at hid
      simpa [Stmt.apply, hself] using hcolumns "id" hid
    · simpa [Stmt.apply, hself] using (hrefs r rel hrel htype).resolve_left hself

/-! ### Alterations -/

/-- The column after its alterations. -/
def alteredColumn (upper : String → String) (o n : ColumnDef) (col : Column) : Column where
  type := if o.type ≠ n.type then postgresType upper n else col.type
  notNull := if o.notNull ≠ n.notNull then n.notNull else col.notNull
  default := if o.default ≠ n.default then n.default else col.default
  primaryKey := col.primaryKey

theorem foldl_alterations (o n : ColumnDef) (col : Column) :
    (alterations upper o n).foldl Alteration.apply col = alteredColumn upper o n col := by
  simp only [alterations, alteredColumn, List.foldl_append]
  by_cases htype : o.type = n.type <;> by_cases hnull : o.notNull = n.notNull <;>
    by_cases hdef : o.default = n.default <;>
    by_cases hempty : n.default = "" <;> cases hn : n.notNull <;>
    simp_all [Alteration.apply]

theorem foldl_alterations_reverse (o n : ColumnDef) (col : Column) :
    (alterations upper o n).reverse.foldl Alteration.apply col = alteredColumn upper o n col := by
  simp only [alterations, alteredColumn, List.reverse_append, List.foldl_append]
  by_cases htype : o.type = n.type <;> by_cases hnull : o.notNull = n.notNull <;>
    by_cases hdef : o.default = n.default <;>
    by_cases hempty : n.default = "" <;> cases hn : n.notNull <;>
    simp_all [Alteration.apply]

theorem mem_alterations_dropNotNull {o n : ColumnDef} :
    .dropNotNull ∈ alterations upper o n ↔ o.notNull = true ∧ n.notNull = false := by
  unfold alterations
  cases o.notNull <;> cases n.notNull <;> simp <;> split_ifs <;> simp

/-! ### What a script removes -/

def Change.removal : Change → Removal
  | .dropTable t _ => { tables := [t] }
  | .dropColumn t c _ => { columns := [(t, c)] }
  | .dropIndex t i => { indexes := [Generate.indexName t i.columns] }
  | .dropFK t r _ => { foreignKeys := [(t, fkName t r)] }
  | _ => {}

theorem removal_up (ch : Change) : Ddl.removal (ch.up upper) = ch.removal := by
  cases ch with
  | createTable t m =>
    refine removal_eq_empty ?_
    simp only [Change.up, createTableSQL_eq, tableSQL, junctionSQL, List.mem_append, List.mem_cons, List.mem_map]
    rintro st ((rfl | ⟨i, -, rfl⟩ | ⟨k, -, rfl⟩) | ⟨j, -, rfl⟩)
    · rfl
    · rfl
    · rfl
    · rfl
  | alterColumn t c o n =>
    refine removal_eq_empty fun st hst => ?_
    obtain ⟨a, -, rfl⟩ := List.mem_map.1 hst
    rfl
  | _ => rfl

section Removal

variable {l : List Change}

theorem mem_removal_tables {t : String} :
    t ∈ (Ddl.removal (l.flatMap (Change.up upper))).tables ↔ ∃ m, .dropTable t m ∈ l := by
  simp only [removal_flatMap, removal_up, List.mem_flatMap]
  constructor
  · rintro ⟨ch, hch, ht⟩
    cases ch with
    | dropTable t' m =>
      obtain rfl := List.mem_singleton.1 ht
      exact ⟨m, hch⟩
    | _ => cases ht
  · rintro ⟨m, hm⟩
    exact ⟨_, hm, List.mem_singleton.2 rfl⟩

theorem mem_removal_columns {t c : String} :
    (t, c) ∈ (Ddl.removal (l.flatMap (Change.up upper))).columns ↔ ∃ o, .dropColumn t c o ∈ l := by
  simp only [removal_flatMap, removal_up, List.mem_flatMap]
  constructor
  · rintro ⟨ch, hch, hk⟩
    cases ch with
    | dropColumn t' c' o =>
      obtain ⟨rfl, rfl⟩ := Prod.mk.inj (List.mem_singleton.1 hk)
      exact ⟨o, hch⟩
    | _ => cases hk
  · rintro ⟨o, ho⟩
    exact ⟨_, ho, List.mem_singleton.2 rfl⟩

private theorem mem_removal_indexes {n : String} : n ∈ (Ddl.removal (l.flatMap (Change.up upper))).indexes ↔
    ∃ t i, .dropIndex t i ∈ l ∧ n = indexName t i.columns := by
  simp only [removal_flatMap, removal_up, List.mem_flatMap]
  constructor
  · rintro ⟨ch, hch, hn⟩
    cases ch with
    | dropIndex t i => exact ⟨t, i, hch, List.mem_singleton.1 hn⟩
    | _ => cases hn
  · rintro ⟨t, i, hi, rfl⟩
    exact ⟨_, hi, List.mem_singleton.2 rfl⟩

theorem mem_removal_foreignKeys {k : String × String} : k ∈ (Ddl.removal (l.flatMap (Change.up upper))).foreignKeys ↔
    ∃ t r rel, .dropFK t r rel ∈ l ∧ k = (t, fkName t r) := by
  simp only [removal_flatMap, removal_up, List.mem_flatMap]
  constructor
  · rintro ⟨ch, hch, hk⟩
    cases ch with
    | dropFK t r rel => exact ⟨t, r, rel, hch, List.mem_singleton.1 hk⟩
    | _ => cases hk
  · rintro ⟨t, r, rel, hrel, rfl⟩
    exact ⟨_, hrel, List.mem_singleton.2 rfl⟩

end Removal

/-- What an up script removes. -/
def removed (upper : String → String) (changes : List Change) : Removal :=
  Ddl.removal ((removals changes).flatMap (Change.up upper))

section Removed

variable {old new : Models} {changes : List Change} (hperm : changes.Perm (diffModels old new))

include hperm

theorem mem_removed_tables {t : String} : t ∈ (removed upper changes).tables ↔ ∃ m, Dropped old new t m := by
  simp only [removed, mem_removal_tables, mem_removals, mem_changes hperm]
  constructor
  · rintro ⟨m, hd, -⟩
    cases hd with
    | dropTable hm => exact ⟨m, hm⟩
  · rintro ⟨m, hm⟩
    exact ⟨m, .dropTable hm, by simp [Change.order]⟩

theorem mem_removed_columns {t c : String} :
    (t, c) ∈ (removed upper changes).columns ↔ ∃ o, Difference old new (.dropColumn t c o) := by
  simp only [removed, mem_removal_columns, mem_removals, mem_changes hperm]
  exact exists_congr fun o => and_iff_left (by simp [Change.order])

theorem mem_removed_indexes {n : String} : n ∈ (removed upper changes).indexes ↔
    ∃ t i, Difference old new (.dropIndex t i) ∧ n = indexName t i.columns := by
  simp only [removed, mem_removal_indexes, mem_removals, mem_changes hperm]
  exact exists_congr fun t => exists_congr fun i => and_congr_left fun _ => and_iff_left (by simp [Change.order])

theorem mem_removed_foreignKeys {k : String × String} : k ∈ (removed upper changes).foreignKeys ↔
    ∃ t r rel, Difference old new (.dropFK t r rel) ∧ k = (t, fkName t r) := by
  simp only [removed, mem_removal_foreignKeys, mem_removals, mem_changes hperm]
  exact exists_congr fun t => exists_congr fun r => exists_congr fun rel => and_congr_left fun _ =>
    and_iff_left (by simp [Change.order])

end Removed

end Noda.Generate
