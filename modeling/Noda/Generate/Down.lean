import Noda.Generate.Undone

/-!
# The down script

The down script leads back to the old schema (`down_undoes_up`) if the removals of the up script can be made up for one
after the other, in the order in which they were made: what is removed together must not depend on each other, and
nothing may be removed that the script does not mention.
-/

namespace Noda.Generate

open Ddl

variable (upper : String → String) (old new : Models)

/-- The removals of the up script are made up for by the down script. -/
structure Reversible : Prop where
  old_ok : old.WellFormed
  /-- `timestamps` and `soft_delete` are not turned off -/
  implied : ∀ t mo mn, Kept old new t mo mn → ∀ e ∈ impliedColumns mo, e ∈ impliedColumns mn
  /-- a dropped column is not part of a primary key, and neither an index nor a foreign key involves it -/
  columns : ∀ t mo mn, Kept old new t mo mn → ∀ c col, mo.columns.lookup c = some col → c ∉ mn.columns →
    col.primaryKey = false ∧ (∀ i ∈ mo.indexes, c ∉ i.columns) ∧ ∀ k fk, (old.schemaOf upper).foreignKeys k = some fk →
      (k.1, fk.column) ≠ (t, c) ∧ (fk.refTable, fk.refColumn) ≠ (t, c)
  /-- no index of a dropped table is listed twice -/
  indexes : ∀ t m, Dropped old new t m → m.indexes.Nodup
  /-- no other table refers to a dropped table -/
  tables : ∀ t m, Dropped old new t m → ∀ k fk, (old.schemaOf upper).foreignKeys k = some fk → fk.refTable = t → k.1 = t
  /-- a created table brings no junction table with it -/
  junctions : ∀ t m, Created old new t m → ∀ j ∈ junctions m, (old.schemaOf upper).taken j.name = true ∨
    ∃ t' m', Created old new t' m' ∧ (j.name = t' ∨ j.name ∈ (tableIndexes m').map Prod.fst)
  /-- no junction table of a dropped table is created again in the place of another table or of an index -/
  dropped_junctions : ∀ t m, Dropped old new t m → ∀ j ∈ Generate.junctions m, ∀ t' m', Dropped old new t' m' →
    t' ≠ t → j.name ≠ t' ∧ j.name ∉ (tableIndexes m').map Prod.fst
  /-- a column of a primary key does not become `not_null` -/
  not_null : ∀ t mo mn, Kept old new t mo mn → ∀ c o n, mo.columns.lookup c = some o → mn.columns.lookup c = some n →
    o.primaryKey = true → o.notNull = false → n.notNull = false

variable {upper old new} {t c n r : String} {m mo mn : ModelDef} {changes : List Change} {S' : Schema}

/-! ### Additions -/

theorem Reversible.pending (h : Reversible upper old new) (hperm : changes.Perm (diffModels old new)) :
    Pending upper (old.schemaOf upper) (additions changes) := by
  have hmem : ∀ {ch}, ch ∈ additions changes ↔ Difference old new ch ∧ ch.order ≤ 4 := by
    intro ch
    rw [mem_additions hperm h.old_ok.columns, mem_changes hperm]
  refine ⟨h.old_ok.closed, fun ch hch => (hmem.1 hch).2, fun t c o n hch => ?_, ?_, fun t m hch j hj => ?_⟩
  · cases (hmem.1 hch).1 with
    | alterColumn hkept hold hnew hchanged =>
      refine ⟨?_, h.not_null t _ _ hkept c o n hold hnew⟩
      rw [old.columns_of_lookup hkept.old, column_eq, hold]
      rfl
  · have hgroup : ∀ k, (group k changes).Pairwise fun a b => a.order = 2 → b.order = 2 → a.key ≠ b.key := by
      intro k
      refine ((sorted_apart hperm h.old_ok.columns).filter _).imp fun {a b} hapart ha hb hkey => ?_
      have hone := (hapart (ha.trans hb.symm) hkey).1
      omega
    simp only [additions, List.pairwise_append, hgroup, true_and, List.mem_append, mem_group, List.mem_map]
    refine ⟨List.pairwise_map.2 (List.pairwise_of_forall fun _ _ ha => ?_), ⟨⟨?_, ?_⟩, ?_⟩, ?_⟩
    · cases ha
    · omega
    · omega
    · omega
    · rintro a ⟨e, -, rfl⟩ b - ha
      cases ha
  · cases (hmem.1 hch).1 with
    | createTable hcreated =>
      rcases h.junctions t m hcreated j hj with htaken | ⟨t', m', hcreated', hname⟩
      · exact .inl htaken
      · rw [← new.table_eq t' m' hcreated'.new] at hname
        obtain ⟨st, hst, hst'⟩ := exists_name upper hname
        refine .inr ⟨st, List.mem_flatMap.2 ⟨_, hmem.2 ⟨.createTable hcreated', Nat.zero_le 4⟩, ?_⟩, hst'⟩
        rw [Change.up, createTableSQL_eq]
        exact List.mem_append_left _ hst

/-- What undoes an addition does not mind what else is removed. -/
private theorem undo_undoes {ch : Change} {R : Removal} (hadds : ch.order ≤ 4)
    (htable : ch.order ≠ 0 → ch.key.1 ∉ R.tables)
    (hcolumn : ch.order = 1 ∨ ch.order = 2 → ch.key ∉ R.columns) : ∀ st ∈ ch.undo upper, st.Undoes R := by
  intro st hst
  cases ch with
  | createTable t m =>
    rw [List.mem_singleton.1 hst]
    trivial
  | addColumn t c col =>
    rw [List.mem_singleton.1 hst]
    exact ⟨htable (by simp [Change.order]), hcolumn (.inl rfl)⟩
  | alterColumn t c o n =>
    obtain ⟨a, -, rfl⟩ := List.mem_map.1 hst
    exact ⟨htable (by simp [Change.order]), hcolumn (.inr rfl)⟩
  | addIndex t i =>
    rw [List.mem_singleton.1 hst]
    trivial
  | addFK t r rel =>
    rw [List.mem_singleton.1 hst]
    exact htable (by simp [Change.order])
  | _ => exact absurd hadds (by simp [Change.order])

/-- A change other than of a whole table is of a table in both sets. -/
theorem Difference.kept {ch : Change} (h : Difference old new ch) (h0 : ch.order ≠ 0) (h8 : ch.order ≠ 8) :
    ∃ mo mn, Kept old new ch.key.1 mo mn := by
  cases h with
  | createTable h => exact absurd rfl h0
  | dropTable h => exact absurd rfl h8
  | addColumn h => exact ⟨_, _, h⟩
  | addImplied h => exact ⟨_, _, h⟩
  | dropColumn h => exact ⟨_, _, h⟩
  | dropImplied h => exact ⟨_, _, h⟩
  | alterColumn h => exact ⟨_, _, h⟩
  | addIndex h => exact ⟨_, _, h⟩
  | dropIndex h => exact ⟨_, _, h⟩
  | addFK h => exact ⟨_, _, h⟩
  | dropFK h => exact ⟨_, _, h⟩

namespace Reversible

variable (h : Reversible upper old new) (hperm : changes.Perm (diffModels old new))

include h

theorem dropColumn {o : Option ColumnDef} (hd : Difference old new (.dropColumn t c o)) :
    ∃ mo mn col, Kept old new t mo mn ∧ mo.columns.lookup c = some col ∧ c ∉ mn.columns ∧ o = some col := by
  cases hd with
  | dropColumn hkept hold hnew => exact ⟨_, _, _, hkept, hold, hnew, rfl⟩
  | dropImplied hkept hold hnew => exact absurd (h.implied t _ _ hkept _ hold) hnew

include hperm

private theorem removed_columns (hc : (t, c) ∈ (removed upper changes).columns) : ∃ mo mn col, Kept old new t mo mn ∧
    mo.columns.lookup c = some col ∧ c ∉ mn.columns ∧
      (old.schemaOf upper).columns (t, c) = some (createdColumn upper col) := by
  obtain ⟨o, hd⟩ := (mem_removed_columns hperm).1 hc
  obtain ⟨mo, mn, col, hkept, hold, hnew, -⟩ := h.dropColumn hd
  refine ⟨mo, mn, col, hkept, hold, hnew, ?_⟩
  rw [old.columns_of_lookup hkept.old, column_eq, hold]
  rfl

omit h in
private theorem kept_not_removed (hkept : Kept old new t mo mn) : t ∉ (removed upper changes).tables := by
  rw [mem_removed_tables hperm]
  rintro ⟨m, hdropped⟩
  exact hdropped.new (AList.mem_of_lookup hkept.new)

private theorem undo_additions {T : Schema}
    (hrun : Runs (old.schemaOf upper) ((additions changes).flatMap (Change.up upper)) T) :
    Runs (T.remove (removed upper changes)) ((additions changes).reverse.flatMap (Change.undo upper))
      ((old.schemaOf upper).remove (removed upper changes)) := by
  have hundo := (h.pending hperm).undo hrun
  have hmem : ∀ {ch}, ch ∈ (additions changes).reverse ↔ Difference old new ch ∧ ch.order ≤ 4 := by
    intro ch
    rw [List.mem_reverse, mem_additions hperm h.old_ok.columns, mem_changes hperm]
  refine hundo.remove fun st hst => ?_
  obtain ⟨ch, hch, hst⟩ := List.mem_flatMap.1 hst
  obtain ⟨hd, hadds⟩ := hmem.1 hch
  refine undo_undoes hadds (fun h0 => ?_) (fun horder hcol => ?_) st hst
  · obtain ⟨mo, mn, hkept⟩ := hd.kept h0 (by omega)
    exact kept_not_removed hperm hkept
  · -- an added column is gone in the end
    have hadded : ∀ {t c col}, .addColumn t c col ∈ (additions changes).reverse →
        (t, c) ∉ (removed upper changes).columns := by
      intro t c col hch hcol
      obtain ⟨mo, mn, col', -, -, -, hsome⟩ := h.removed_columns hperm hcol
      refine Option.some_ne_none _ (hsome.symm.trans (hundo.columns_none (fun st hst => ?_) (.inr ?_)))
      · obtain ⟨ch, hch, hst⟩ := List.mem_flatMap.1 hst
        exact undo_undoes (hmem.1 hch).2 (fun _ => List.not_mem_nil) (fun _ => List.not_mem_nil) st hst
      · exact List.mem_flatMap.2 ⟨_, hch, List.mem_singleton.2 rfl⟩
    cases hd with
    | addColumn _ _ _ => exact hadded hch hcol
    | addImplied _ _ _ => exact hadded hch hcol
    | alterColumn hkept' _ hnew' _ =>
      obtain ⟨mo, mn, col, hkept, -, hnew, -⟩ := h.removed_columns hperm hcol
      obtain rfl := Option.some.inj (hkept.new.symm.trans hkept'.new)
      exact hnew (AList.mem_of_lookup hnew')
    | _ => simp [Change.order] at horder

end Reversible

/-! ### Removals -/

private theorem up_drops {ch : Change} (h : 4 < ch.order) : ∀ st ∈ ch.up upper, ¬st.Adds := by
  intro st hst
  cases ch with
  | dropTable | dropColumn | dropIndex | dropFK =>
    rw [List.mem_singleton.1 hst]
    exact id
  | _ => exact absurd h (by simp [Change.order])

/-- The old schema without the dropped tables. -/
def remaining (upper : String → String) (old : Models) (changes : List Change) : Schema :=
  (old.schemaOf upper).remove { tables := (removed upper changes).tables }

namespace Reversible

variable (h : Reversible upper old new) (hperm : changes.Perm (diffModels old new))

include h hperm

theorem index_columns {idx : Index} (hidx : (old.schemaOf upper).indexes n = some idx) :
    ∀ c ∈ idx.columns, (idx.table, c) ∉ (removed upper changes).columns := by
  intro c hc hremoved
  obtain ⟨m, hm, i, hi, -, rfl⟩ := old.mem_indexes.1 (h.old_ok.indexes_eq_some.1 hidx)
  obtain ⟨mo, mn, col, hkept, hold, hnew, -⟩ := h.removed_columns hperm hremoved
  obtain rfl := Option.some.inj ((old.mem_models.1 hm).symm.trans hkept.old)
  exact (h.columns _ m mn hkept c col hold hnew).2.1 i hi hc

private theorem fk_columns {k : String × String} {fk : ForeignKey}
    (hfk : (old.schemaOf upper).foreignKeys k = some fk) :
    (k.1, fk.column) ∉ (removed upper changes).columns ∧
      (fk.refTable, fk.refColumn) ∉ (removed upper changes).columns := by
  constructor
  · intro hremoved
    obtain ⟨mo, mn, col, hkept, hold, hnew, -⟩ := h.removed_columns hperm hremoved
    exact ((h.columns _ mo mn hkept _ col hold hnew).2.2 k fk hfk).1 rfl
  · intro hremoved
    obtain ⟨mo, mn, col, hkept, hold, hnew, -⟩ := h.removed_columns hperm hremoved
    exact ((h.columns _ mo mn hkept _ col hold hnew).2.2 k fk hfk).2 rfl

private theorem fk_tables {k : String × String} {fk : ForeignKey} (hfk : (old.schemaOf upper).foreignKeys k = some fk)
    (hdropped : fk.refTable ∈ (removed upper changes).tables) : k.1 = fk.refTable := by
  obtain ⟨m, hm⟩ := (mem_removed_tables hperm).1 hdropped
  exact h.tables _ m hm k fk hfk rfl

private theorem not_losesKey (t : String) : (old.schemaOf upper).losesKey (removed upper changes) t = false := by
  rw [← Bool.not_eq_true, Schema.losesKey_eq_true]
  rintro ⟨⟨t, c⟩, hc, -, hkey⟩
  obtain ⟨mo, mn, col, hkept, hold, hnew, hsome⟩ := h.removed_columns hperm hc
  have hcol := (h.columns t mo mn hkept c col hold hnew).1
  simp [Schema.isKey, hsome, createdColumn, hcol] at hkey

private theorem redo_foreignKeys :
    Runs ((old.schemaOf upper).remove (removed upper changes)) ((group 5 changes).flatMap (Change.redo upper))
      { (old.schemaOf upper).remove (removed upper changes) with
        foreignKeys := (remaining upper old changes).foreignKeys } := by
  have hmem : ∀ e ∈ group 5 changes, ∃ t r rel mo mn, e = .dropFK t r rel ∧ Difference old new e ∧
      Kept old new t mo mn ∧ (old.schemaOf upper).foreignKeys (t, fkName t r) = some rel.constraint := by
    intro e he
    obtain ⟨hch, horder⟩ := mem_group.1 he
    cases (mem_changes hperm).1 hch with
    | dropFK hkept hold htype hnew =>
      exact ⟨_, _, _, _, _, rfl, .dropFK hkept hold htype hnew, hkept,
        (old.foreignKeys_eq_some hkept.old).2 ⟨_, _, hold, htype, rfl, rfl⟩⟩
    | _ => cases horder
  refine runs_updates (fun g => { (old.schemaOf upper).remove (removed upper changes) with foreignKeys := g })
    Change.fkKey (fun e => (remaining upper old changes).foreignKeys e.fkKey)
    (nodup_fkKeys (nodup_group hperm h.old_ok.columns (by simp)) ?_) (fun e he g hg => ?_)
      (fun e he => rfl) fun k hk => ?_
  · intro e he
    obtain ⟨t, r, rel, -, -, rfl, -⟩ := hmem e he
    exact ⟨t, r, rel, .inr rfl⟩
  · obtain ⟨t, r, rel, mo, mn, rfl, hd, hkept, hfk⟩ := hmem e he
    obtain ⟨hcol, href⟩ := h.old_ok.closed.foreignKeys _ _ hfk
    obtain ⟨hcol', href'⟩ := h.fk_columns hperm hfk
    have ht : t ∉ (removed upper changes).tables := kept_not_removed hperm hkept
    have htable : rel.table ∉ (removed upper changes).tables := by
      intro hdropped
      have hself : t = rel.table := h.fk_tables hperm hfk hdropped
      exact ht (hself ▸ hdropped)
    have hremoved : (t, fkName t r) ∈ (removed upper changes).foreignKeys :=
      (mem_removed_foreignKeys hperm).2 ⟨t, r, rel, hd, rfl⟩
    have hback : (remaining upper old changes).foreignKeys (t, fkName t r) = some rel.constraint := by
      simp [remaining, Schema.remove, hfk, Option.filter, ht, RelDef.constraint, htable]
    refine ⟨⟨hg.trans ?_, ?_, ?_⟩, ?_⟩
    · simp [Change.fkKey, hremoved]
    · exact columns_remove _ hcol ht hcol'
    · exact columns_remove _ href htable href'
    · simp only [Runs, Stmt.apply, Change.fkKey, hback]
  · have hnot : k ∉ (removed upper changes).foreignKeys := by
      rw [mem_removed_foreignKeys hperm]
      rintro ⟨t, r, rel, hd, rfl⟩
      exact hk (List.mem_map.2 ⟨_, mem_group.2 ⟨(mem_changes hperm).2 hd, rfl⟩, rfl⟩)
    cases hfk : (old.schemaOf upper).foreignKeys k with
    | none => simp [remaining, Schema.remove, hfk]
    | some fk =>
      obtain ⟨hcol, href⟩ := h.fk_columns hperm hfk
      simp [remaining, Schema.remove, hfk, Option.filter, hnot, hcol, href]

private theorem redo_indexes :
    Runs { (old.schemaOf upper).remove (removed upper changes) with
        foreignKeys := (remaining upper old changes).foreignKeys }
      ((group 6 changes).flatMap (Change.redo upper))
      { (old.schemaOf upper).remove (removed upper changes) with
        indexes := (remaining upper old changes).indexes
        foreignKeys := (remaining upper old changes).foreignKeys } := by
  have hmem : ∀ e ∈ group 6 changes, ∃ t i mo mn, e = .dropIndex t i ∧ Difference old new e ∧
      Kept old new t mo mn ∧ i ∈ mo.indexes := by
    intro e he
    obtain ⟨hch, horder⟩ := mem_group.1 he
    cases (mem_changes hperm).1 hch with
    | dropIndex hkept hold hnew =>
      exact ⟨_, _, _, _, rfl, .dropIndex hkept hold hnew, hkept, (lookup_indexSet hold).1⟩
    | _ => cases horder
  refine runs_updates (fun g => { (old.schemaOf upper).remove (removed upper changes) with
      indexes := g
      foreignKeys := (remaining upper old changes).foreignKeys })
    Change.indexName (fun e => (remaining upper old changes).indexes e.indexName)
    (nodup_indexNames h.old_ok (nodup_group hperm h.old_ok.columns (by simp)) ?_) (fun e he g hg => ?_)
      (fun e he => rfl)
    fun n hn => ?_
  · intro e he
    obtain ⟨t, i, mo, mn, rfl, -, hkept, hi⟩ := hmem e he
    exact ⟨t, i, mo, .inr rfl, hkept.old, hi⟩
  · obtain ⟨t, i, mo, mn, rfl, hd, hkept, hi⟩ := hmem e he
    have hidx : (old.schemaOf upper).indexes (Generate.indexName t i.columns) = some (i.index t) :=
      h.old_ok.indexes_of_mem hkept.old hi
    obtain ⟨htable, hcols⟩ := h.old_ok.closed.indexes _ _ hidx
    have ht : t ∉ (removed upper changes).tables := kept_not_removed hperm hkept
    have hremoved : Generate.indexName t i.columns ∈ (removed upper changes).indexes :=
      (mem_removed_indexes hperm).2 ⟨t, i, hd, rfl⟩
    have hback : (remaining upper old changes).indexes (Generate.indexName t i.columns) = some (i.index t) := by
      simp [remaining, Schema.remove, hidx, Option.filter, ht, IndexDef.index]
    refine ⟨⟨?_, ?_, ?_, fun c hc => ?_⟩, ?_⟩
    · have hnot : (old.schemaOf upper).tables (Generate.indexName t i.columns) = false :=
        h.old_ok.not_table_of_index (h.old_ok.indexes_eq_some.1 hidx)
      simp only [Change.indexName] at hg
      simp [Schema.taken, hg, Schema.remove, hnot, hremoved]
    · have htable' : (old.schemaOf upper).tables t = true := htable
      simp [Schema.remove, htable', ht, IndexDef.index]
    · exact (h.old_ok.index_columns mo (old.mem_models_of_lookup hkept.old) i hi).1
    · exact columns_remove _ (hcols c hc) ht (h.index_columns hperm hidx c hc)
    · simp only [Runs, Stmt.apply, Change.indexName, hback]
  · have hnot : n ∉ (removed upper changes).indexes := by
      rw [mem_removed_indexes hperm]
      rintro ⟨t, i, hd, rfl⟩
      exact hn (List.mem_map.2 ⟨_, mem_group.2 ⟨(mem_changes hperm).2 hd, rfl⟩, rfl⟩)
    cases hidx : (old.schemaOf upper).indexes n with
    | none => simp [remaining, Schema.remove, hidx]
    | some idx =>
      have hcols := h.index_columns hperm hidx
      by_cases ht : idx.table ∈ (removed upper changes).tables
      · simp [remaining, Schema.remove, hidx, Option.filter, ht]
      · simpa [remaining, Schema.remove, hidx, Option.filter, ht, hnot] using hcols

private theorem redo_columns :
    Runs { (old.schemaOf upper).remove (removed upper changes) with
        indexes := (remaining upper old changes).indexes
        foreignKeys := (remaining upper old changes).foreignKeys }
      ((group 7 changes).flatMap (Change.redo upper)) (remaining upper old changes) := by
  have hmem : ∀ e ∈ group 7 changes, ∃ t c mo mn col, e = .dropColumn t c (some col) ∧ Difference old new e ∧
      Kept old new t mo mn ∧ mo.columns.lookup c = some col ∧ c ∉ mn.columns := by
    intro e he
    obtain ⟨hch, horder⟩ := mem_group.1 he
    cases (mem_changes hperm).1 hch with
    | dropColumn hkept hold hnew => exact ⟨_, _, _, _, _, rfl, .dropColumn hkept hold hnew, hkept, hold, hnew⟩
    | dropImplied hkept hold hnew => exact absurd (h.implied _ _ _ hkept _ hold) hnew
    | _ => cases horder
  refine runs_updates (fun g => { remaining upper old changes with columns := g })
    Change.key (fun e => (remaining upper old changes).columns e.key)
    (nodup_group hperm h.old_ok.columns (by simp)) (fun e he g hg => ?_) (fun e he => rfl) fun k hk => ?_
  · obtain ⟨t, c, mo, mn, col, rfl, hd, hkept, hold, hnew⟩ := hmem e he
    have ht : t ∉ (removed upper changes).tables := kept_not_removed hperm hkept
    have hremoved : (t, c) ∈ (removed upper changes).columns := (mem_removed_columns hperm).2 ⟨_, hd⟩
    have hkey := (h.columns t mo mn hkept c col hold hnew).1
    have hback : (remaining upper old changes).columns (t, c) = some (addedColumn upper col) := by
      simp only [remaining, Schema.remove, losesKey_tables, ht, List.not_mem_nil, or_self, if_false, Bool.false_eq_true]
      rw [old.columns_of_lookup hkept.old, column_eq, hold]
      simp [createdColumn, addedColumn, hkey]
    refine ⟨⟨?_, hg.trans ?_⟩, ?_⟩
    · simp [remaining, Schema.remove, old.tables_of_lookup hkept.old, ht]
    · simp [Schema.remove, Change.key, hremoved]
    · simp only [Runs, Stmt.apply, Change.key, hback]
  · have hnot : k ∉ (removed upper changes).columns := by
      obtain ⟨t, c⟩ := k
      rw [mem_removed_columns hperm]
      rintro ⟨o, hd⟩
      exact hk (List.mem_map.2 ⟨_, mem_group.2 ⟨(mem_changes hperm).2 hd, rfl⟩, rfl⟩)
    simp [Schema.remove, losesKey_tables, h.not_losesKey hperm, hnot]

omit h hperm in
/-- One more table that is there again. -/
private theorem addTable_remove (hold : old.WellFormed) (hm : old.map.lookup t = some m) {Z Z' : List String}
    (hZ : ∀ x, x ∈ Z ↔ x = t ∨ x ∈ Z') (ht : t ∉ Z')
    (hrefs : ∀ k fk, (old.schemaOf upper).foreignKeys k = some fk → fk.refTable ∈ Z → k.1 = fk.refTable) :
    addTable upper ((old.schemaOf upper).remove { tables := Z }) m = (old.schemaOf upper).remove { tables := Z' } := by
  obtain rfl := old.table_eq t m hm
  ext k v
  · by_cases hk : k = m.table
    · subst hk
      simp [addTable, Schema.remove, old.tables_of_lookup hm, ht]
    · simp [addTable, Schema.remove, hZ, hk]
  · obtain ⟨t, c⟩ := k
    by_cases hk : t = m.table
    · subst hk
      simp [addTable, Schema.remove, losesKey_tables, ht, old.columns_of_lookup hm, lookup_tableColumns]
    · simp [addTable, Schema.remove, losesKey_tables, hZ, hk]
  · have hlookup := fun i => hold.tableIndexes_lookup upper hm (n := k) (i := i)
    simp only [addTable, Schema.remove, Option.filter_eq_some_iff, decide_eq_true_eq, List.not_mem_nil,
      not_false_eq_true, implies_true, and_true, true_and]
    cases hi : (tableIndexes m).lookup k with
    | some i =>
      obtain ⟨hidx, htable⟩ := (hlookup i).1 hi
      simp only [Option.some_or, hidx, Option.some.injEq]
      refine ⟨?_, And.left⟩
      rintro rfl
      exact ⟨rfl, htable ▸ ht⟩
    | none =>
      simp only [Option.none_or, Option.filter_eq_some_iff, decide_eq_true_eq, hZ, not_or]
      refine and_congr_right fun hidx => and_iff_right fun htable => ?_
      exact Option.some_ne_none _ (((hlookup v).2 ⟨hidx, htable⟩).symm.trans hi)
  · obtain ⟨t, n⟩ := k
    simp only [addTable, Schema.remove]
    by_cases hk : t = m.table
    · subst hk
      have hfks : (old.schemaOf upper).foreignKeys (m.table, n) = (tableForeignKeys m).lookup n :=
        old.foreignKeys_of_lookup hm n
      rw [if_pos rfl, ← hfks, Option.filter_eq_some_iff]
      refine ⟨fun hfk => ⟨hfk, ?_⟩, And.left⟩
      have hself : v.refTable ∉ Z' := by
        intro hZ'
        have he : m.table = v.refTable := hrefs _ v hfk ((hZ _).2 (.inr hZ'))
        exact ht (he ▸ hZ')
      simp [ht, hself]
    · rw [if_neg hk]
      simp only [Option.filter_eq_some_iff, decide_eq_true_eq, List.not_mem_nil, not_false_eq_true, and_true, true_and,
        hZ, hk, false_or, not_or]
      refine and_congr_right fun hfk => and_congr_right fun _ => and_iff_right fun he => ?_
      exact hk ((hrefs _ v hfk ((hZ _).2 (.inl he))).trans he)

omit hperm in
/-- What a junction table of a dropped table is named after is there, once the table is there again. -/
private theorem junction_taken (hdropped : Dropped old new t m) {Z : List String} (ht : t ∉ Z)
    (hsub : ∀ x ∈ Z, ∃ m', Dropped old new x m') {j : Junction} (hj : j ∈ Generate.junctions m) :
    ((old.schemaOf upper).remove { tables := Z }).taken j.name = true := by
  have hother : ∀ {x}, x ∈ Z → ∃ m', old.map.lookup x = some m' ∧ j.name ≠ x ∧
      j.name ∉ (tableIndexes m').map Prod.fst := by
    intro x hx
    obtain ⟨m', hm'⟩ := hsub x hx
    exact ⟨m', hm'.old, h.dropped_junctions t m hdropped j hj x m' hm' fun he => ht (he ▸ hx)⟩
  have hnot : j.name ∉ Z := fun hZ => (hother hZ).choose_spec.2.1 rfl
  rcases old.junction_cases (old.mem_models_of_lookup hdropped.old) hj with hmap | ⟨i, hi⟩ | ⟨j', hj'⟩
  · obtain ⟨mo, hmo⟩ := AList.exists_lookup_of_mem hmap
    simp [Schema.taken, Schema.remove, old.tables_of_lookup hmo, hnot]
  · have hindex : (old.schemaOf upper).indexes j.name = some i := h.old_ok.indexes_eq_some.2 hi
    have htable : i.table ∉ Z := by
      intro hZ
      obtain ⟨m', hm', -, hname⟩ := hother hZ
      have hlookup := (h.old_ok.tableIndexes_lookup upper hm').2 ⟨hindex, rfl⟩
      exact hname (List.mem_map_of_mem (Assoc.mem_of_lookup hlookup))
    simp [Schema.taken, Schema.remove, hindex, Option.filter, htable]
  · simp [Schema.taken, Schema.remove, old.tables_of_junction hj', hnot]

private theorem redo_table (hdropped : Dropped old new t m) {Z Z' : List String} (hZ : ∀ x, x ∈ Z ↔ x = t ∨ x ∈ Z')
    (ht : t ∉ Z')
    (hsub : ∀ x ∈ Z, x ∈ (removed upper changes).tables) :
    Runs ((old.schemaOf upper).remove { tables := Z }) (Change.redo upper (.dropTable t m))
      ((old.schemaOf upper).remove { tables := Z' }) := by
  have hrefs : ∀ k fk, (old.schemaOf upper).foreignKeys k = some fk → fk.refTable ∈ Z → k.1 = fk.refTable :=
    fun k fk hfk hfkZ => h.fk_tables hperm hfk (hsub _ hfkZ)
  have hmodel := old.mem_models_of_lookup hdropped.old
  have htZ : t ∈ Z := (hZ t).2 (.inl rfl)
  obtain rfl := old.table_eq t m hdropped.old
  have hindex : ∀ {n idx}, (n, idx) ∈ old.indexes → (old.schemaOf upper).tables n = false :=
    fun hidx => h.old_ok.not_table_of_index hidx
  have hjunctions : Runs ((old.schemaOf upper).remove { tables := Z' }) ((Generate.junctions m).map junctionSQL)
      ((old.schemaOf upper).remove { tables := Z' }) := by
    refine runs_skipped fun j hj => h.junction_taken hdropped ht (fun x hx => ?_) hj
    exact (mem_removed_tables hperm).1 (hsub x ((hZ x).2 (.inr hx)))
  rw [Change.redo, createTableSQL_eq]
  refine Runs.append ?_ hjunctions
  rw [← addTable_remove h.old_ok hdropped.old hZ ht hrefs]
  refine runs_tableSQL h.old_ok hmodel (h.indexes _ m hdropped) ?_ (fun n => ?_) (fun i hi => ?_)
    fun r rel hrel htype => ?_
  · cases hidx : (old.schemaOf upper).indexes m.table with
    | none => simp [Schema.taken, Schema.remove, htZ, hidx]
    | some idx =>
      have hnot := hindex (h.old_ok.indexes_eq_some.1 hidx)
      rw [old.tables_of_lookup hdropped.old] at hnot
      cases hnot
  · simp [Schema.remove, htZ]
  · have hmem : i ∈ old.indexes := List.mem_flatMap.2 ⟨m, hmodel, hi⟩
    have hidx : (old.schemaOf upper).indexes i.1 = some i.2 := h.old_ok.indexes_eq_some.2 hmem
    obtain ⟨d, -, rfl⟩ := List.mem_map.1 hi
    simp [Schema.taken, Schema.remove, hindex hmem, hidx, Option.filter, IndexDef.index, htZ]
  · by_cases htable : rel.table ∈ Z
    · left
      have hfk : (old.schemaOf upper).foreignKeys (m.table, fkName m.table r) = some rel.constraint :=
        (old.foreignKeys_eq_some hdropped.old).2 ⟨r, rel, hrel, htype, rfl, rfl⟩
      exact (hrefs _ _ hfk htable).symm
    · right
      have hid := (h.old_ok.references m hmodel (r, rel) (AList.mem_toPairs.2 hrel) htype).2
      exact columns_remove _ (old.columns_of_hasId hid) htable List.not_mem_nil

private theorem redo_tables :
    Runs (remaining upper old changes) ((group 8 changes).flatMap (Change.redo upper)) (old.schemaOf upper) := by
  have hmem : ∀ e ∈ group 8 changes, ∃ t m, e = .dropTable t m ∧ Dropped old new t m := by
    intro e he
    obtain ⟨hch, horder⟩ := mem_group.1 he
    cases (mem_changes hperm).1 hch with
    | dropTable hdropped => exact ⟨_, _, rfl, hdropped⟩
    | _ => cases horder
  have hnodup := nodup_group (k := 8) hperm h.old_ok.columns (by simp)
  -- the tables that are still missing after some of the changes
  let missing (before : List Change) : List String :=
    (removed upper changes).tables.filter fun t => (t, "") ∉ before.map Change.key
  have hparts := runs_parts (L := group 8 changes)
      (fun before => (old.schemaOf upper).remove { tables := missing before })
    (Change.redo upper) fun before e after hL => ?_
  · have hnil : missing [] = (removed upper changes).tables := by simp [missing]
    have hall : missing (group 8 changes) = [] := by
      simp only [missing, List.filter_eq_nil_iff, decide_eq_true_eq, not_not]
      intro t ht
      obtain ⟨m, hm⟩ := (mem_removed_tables hperm).1 ht
      exact List.mem_map.2 ⟨_, mem_group.2 ⟨(mem_changes hperm).2 (.dropTable hm), rfl⟩, rfl⟩
    rw [hnil, hall] at hparts
    rwa [(old.schemaOf upper).remove_nil] at hparts
  · obtain ⟨t, m, rfl, hdropped⟩ := hmem e (by simp [hL])
    have htbefore : (t, "") ∉ before.map Change.key := by
      rw [hL, List.map_append, List.nodup_append] at hnodup
      intro ht
      exact hnodup.2.2 _ ht _ List.mem_cons_self rfl
    refine h.redo_table hperm hdropped (fun x => ?_) ?_ fun x hx => List.mem_of_mem_filter hx
    · have ht : t ∈ (removed upper changes).tables := (mem_removed_tables hperm).2 ⟨m, hdropped⟩
      simp only [missing, List.mem_filter, decide_eq_true_eq, List.map_append, List.mem_append, List.map_cons,
        List.map_nil, List.mem_singleton, Change.key, Prod.mk.injEq, and_true, not_or]
      by_cases hx : x = t
      · subst hx
        simpa [ht] using htbefore
      · simp [hx]
    · simp [missing, Change.key]

end Reversible

/-- The down script undoes the up script, in whatever order the changes are found. -/
theorem down_undoes_up (h : Reversible upper old new) : ∀ changes, changes.Perm (diffModels old new) →
    ∀ S', Runs (old.schemaOf upper) (changesToSQL upper changes).1 S' →
      Runs S' (changesToSQL upper changes).2 (old.schemaOf upper) := by
  intro changes hperm S' hrun
  rw [changesToSQL_eq hperm h.old_ok] at hrun ⊢
  obtain ⟨T, hadd, hremove⟩ := runs_append.1 hrun
  have hdrops : ∀ st ∈ (removals changes).flatMap (Change.up upper), ¬st.Adds := by
    intro st hst
    obtain ⟨ch, hch, hst⟩ := List.mem_flatMap.1 hst
    exact up_drops (mem_removals.1 hch).2 st hst
  obtain rfl : S' = T.remove (removed upper changes) := hremove.remove_eq hdrops
  refine (h.undo_additions hperm hadd).append ?_
  simp only [removals, List.flatMap_append]
  exact (((h.redo_foreignKeys hperm).append (h.redo_indexes hperm)).append (h.redo_columns hperm)).append
    (h.redo_tables hperm)

/-- Students are given nicknames. -/
private theorem school_reversible : Reversible id (school []) (school [nickname]) := by
  have hkeys : (school []).map.keys = (school [nickname]).map.keys := by decide +kernel
  refine ⟨school_wellFormed.1, fun t mo mn hk e he => ?_, fun t mo mn hk c col hcol hc => ?_,
    fun t m hd => absurd hd (not_dropped_of_keys hkeys), fun t m hd => absurd hd (not_dropped_of_keys hkeys),
    fun t m hc => absurd hc (not_created_of_keys hkeys), fun t m hd => absurd hd (not_dropped_of_keys hkeys),
    fun t mo mn hk c o n ho _ hkey hnull => ?_⟩
  · have hall : ∀ e ∈ (school []).map.toPairs, impliedColumns e.2 = [] := by decide +kernel
    rw [hall (t, mo) (AList.mem_toPairs.2 hk.old)] at he
    cases he
  · have hall : ∀ e ∈ (school []).map.toPairs, ∀ e' ∈ (school [nickname]).map.toPairs, e.1 = e'.1 →
        ∀ c ∈ e.2.columns.toPairs, c.1 ∈ e'.2.columns := by decide +kernel
    exact absurd (hall (t, mo) (AList.mem_toPairs.2 hk.old) (t, mn) (AList.mem_toPairs.2 hk.new) rfl (c, col)
      (AList.mem_toPairs.2 hcol)) hc
  · have hall : ∀ e ∈ (school []).map.toPairs, ∀ c ∈ e.2.columns.toPairs, c.2.notNull = true := by decide +kernel
    have hnull' := hall (t, mo) (AList.mem_toPairs.2 hk.old) (c, o) (AList.mem_toPairs.2 ho)
    exact absurd (hnull.symm.trans hnull') Bool.false_ne_true

theorem down_undoes_up_school :
    ∃ S', Runs ((school []).schemaOf id) (changesToSQL id (diffModels (school []) (school [nickname]))).1 S' ∧
      Runs S' (changesToSQL id (diffModels (school []) (school [nickname]))).2 ((school []).schemaOf id) := by
  have hscript : changesToSQL id (diffModels (school []) (school [nickname])) =
      ([.addColumn "students" "nickname" ⟨"TEXT", false, "", false⟩], [.dropColumn "students" "nickname"]) := by
    decide +kernel
  have hrun : Runs ((school []).schemaOf id) (changesToSQL id (diffModels (school []) (school [nickname]))).1
      ((Stmt.addColumn "students" "nickname" ⟨"TEXT", false, "", false⟩).apply ((school []).schemaOf id)) := by
    rw [hscript]
    exact ⟨⟨by decide +kernel, by decide +kernel⟩, rfl⟩
  exact ⟨_, hrun, down_undoes_up school_reversible _ (.refl _) _ hrun⟩

/-- The timestamps are turned off: the down script does not bring them back. -/
theorem down_not_undoes_up : (untitled true).WellFormed ∧ (untitled false).WellFormed ∧
    ∃ S', Runs ((untitled true).schemaOf id) (changesToSQL id (diffModels (untitled true) (untitled false))).1 S' ∧
      ¬Runs S' (changesToSQL id (diffModels (untitled true) (untitled false))).2 ((untitled true).schemaOf id) := by
  refine ⟨untitled_wellFormed true, untitled_wellFormed false, ?_⟩
  have hscript : changesToSQL id (diffModels (untitled true) (untitled false)) =
      ([.dropColumn "notes" "created_at", .dropColumn "notes" "updated_at"], []) := by decide +kernel
  have hfk : ∀ k, ((untitled true).schemaOf id).foreignKeys k = none := by
    rintro ⟨t, n⟩
    have hlookup : (untitled true).map.lookup t = if t = "notes" then some (notes [] true) else none :=
      GoMap.lookup_ofPairs_singleton _ _ _
    have hnone : (untitled true).junctions = [] := by decide +kernel
    simp only [Models.schemaOf, hlookup, junction_of_empty hnone]
    split_ifs <;> rfl
  rw [hscript]
  refine ⟨_, ⟨⟨by decide +kernel, fun k fk hk => ?_⟩, ⟨by decide +kernel, fun k fk hk => ?_⟩, rfl⟩, fun hrun => ?_⟩
  · rw [hfk] at hk
    cases hk
  · simp [Stmt.apply, Schema.remove, hfk] at hk
  · have hcolumns := congrArg (fun S : Schema => S.columns ("notes", "created_at")) (show _ = _ from hrun)
    simp only [Stmt.apply, Schema.remove] at hcolumns
    revert hcolumns
    decide +kernel

end Noda.Generate
