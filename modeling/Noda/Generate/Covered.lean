import Noda.Generate.Changes

/-!
# Covered differences

`Covered` says between which sets of models the up script leads.  `diffModels` compares the models part by part, and
misses some changes or finds them in an order that the script cannot follow: a primary key, the length of a column, an
index or a foreign key that is defined anew under its old name, a relation that becomes one of another kind, a junction
table of a model that is already there.
-/

namespace Noda.Generate

open Ddl

variable (upper : String → String) (old new : Models)

/-- The models of the created tables. -/
def created : List (String × ModelDef) := new.map.toPairs.filter fun e => e.1 ∉ old.map

/-- A relation of the created table of the model has created the junction table of that name before: one of its own
relations, `before`, or one of a table that it depends on. -/
def Earlier (t : String) (before : List Junction) (n : String) : Prop :=
  n ∈ before.map Junction.name ∨ ∃ t' m', Created old new t' m' ∧ t' ≠ t ∧
    TopoSort.Depends (deps (created old new)) t t' ∧ n ∈ (junctions m').map Junction.name

/-- The junction table `j` of a created table, after those of the relations `before` of the same table. -/
structure JunctionCovered (t : String) (before : List Junction) (j : Junction) : Prop where
  /-- the model of its name is there by then -/
  model : j.name ∈ new.map → j.name ∈ old.map ∨ j.name = t ∨ TopoSort.Depends (deps (created old new)) t j.name
  /-- the index of its name is there by then -/
  index : ∀ i, (j.name, i) ∈ new.indexes → (old.schemaOf upper).taken j.name = true ∨ i.table = t ∨
    TopoSort.Depends (deps (created old new)) t i.table
  /-- it is the junction table of the new schema, and what it refers to is there by then -/
  table : ∀ j', new.junction j.name = some j' → old.junction j.name = none → ¬Earlier old new t before j.name →
    j'.same j ∧ ∀ fk ∈ j.foreignKeys, fk.2.refTable = t ∨ old.hasId fk.2.refTable = true ∨
      TopoSort.Depends (deps (created old new)) t fk.2.refTable

/-- A created table has a free name, and what it refers to exists when it is created. -/
structure CreatedCovered (t : String) (m : ModelDef) : Prop where
  name : (old.schemaOf upper).taken t = false
  /-- no index is listed twice -/
  indexes : m.indexes.Nodup
  references : ∀ r rel, m.relations.lookup r = some rel → rel.type = "belongsTo" → rel.table ≠ t →
    if rel.table ∈ old.map then old.hasId rel.table = true else ¬TopoSort.Depends (deps (created old new)) rel.table t
  junctions : ∀ before j after, junctions m = before ++ j :: after → JunctionCovered upper old new t before j

def losesKey (mo mn : ModelDef) : Bool := mo.columns.toPairs.any fun e => e.2.primaryKey && decide (e.1 ∉ mn.columns)

/-- The foreign key of the relation disappears with what it involves. -/
def Vanishes (t : String) (mn : ModelDef) (rel : RelDef) : Prop :=
  rel.table ∉ new.map ∨ (rel.table = t ∧ (mn.column rel.foreignKey = none ∨ mn.column "id" = none)) ∨
    (mn.column rel.foreignKey = none ∧ new.hasId rel.table = true)

/-- The changes of a table that is in both sets. -/
structure KeptCovered (t : String) (mo mn : ModelDef) : Prop where
  /-- no implied column becomes a listed one -/
  listed : ∀ c ∈ mn.columns, c ∉ (impliedColumns mo).map Prod.fst
  /-- no listed column becomes an implied one -/
  implied : ∀ c ∈ mo.columns, c ∉ (impliedColumns mn).map Prod.fst
  added : ∀ c n, mn.columns.lookup c = some n → c ∉ mo.columns → n.primaryKey = false
  altered : ∀ c o n, mo.columns.lookup c = some o → mn.columns.lookup c = some n →
    n.primaryKey = (o.primaryKey && !losesKey mo mn) ∧ (o.type ≠ n.type ∨ postgresType upper o = postgresType upper n) ∧
      (o.primaryKey = true → n.notNull = true ∨ n.primaryKey = true ∧ o.notNull = false)
  indexes_added : ∀ i ∈ mn.indexes, i ∉ mo.indexes →
    (indexSet mn.indexes).lookup i.key = some i ∧ i.key ∉ indexSet mo.indexes
  /-- an index is dropped, or vanishes with one of its columns -/
  indexes_dropped : ∀ i ∈ mo.indexes, i ∉ mn.indexes → (∃ c ∈ i.columns, mn.column c = none) ∨
    (indexSet mo.indexes).lookup i.key = some i ∧ i.key ∉ indexSet mn.indexes
  relations : ∀ r o n, mo.relations.lookup r = some o → o.type = "belongsTo" → mn.relations.lookup r = some n →
    if n.type = "belongsTo" then sameFK (some o) n = true else Vanishes new t mn o

/-- The script leads from the schema of the old models to that of the new ones. -/
structure Covered : Prop where
  old_ok : old.WellFormed
  new_ok : new.WellFormed
  created : ∀ t m, Created old new t m → CreatedCovered upper old new t m
  kept : ∀ t mo mn, Kept old new t mo mn → KeptCovered upper new t mo mn
  /-- no dropped table refers to a column that is dropped -/
  dropped : ∀ t m, Dropped old new t m → ∀ r rel, m.relations.lookup r = some rel → rel.type = "belongsTo" →
    rel.table ∈ new.map → new.hasId rel.table = true
  /-- the name of an index that was not there is free -/
  index_names : ∀ t m, new.map.lookup t = some m → ∀ i ∈ m.indexes, (∀ mo, old.map.lookup t = some mo →
    i ∉ mo.indexes) → (old.schemaOf upper).taken (indexName t i.columns) = false
  /-- junction tables stay as they are -/
  junctions_kept : ∀ n j, old.junction n = some j → ∃ j', new.junction n = some j' ∧ j'.same j
  /-- the name of a junction table is free, or that of a junction table -/
  junction_names : ∀ n j, new.junction n = some j → (old.schemaOf upper).taken n = true → (old.junction n).isSome
  /-- a junction table comes with a created table -/
  junctions_created : ∀ n j, new.junction n = some j → old.junction n = none →
    ∃ t m, Created old new t m ∧ n ∈ (junctions m).map Junction.name

variable {upper old new} {t c n r : String} {mo mn m : ModelDef} {col o : ColumnDef}

/-! ### Columns -/

private theorem impliedColumns_unique {m m' : ModelDef} {col' : ColumnDef} (h : (c, col) ∈ impliedColumns m)
    (h' : (c, col') ∈ impliedColumns m') : col = col' := by
  simp only [mem_impliedColumns, Prod.mk.injEq] at h h'
  rcases h with ⟨-, ⟨rfl, rfl⟩ | ⟨rfl, rfl⟩⟩ | ⟨-, rfl, rfl⟩ <;> simp at h'
  · exact h'.2.symm
  · exact h'.2.symm
  · exact h'.2.symm

theorem impliedColumns_primaryKey (h : (c, col) ∈ impliedColumns m) : col.primaryKey = false := by
  simp only [mem_impliedColumns, Prod.mk.injEq] at h
  rcases h with ⟨-, ⟨-, rfl⟩ | ⟨-, rfl⟩⟩ | ⟨-, -, rfl⟩ <;> rfl

private theorem lookup_impliedColumns : (impliedColumns m).lookup c = some col ↔ (c, col) ∈ impliedColumns m :=
  Assoc.lookup_eq_some (nodup_impliedColumns m)

private theorem lookup_impliedColumns_none : (impliedColumns m).lookup c = none ↔
    c ∉ (impliedColumns m).map Prod.fst := by
  rw [Assoc.lookup_eq_none]
  simp

theorem column_eq_some (hm : ∀ e ∈ impliedColumns m, e.1 ∉ m.columns) : m.column c = some col ↔
    m.columns.lookup c = some col ∨ (c, col) ∈ impliedColumns m := by
  rw [column_eq, Option.or_eq_some_iff, lookup_impliedColumns]
  refine or_congr_right ⟨And.right, fun h => ⟨?_, h⟩⟩
  exact AList.lookup_eq_none.2 (hm _ h)

theorem column_eq_none : m.column c = none ↔ c ∉ m.columns ∧ c ∉ (impliedColumns m).map Prod.fst := by
  rw [column_eq, Option.or_eq_none_iff, AList.lookup_eq_none, lookup_impliedColumns_none]

section Kept

variable (h : KeptCovered upper new t mo mn) (hkept : Kept old new t mo mn)
  (hmo : ∀ e ∈ impliedColumns mo, e.1 ∉ mo.columns) (hmn : ∀ e ∈ impliedColumns mn, e.1 ∉ mn.columns)

include h

include hmo hmn in
/-- The columns of both models are listed in both, or implied by both. -/
theorem KeptCovered.column_both {n : ColumnDef} (ho : mo.column c = some o) (hn : mn.column c = some n) :
    (mo.columns.lookup c = some o ∧ mn.columns.lookup c = some n) ∨ (o = n ∧ o.primaryKey = false) := by
  rcases (column_eq_some hmo).1 ho with ho | ho
  · rcases (column_eq_some hmn).1 hn with hn | hn
    · exact .inl ⟨ho, hn⟩
    · exact absurd (List.mem_map_of_mem hn) (h.implied c (AList.mem_of_lookup ho))
  · rcases (column_eq_some hmn).1 hn with hn | hn
    · exact absurd (List.mem_map_of_mem ho) (h.listed c (AList.mem_of_lookup hn))
    · exact .inr ⟨impliedColumns_unique ho hn, impliedColumns_primaryKey ho⟩

include hkept hmn in
theorem KeptCovered.addColumn_iff : Difference old new (.addColumn t c col) ↔ mo.column c = none ∧
    mn.column c = some col := by
  constructor
  · intro hd
    cases hd with
    | addColumn hkept' hnew hold =>
      obtain rfl := Option.some.inj (hkept.old.symm.trans hkept'.old)
      obtain rfl := Option.some.inj (hkept.new.symm.trans hkept'.new)
      refine ⟨column_eq_none.2 ⟨hold, h.listed c (AList.mem_of_lookup hnew)⟩, ?_⟩
      exact (column_eq_some hmn).2 (.inl hnew)
    | addImplied hkept' hnew hold =>
      obtain rfl := Option.some.inj (hkept.old.symm.trans hkept'.old)
      obtain rfl := Option.some.inj (hkept.new.symm.trans hkept'.new)
      refine ⟨column_eq_none.2 ⟨fun hc => h.implied c hc (List.mem_map_of_mem hnew), fun hc => ?_⟩, ?_⟩
      · obtain ⟨⟨c, col'⟩, hmem, rfl⟩ := List.mem_map.1 hc
        exact hold (impliedColumns_unique hnew hmem ▸ hmem)
      · exact (column_eq_some hmn).2 (.inr hnew)
  · rintro ⟨ho, hn⟩
    rw [column_eq_none] at ho
    rcases (column_eq_some hmn).1 hn with hn | hn
    · exact .addColumn hkept hn ho.1
    · exact .addImplied hkept hn fun hc => ho.2 (List.mem_map_of_mem hc)

include hkept hmo in
theorem KeptCovered.dropColumn_iff : (∃ o, Difference old new (.dropColumn t c o)) ↔
    mo.column c ≠ none ∧ mn.column c = none := by
  constructor
  · rintro ⟨o, hd⟩
    cases hd with
    | dropColumn hkept' hold hnew =>
      obtain rfl := Option.some.inj (hkept.old.symm.trans hkept'.old)
      obtain rfl := Option.some.inj (hkept.new.symm.trans hkept'.new)
      refine ⟨?_, column_eq_none.2 ⟨hnew, h.implied c (AList.mem_of_lookup hold)⟩⟩
      rw [(column_eq_some hmo).2 (.inl hold)]
      simp
    | dropImplied hkept' hold hnew =>
      obtain rfl := Option.some.inj (hkept.old.symm.trans hkept'.old)
      obtain rfl := Option.some.inj (hkept.new.symm.trans hkept'.new)
      refine ⟨?_, column_eq_none.2 ⟨fun hc => h.listed c hc (List.mem_map_of_mem hold), fun hc => ?_⟩⟩
      · rw [(column_eq_some hmo).2 (.inr hold)]
        simp
      · obtain ⟨⟨c, col'⟩, hmem, rfl⟩ := List.mem_map.1 hc
        exact hnew (impliedColumns_unique hold hmem ▸ hmem)
  · rintro ⟨ho, hn⟩
    obtain ⟨col, hcol⟩ := Option.ne_none_iff_exists'.1 ho
    rw [column_eq_none] at hn
    rcases (column_eq_some hmo).1 hcol with hcol | hcol
    · exact ⟨_, .dropColumn hkept hcol hn.1⟩
    · exact ⟨_, .dropImplied hkept hcol fun hc => hn.2 (List.mem_map_of_mem hc)⟩

end Kept

/-! ### Tables -/

/-- What becomes of a table. -/
inductive Fate (upper : String → String) (old new : Models) (t : String) : Prop
  | kept {mo mn : ModelDef} (h : Kept old new t mo mn)
  | created {m : ModelDef} (h : Created old new t m) (hold : (old.schemaOf upper).tables t = false)
  | dropped {m : ModelDef} (h : Dropped old new t m) (hnew : (new.schemaOf upper).tables t = false)
  | junction (hold : (old.schemaOf upper).tables t = true) (hnew : (new.schemaOf upper).tables t = true)
      (hold' : t ∉ old.map) (hnew' : t ∉ new.map)
      (hcolumns : ∀ c, (old.schemaOf upper).columns (t, c) = (new.schemaOf upper).columns (t, c))
      (hfks : ∀ n, (old.schemaOf upper).foreignKeys (t, n) = (new.schemaOf upper).foreignKeys (t, n))
  | junctionCreated {j : Junction} (hj : new.junction t = some j) (hold : (old.schemaOf upper).tables t = false)
    (hnew : t ∉ new.map)
  | absent (hold : (old.schemaOf upper).tables t = false) (hnew : (new.schemaOf upper).tables t = false)

namespace Covered

variable (h : Covered upper old new)

include h

/-- A junction table is the same in both schemas. -/
private theorem same_junction {j : Junction} (hj : old.junction t = some j) : Fate upper old new t := by
  obtain ⟨j', hj', hsame⟩ := h.junctions_kept t j hj
  obtain ⟨hc, hf, -⟩ := h.new_ok.junction_ok hj'
  refine .junction (old.tables_of_junction hj) (new.tables_of_junction hj') (old.not_mem_of_junction hj)
    (new.not_mem_of_junction hj') (fun c => ?_) fun n => ?_
  · rw [old.columns_of_junction hj, new.columns_of_junction hj']
    exact (Assoc.lookup_congr hc hsame.1 c).symm
  · rw [old.foreignKeys_of_junction hj, new.foreignKeys_of_junction hj']
    exact (Assoc.lookup_congr hf hsame.2 n).symm

theorem fate (t : String) : Fate upper old new t := by
  cases hj : old.junction t with
  | some j => exact h.same_junction hj
  | none =>
    cases ho : old.map.lookup t with
    | some mo =>
      cases hn : new.map.lookup t with
      | some mn => exact .kept ⟨ho, hn⟩
      | none =>
        refine .dropped ⟨ho, AList.lookup_eq_none.1 hn⟩ ?_
        cases hj' : new.junction t with
        | none => simp [Models.schemaOf, hn, hj']
        | some j' =>
          have htaken : (old.schemaOf upper).taken t = true := by
            simp [Schema.taken, old.tables_of_lookup ho]
          have hsome := h.junction_names t j' hj' htaken
          rw [hj] at hsome
          cases hsome
    | none =>
      have hold : (old.schemaOf upper).tables t = false := by simp [Models.schemaOf, ho, hj]
      cases hn : new.map.lookup t with
      | some mn => exact .created ⟨hn, AList.lookup_eq_none.1 ho⟩ hold
      | none =>
        cases hj' : new.junction t with
        | some j' => exact .junctionCreated hj' hold (AList.lookup_eq_none.1 hn)
        | none => exact .absent hold (by simp [Models.schemaOf, hn, hj'])

end Covered

end Noda.Generate
