import Noda.Generate.Created

/-!
# Additions

After the created tables the up script adds columns, alters columns, and adds indexes and foreign keys.  The schema then
has what is in the old or in the new models (`joined`), with the primary keys of the old ones.
-/

namespace Noda.Generate

open Ddl

/-- A column of two schemas that still has its part in the old primary key. -/
def joinColumn : Option Column → Option Column → Option Column
  | some o, some n => some { n with primaryKey := o.primaryKey }
  | some o, none => some o
  | none, n => n

/-- What is in one of two schemas. -/
def joined (O N : Schema) : Schema where
  tables := fun t => O.tables t || N.tables t
  columns := fun k => joinColumn (O.columns k) (N.columns k)
  indexes := fun n => (O.indexes n).or (N.indexes n)
  foreignKeys := fun k => (O.foreignKeys k).or (N.foreignKeys k)

theorem joined_columns {O N : Schema} {k : String × String} (h : O.columns k ≠ none ∨ N.columns k ≠ none) :
    (joined O N).columns k ≠ none := by
  simp only [joined]
  cases hO : O.columns k with
  | some o =>
    cases hN : N.columns k with
    | some n => simp [joinColumn]
    | none => simp [joinColumn]
  | none => simpa [joinColumn, hO] using h

variable {upper : String → String} {old new : Models} {t c n r : String} {m mo mn : ModelDef} {changes : List Change}
  {Y : List String} {S : Schema}

private theorem eq_of_columnChanged {o n : ColumnDef} (h : columnChanged o n = false) : o = n := by
  cases o
  cases n
  simp only [columnChanged, Bool.or_eq_false_iff, decide_eq_false_iff_not, not_not] at h
  simp [h]

private theorem alteredColumn_eq {o n : ColumnDef} {lost : Bool} (hkey : n.primaryKey = (o.primaryKey && !lost))
    (htype : o.type ≠ n.type ∨ postgresType upper o = postgresType upper n)
    (hnull : o.primaryKey = true → n.notNull = true ∨ n.primaryKey = true ∧ o.notNull = false) :
    alteredColumn upper o n (createdColumn upper o) = { createdColumn upper n with primaryKey := o.primaryKey } := by
  simp only [alteredColumn, createdColumn, Column.mk.injEq, and_true]
  refine ⟨?_, ?_, ?_⟩
  · split_ifs with hne
    · rfl
    · exact htype.resolve_left hne
  · cases ho : o.primaryKey with
    | false => simp_all
    | true => cases hn : n.notNull <;> cases ho' : o.notNull <;> simp_all
  · split_ifs with hne
    · rfl
    · exact not_not.1 hne

namespace Covered

variable (h : Covered upper old new) (hperm : changes.Perm (diffModels old new))
  (hY : ∀ t, t ∈ Y ↔ (old.schemaOf upper).tables t = false ∧ (new.schemaOf upper).tables t = true)

include h hY in
/-- Entries of the old and the new schema that are to be joined, when those of the created tables are there. -/
private theorem or_eq_ite {V : Type} {fo fn : String × String → Option V} {k : String × String}
    (hfo : (old.schemaOf upper).tables k.1 = false → fo k = none)
    (hfn : (new.schemaOf upper).tables k.1 = false → fn k = none)
    (hkept : ∀ mo mn, Kept old new k.1 mo mn → fo k = none → fn k = none)
    (hjunction : k.1 ∉ old.map → (old.schemaOf upper).tables k.1 = true → fo k = fn k) :
    (fo k).or (fn k) = if k.1 ∈ Y then fn k else fo k := by
  by_cases hk : k.1 ∈ Y
  · rw [if_pos hk, hfo ((hY _).1 hk).1, Option.none_or]
  · rw [if_neg hk]
    cases ho : fo k with
    | some v => rfl
    | none =>
      rw [Option.none_or]
      cases h.fate k.1 with
      | kept hkept' => exact hkept _ _ hkept' ho
      | created hm hold => exact absurd ((hY _).2 ⟨hold, new.tables_of_lookup hm.new⟩) hk
      | dropped _ hnew => exact hfn hnew
      | junction hold _ hold' => exact (hjunction hold' hold).symm.trans ho
      | junctionCreated hj hold => exact absurd ((hY _).2 ⟨hold, by simp [Models.schemaOf, hj]⟩) hk
      | absent _ hnew => exact hfn hnew

include h in
private theorem junction_eq (hold : t ∉ old.map) (ht : (old.schemaOf upper).tables t = true) :
    (∀ c, (old.schemaOf upper).columns (t, c) = (new.schemaOf upper).columns (t, c)) ∧
      ∀ n, (old.schemaOf upper).foreignKeys (t, n) = (new.schemaOf upper).foreignKeys (t, n) := by
  cases h.fate t with
  | kept hkept => exact absurd (AList.mem_of_lookup hkept.old) hold
  | created _ ht' => exact absurd (ht'.symm.trans ht) Bool.false_ne_true
  | dropped hm => exact absurd (AList.mem_of_lookup hm.old) hold
  | junction _ _ _ _ hcolumns hfks => exact ⟨hcolumns, hfks⟩
  | junctionCreated _ ht' => exact absurd (ht'.symm.trans ht) Bool.false_ne_true
  | absent ht' => exact absurd (ht'.symm.trans ht) Bool.false_ne_true

include hY in
private theorem kept_not_mem (hkept : Kept old new t mo mn) : t ∉ Y := by
  intro htY
  have hfalse := ((hY t).1 htY).1
  rw [old.tables_of_lookup hkept.old] at hfalse
  cases hfalse

include h hperm

/-! ### Columns -/

include hY in
theorem runs_addColumns : Runs { S with
      tables := (joined (old.schemaOf upper) (new.schemaOf upper)).tables
      columns := (graft (old.schemaOf upper) (new.schemaOf upper) Y).columns }
    ((group 1 changes).flatMap (Change.up upper)) { S with
      tables := (joined (old.schemaOf upper) (new.schemaOf upper)).tables
      columns := fun k => ((old.schemaOf upper).columns k).or ((new.schemaOf upper).columns k) } := by
  have hadd : ∀ e ∈ group 1 changes, ∃ t c col mo mn, e = .addColumn t c col ∧ Kept old new t mo mn ∧
      mo.column c = none ∧ mn.column c = some col ∧ col.primaryKey = false := by
    intro e he
    obtain ⟨hmem, horder⟩ := mem_group.1 he
    have hd := (mem_changes hperm).1 hmem
    have hmn : ∀ {t mn}, new.map.lookup t = some mn → ∀ e ∈ impliedColumns mn, e.1 ∉ mn.columns :=
      fun hm => h.new_ok.columns _ (new.mem_models_of_lookup hm)
    cases hd with
    | addColumn hkept hnew hold =>
      have hcovered := h.kept _ _ _ hkept
      obtain ⟨ho, hn⟩ := (hcovered.addColumn_iff hkept (hmn hkept.new)).1 (.addColumn hkept hnew hold)
      exact ⟨_, _, _, _, _, rfl, hkept, ho, hn, hcovered.added _ _ hnew hold⟩
    | addImplied hkept hnew hold =>
      obtain ⟨ho, hn⟩ := ((h.kept _ _ _ hkept).addColumn_iff hkept (hmn hkept.new)).1 (.addImplied hkept hnew hold)
      exact ⟨_, _, _, _, _, rfl, hkept, ho, hn, impliedColumns_primaryKey hnew⟩
    | _ => cases horder
  refine runs_updates (fun g => { S with
      tables := (joined (old.schemaOf upper) (new.schemaOf upper)).tables, columns := g }) Change.key
    (fun e => (new.schemaOf upper).columns e.key) (nodup_group hperm h.old_ok.columns fun _ => h.new_ok.columns)
    (fun e he g hg => ?_) (fun e he => ?_) fun k hk => ?_
  · obtain ⟨t, c, col, mo, mn, rfl, hkept, ho, hn, hkey⟩ := hadd e he
    have hcol : (new.schemaOf upper).columns (t, c) = some (addedColumn upper col) := by
      rw [new.columns_of_lookup hkept.new, hn, Option.map_some, createdColumn, addedColumn, hkey, Bool.or_false]
    have hnot : t ∉ Y := kept_not_mem hY hkept
    refine ⟨⟨?_, ?_⟩, ?_⟩
    · simp [joined, old.tables_of_lookup hkept.old]
    · refine hg.trans ?_
      simp only [Change.key, graft, if_neg hnot]
      rw [old.columns_of_lookup hkept.old, ho, Option.map_none]
    · simp only [Change.key, hcol]
      rfl
  · obtain ⟨t, c, col, mo, mn, rfl, hkept, ho, hn, hkey⟩ := hadd e he
    simp only [Change.key]
    rw [old.columns_of_lookup hkept.old, ho, Option.map_none, Option.none_or]
  · refine h.or_eq_ite hY h.old_ok.closed.columns_none h.new_ok.closed.columns_none (fun mo mn hkept ho => ?_)
      fun hold ht => (h.junction_eq hold ht).1 k.2
    obtain ⟨t, c⟩ := k
    rw [old.columns_of_lookup hkept.old, Option.map_eq_none_iff] at ho
    rw [new.columns_of_lookup hkept.new, Option.map_eq_none_iff]
    cases hn : mn.column c with
    | none => rfl
    | some col =>
      have hmn := h.new_ok.columns _ (new.mem_models_of_lookup hkept.new)
      have hd := ((h.kept _ _ _ hkept).addColumn_iff hkept hmn).2 ⟨ho, hn⟩
      exact absurd (List.mem_map.2 ⟨_, mem_group.2 ⟨(mem_changes hperm).2 hd, rfl⟩, rfl⟩) hk

private theorem columns_same {k : String × String} (hk : k ∉ (group 2 changes).map Change.key) {o n : Column}
    (hO : (old.schemaOf upper).columns k = some o) (hN : (new.schemaOf upper).columns k = some n) :
    { n with primaryKey := o.primaryKey } = o := by
  obtain ⟨t, c⟩ := k
  have hold : (old.schemaOf upper).tables t = true := h.old_ok.closed.columns (t, c) (by simp [hO])
  have hnew : (new.schemaOf upper).tables t = true := h.new_ok.closed.columns (t, c) (by simp [hN])
  cases h.fate t with
  | @kept mo mn hkept =>
    rw [old.columns_of_lookup hkept.old, Option.map_eq_some_iff] at hO
    rw [new.columns_of_lookup hkept.new, Option.map_eq_some_iff] at hN
    obtain ⟨o, ho, rfl⟩ := hO
    obtain ⟨n, hn, rfl⟩ := hN
    have hmo := h.old_ok.columns _ (old.mem_models_of_lookup hkept.old)
    have hmn := h.new_ok.columns _ (new.mem_models_of_lookup hkept.new)
    rcases (h.kept _ _ _ hkept).column_both hmo hmn ho hn with ⟨ho', hn'⟩ | ⟨rfl, -⟩
    · -- it has not changed
      have hsame : columnChanged o n = false := by
        by_contra hchanged
        have hd := Difference.alterColumn hkept ho' hn' (by simpa using hchanged)
        exact hk (List.mem_map.2 ⟨_, mem_group.2 ⟨(mem_changes hperm).2 hd, rfl⟩, rfl⟩)
      rw [eq_of_columnChanged hsame]
    · rfl
  | created _ ht => exact absurd (ht.symm.trans hold) Bool.false_ne_true
  | dropped _ ht => exact absurd (ht.symm.trans hnew) Bool.false_ne_true
  | junction _ _ _ _ hcolumns =>
    rw [hcolumns c, hN] at hO
    rw [Option.some.inj hO]
  | junctionCreated _ ht => exact absurd (ht.symm.trans hold) Bool.false_ne_true
  | absent ht => exact absurd (ht.symm.trans hold) Bool.false_ne_true

theorem runs_alterColumns : Runs { S with
      columns := fun k => ((old.schemaOf upper).columns k).or ((new.schemaOf upper).columns k) }
    ((group 2 changes).flatMap (Change.up upper)) { S with
      columns := (joined (old.schemaOf upper) (new.schemaOf upper)).columns } := by
  have halter : ∀ e ∈ group 2 changes, ∃ t c o n mo mn, e = .alterColumn t c o n ∧ Kept old new t mo mn ∧
      mo.columns.lookup c = some o ∧ mn.columns.lookup c = some n := by
    intro e he
    obtain ⟨hmem, horder⟩ := mem_group.1 he
    cases (mem_changes hperm).1 hmem with
    | alterColumn hkept hold hnew _ => exact ⟨_, _, _, _, _, _, rfl, hkept, hold, hnew⟩
    | _ => cases horder
  refine runs_updates (fun g => { S with columns := g }) Change.key
    (fun e => (joined (old.schemaOf upper) (new.schemaOf upper)).columns e.key)
    (nodup_group hperm h.old_ok.columns fun h1 => nomatch h1) (fun e he g hg => ?_) (fun e he => rfl) fun k hk => ?_
  · obtain ⟨t, c, o, n, mo, mn, rfl, hkept, ho, hn⟩ := halter e he
    have hcovered := (h.kept _ _ _ hkept).altered c o n ho hn
    have hO : (old.schemaOf upper).columns (t, c) = some (createdColumn upper o) := by
      rw [old.columns_of_lookup hkept.old, column_eq, ho]
      rfl
    have hN : (new.schemaOf upper).columns (t, c) = some (createdColumn upper n) := by
      rw [new.columns_of_lookup hkept.new, column_eq, hn]
      rfl
    have hcol : g (t, c) = some (createdColumn upper o) := by
      refine hg.trans ?_
      simp only [Change.key, hO, Option.some_or]
    have hval : (joined (old.schemaOf upper) (new.schemaOf upper)).columns (t, c) =
        some ((alterations upper o n).foldl Alteration.apply (createdColumn upper o)) := by
      rw [foldl_alterations, alteredColumn_eq hcovered.1 hcovered.2.1 hcovered.2.2]
      simp only [joined, hO, hN, joinColumn]
      rfl
    simp only [Change.key, Change.up, hval]
    refine runs_alterations hcol fun hdrop => ?_
    obtain ⟨hnull, hnull'⟩ := mem_alterations_dropNotNull.1 hdrop
    show o.primaryKey = false
    by_contra hkey
    rcases hcovered.2.2 (by simpa using hkey) with hn | ⟨-, ho⟩
    · exact Bool.false_ne_true (hnull'.symm.trans hn)
    · exact Bool.false_ne_true (ho.symm.trans hnull)
  · obtain ⟨t, c⟩ := k
    simp only [joined]
    cases hO : (old.schemaOf upper).columns (t, c) with
    | none => rfl
    | some o =>
      cases hN : (new.schemaOf upper).columns (t, c) with
      | none => rfl
      | some n =>
        rw [Option.some_or, joinColumn, Option.some.injEq]
        exact h.columns_same hperm hk hO hN

/-! ### Indexes -/

include hY in
theorem runs_addIndexes : Runs { S with
      tables := (joined (old.schemaOf upper) (new.schemaOf upper)).tables
      columns := (joined (old.schemaOf upper) (new.schemaOf upper)).columns
      indexes := (graft (old.schemaOf upper) (new.schemaOf upper) Y).indexes }
    ((group 3 changes).flatMap (Change.up upper)) { S with
      tables := (joined (old.schemaOf upper) (new.schemaOf upper)).tables
      columns := (joined (old.schemaOf upper) (new.schemaOf upper)).columns
      indexes := (joined (old.schemaOf upper) (new.schemaOf upper)).indexes } := by
  have hadd : ∀ e ∈ group 3 changes, ∃ t i mo mn, e = .addIndex t i ∧ Kept old new t mo mn ∧ i ∈ mn.indexes ∧
      i.key ∉ indexSet mo.indexes := by
    intro e he
    obtain ⟨hmem, horder⟩ := mem_group.1 he
    cases (mem_changes hperm).1 hmem with
    | addIndex hkept hnew hold => exact ⟨_, _, _, _, rfl, hkept, (lookup_indexSet hnew).1, hold⟩
    | _ => cases horder
  have hnodup : ((group 3 changes).map Change.indexName).Nodup := by
    refine nodup_indexNames h.new_ok (nodup_group hperm h.old_ok.columns fun h1 => nomatch h1) fun e he => ?_
    obtain ⟨t, i, mo, mn, rfl, hkept, hi, -⟩ := hadd e he
    exact ⟨t, i, mn, .inl rfl, hkept.new, hi⟩
  refine runs_updates (fun g => { S with
      tables := (joined (old.schemaOf upper) (new.schemaOf upper)).tables
      columns := (joined (old.schemaOf upper) (new.schemaOf upper)).columns, indexes := g }) Change.indexName
    (fun e => (joined (old.schemaOf upper) (new.schemaOf upper)).indexes e.indexName) hnodup (fun e he g hg => ?_)
    (fun e he => rfl) fun n hn => ?_
  · obtain ⟨t, i, mo, mn, rfl, hkept, hi, hkey⟩ := hadd e he
    have hfree := h.index_names t mn hkept.new i hi fun mo' hmo' hi' => by
      obtain rfl := Option.some.inj (hkept.old.symm.trans hmo')
      exact hkey (key_mem_indexSet hi')
    obtain ⟨htable, hindex⟩ := Bool.or_eq_false_iff.1 hfree
    have hN : (new.schemaOf upper).indexes (indexName t i.columns) = some (i.index t) :=
      h.new_ok.indexes_of_mem hkept.new hi
    have hO : (old.schemaOf upper).indexes (indexName t i.columns) = none := by simpa using hindex
    have htaken : (new.schemaOf upper).tables (indexName t i.columns) = false :=
      h.new_ok.not_table_of_index (h.new_ok.indexes_eq_some.1 hN)
    obtain ⟨hne, hcolumns⟩ := h.new_ok.index_columns mn (new.mem_models_of_lookup hkept.new) i hi
    have hnot : t ∉ Y := kept_not_mem hY hkept
    refine ⟨⟨?_, ?_, hne, fun c hc => joined_columns (.inr ?_)⟩, ?_⟩
    · have hgname : g (indexName t i.columns) = none := by
        refine hg.trans ?_
        simp [Change.indexName, graft, hO, hN, IndexDef.index, hnot]
      simp [Schema.taken, joined, htable, htaken, hgname]
    · simp [joined, IndexDef.index, new.tables_of_lookup hkept.new]
    · simpa [IndexDef.index, new.columns_of_lookup hkept.new, Option.isSome_iff_ne_none] using hcolumns c hc
    · simp only [Change.indexName, joined, hO, hN, Option.none_or]
      rfl
  · simp only [joined, graft]
    cases hO : (old.schemaOf upper).indexes n with
    | some i => rfl
    | none =>
      rw [Option.none_or, Option.none_or]
      cases hN : (new.schemaOf upper).indexes n with
      | none => rfl
      | some i =>
        obtain ⟨mn, hmn, idx, hidx, rfl, rfl⟩ := new.mem_indexes.1 (h.new_ok.indexes_eq_some.1 hN)
        have hlookup := new.mem_models.1 hmn
        cases hmo : old.map.lookup mn.table with
        | some mo =>
          have hkept : Kept old new mn.table mo mn := ⟨hmo, hlookup⟩
          have hnot : idx ∉ mo.indexes := by
            intro hidx'
            rw [h.old_ok.indexes_of_mem hmo hidx'] at hO
            cases hO
          obtain ⟨hset, hkey⟩ := (h.kept _ _ _ hkept).indexes_added idx hidx hnot
          have hd := Difference.addIndex hkept hset hkey
          exact absurd (List.mem_map.2 ⟨_, mem_group.2 ⟨(mem_changes hperm).2 hd, rfl⟩, rfl⟩) hn
        | none =>
          have hcreated : Created old new mn.table mn := ⟨hlookup, AList.lookup_eq_none.1 hmo⟩
          have hfresh : mn.table ∈ Y := by
            refine (hY _).2 ⟨?_, new.tables_of_lookup hlookup⟩
            exact (Bool.or_eq_false_iff.1 (h.created _ _ hcreated).name).1
          simp [Option.filter, IndexDef.index, hfresh]

/-! ### Foreign keys -/

include hY in
theorem runs_addFKs : Runs { joined (old.schemaOf upper) (new.schemaOf upper) with
      foreignKeys := (graft (old.schemaOf upper) (new.schemaOf upper) Y).foreignKeys }
    ((group 4 changes).flatMap (Change.up upper)) (joined (old.schemaOf upper) (new.schemaOf upper)) := by
  have hadd : ∀ e ∈ group 4 changes, ∃ t r rel mo mn, e = .addFK t r rel ∧ Kept old new t mo mn ∧
      mn.relations.lookup r = some rel ∧ rel.type = "belongsTo" ∧ sameFK (mo.relations.lookup r) rel = false := by
    intro e he
    obtain ⟨hmem, horder⟩ := mem_group.1 he
    cases (mem_changes hperm).1 hmem with
    | addFK hkept hnew htype hold => exact ⟨_, _, _, _, _, rfl, hkept, hnew, htype, hold⟩
    | _ => cases horder
  have hnodup : ((group 4 changes).map Change.fkKey).Nodup := by
    refine nodup_fkKeys (nodup_group hperm h.old_ok.columns fun h1 => nomatch h1) fun e he => ?_
    obtain ⟨t, r, rel, mo, mn, rfl, -⟩ := hadd e he
    exact ⟨t, r, rel, .inl rfl⟩
  refine runs_updates (fun g => { joined (old.schemaOf upper) (new.schemaOf upper) with foreignKeys := g }) Change.fkKey
    (fun e => (joined (old.schemaOf upper) (new.schemaOf upper)).foreignKeys e.fkKey) hnodup (fun e he g hg => ?_)
    (fun e he => rfl) fun k hk => ?_
  · obtain ⟨t, r, rel, mo, mn, rfl, hkept, hrel, htype, hsame⟩ := hadd e he
    have hO : (old.schemaOf upper).foreignKeys (t, fkName t r) = none := by
      rw [← Option.not_isSome_iff_eq_none, Option.isSome_iff_exists]
      rintro ⟨fk, hfk⟩
      obtain ⟨r', o, ho, htype', hname, -⟩ := (old.foreignKeys_eq_some hkept.old).1 hfk
      obtain rfl := fkName_inj hname
      have hcovered := (h.kept _ _ _ hkept).relations r o rel ho htype' hrel
      rw [if_pos htype, ← ho, hsame] at hcovered
      cases hcovered
    have hN : (new.schemaOf upper).foreignKeys (t, fkName t r) = some rel.constraint :=
      (new.foreignKeys_eq_some hkept.new).2 ⟨r, rel, hrel, htype, rfl, rfl⟩
    obtain ⟨hcol, hid⟩ := h.new_ok.references mn (new.mem_models_of_lookup hkept.new) (r, rel)
      (AList.mem_toPairs.2 hrel) htype
    have hnot : t ∉ Y := kept_not_mem hY hkept
    refine ⟨⟨?_, joined_columns (.inr ?_), joined_columns (.inr (new.columns_of_hasId hid))⟩, ?_⟩
    · refine hg.trans ?_
      simp [Change.fkKey, graft, hnot, hO]
    · simpa [RelDef.constraint, new.columns_of_lookup hkept.new, Option.isSome_iff_ne_none] using hcol
    · simp only [Change.fkKey, joined, hO, hN, Option.none_or]
      rfl
  · obtain ⟨t, n⟩ := k
    refine h.or_eq_ite hY h.old_ok.closed.foreignKeys_none h.new_ok.closed.foreignKeys_none (fun mo mn hkept ho => ?_)
      fun hold ht => (h.junction_eq hold ht).2 n
    replace hkept : Kept old new t mo mn := hkept
    rw [← Option.not_isSome_iff_eq_none, Option.isSome_iff_exists]
    rintro ⟨fk, hfk⟩
    obtain ⟨r, rel, hrel, htype, rfl, -⟩ := (new.foreignKeys_eq_some hkept.new).1 hfk
    cases hsame : sameFK (mo.relations.lookup r) rel with
    | true =>
      obtain ⟨o, hrel', ho'⟩ := (Option.any_eq_true _ _).1 hsame
      have hsome : (old.schemaOf upper).foreignKeys (t, fkName t r) = some o.constraint :=
        (old.foreignKeys_eq_some hkept.old).2 ⟨r, o, hrel', (of_decide_eq_true ho').1, rfl, rfl⟩
      rw [ho] at hsome
      cases hsome
    | false =>
      have hd := Difference.addFK hkept hrel htype hsame
      exact hk (List.mem_map.2 ⟨_, mem_group.2 ⟨(mem_changes hperm).2 hd, rfl⟩, rfl⟩)

end Covered

end Noda.Generate
