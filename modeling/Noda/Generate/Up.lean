import Noda.Generate.Joined

/-!
# The up script

The last part of the up script removes what is not in the new models, and leaves the schema of the new models
(`up_correct`).
-/

namespace Noda.Generate

open Ddl

variable {upper : String → String} {old new : Models} {t c n r : String} {m mo mn : ModelDef} {changes : List Change}

private theorem constraint_of_sameFK {o n : RelDef} (h : sameFK (some o) n = true) : n.constraint = o.constraint := by
  simp only [sameFK, Option.any_some, decide_eq_true_eq] at h
  simp only [RelDef.constraint, h]

namespace Covered

variable (h : Covered upper old new) (hperm : changes.Perm (diffModels old new))

include h

private theorem columns_of_dropColumn {o : Option ColumnDef} (hd : Difference old new (.dropColumn t c o)) :
    (old.schemaOf upper).columns (t, c) ≠ none ∧ (new.schemaOf upper).columns (t, c) = none ∧
      ∃ mo mn, Kept old new t mo mn := by
  have hmo : ∀ {t mo}, old.map.lookup t = some mo → ∀ e ∈ impliedColumns mo, e.1 ∉ mo.columns :=
    fun hm => h.old_ok.columns _ (old.mem_models_of_lookup hm)
  have hkept : ∃ mo mn, Kept old new t mo mn := by
    cases hd with
    | dropColumn hkept => exact ⟨_, _, hkept⟩
    | dropImplied hkept => exact ⟨_, _, hkept⟩
  obtain ⟨mo, mn, hkept⟩ := hkept
  obtain ⟨ho, hn⟩ := ((h.kept _ _ _ hkept).dropColumn_iff hkept (hmo hkept.old)).1 ⟨o, hd⟩
  rw [old.columns_of_lookup hkept.old, new.columns_of_lookup hkept.new, hn]
  exact ⟨by simpa using ho, rfl, mo, mn, hkept⟩

include hperm

private theorem foreignKeys_of_dropColumn {before after : List Change} {o : Option ColumnDef} {k : String × String}
    {fk : ForeignKey}
    (hL : removals changes = before ++ .dropColumn t c o :: after)
    (hfk : ((joined (old.schemaOf upper) (new.schemaOf upper)).remove
      (removal (before.flatMap (Change.up upper)))).foreignKeys k = some fk)
    (htable : fk.refTable = t) (hcolumn : fk.refColumn = c) : k.1 = t := by
  have hd : Difference old new (.dropColumn t c o) := by
    have hmem : Change.dropColumn t c o ∈ removals changes := by
      rw [hL]
      simp
    exact (mem_changes hperm).1 (mem_removals.1 hmem).1
  obtain ⟨-, hnone, mo, mn, hkept⟩ := h.columns_of_dropColumn hd
  have hnew : (new.schemaOf upper).foreignKeys k ≠ some fk := by
    intro hN
    have href := (h.new_ok.closed.foreignKeys k fk hN).2
    rw [htable, hcolumn] at href
    exact href hnone
  simp only [Schema.remove, Option.filter_eq_some_iff, decide_eq_true_eq] at hfk
  obtain ⟨hjoined, hremoved, -⟩ := hfk
  have hO : (old.schemaOf upper).foreignKeys k = some fk := by
    simp only [joined, Option.or_eq_some_iff] at hjoined
    exact hjoined.resolve_right fun hN => hnew hN.2
  obtain ⟨t', n⟩ := k
  have hold : (old.schemaOf upper).tables t' = true := h.old_ok.closed.columns (t', fk.column)
      (h.old_ok.closed.foreignKeys _ fk hO).1
  cases h.fate t' with
  | @kept mo' mn' hkept' =>
    obtain ⟨r, rel, hrel, htype, rfl, rfl⟩ := (old.foreignKeys_eq_some hkept'.old).1 hO
    obtain rfl : rel.table = t := htable
    obtain rfl : "id" = c := hcolumn
    cases hrel' : mn'.relations.lookup r with
    | none =>
      have hdrop := Difference.dropFK hkept' hrel htype (AList.lookup_eq_none.1 hrel')
      have hmem : Change.dropFK t' r rel ∈ removals changes :=
        mem_removals.2 ⟨(mem_changes hperm).2 hdrop, by simp [Change.order]⟩
      have hbefore := mem_before_of_order hL hmem (by simp [Change.order])
      exact absurd (mem_removal_foreignKeys.2 ⟨t', r, rel, hbefore, rfl⟩) hremoved
    | some rel' =>
      have hcovered := (h.kept _ _ _ hkept').relations r rel rel' hrel htype hrel'
      split_ifs at hcovered with htype'
      · rw [← constraint_of_sameFK hcovered] at hnew
        exact absurd ((new.foreignKeys_eq_some hkept'.new).2 ⟨r, rel', hrel', htype', rfl, rfl⟩) hnew
      · rcases hcovered with hdropped | ⟨hself, -⟩ | ⟨-, hid⟩
        · exact absurd (AList.mem_of_lookup hkept.new) hdropped
        · exact hself.symm
        · exact absurd hnone (new.columns_of_hasId hid)
  | created _ ht => exact absurd (ht.symm.trans hold) Bool.false_ne_true
  | dropped hm =>
    obtain ⟨r, rel, hrel, htype, -, rfl⟩ := (old.foreignKeys_eq_some hm.old).1 hO
    obtain rfl : rel.table = t := htable
    obtain rfl : "id" = c := hcolumn
    have hid := h.dropped t' _ hm r rel hrel htype (AList.mem_of_lookup hkept.new)
    exact absurd hnone (new.columns_of_hasId hid)
  | junction _ _ _ _ _ hfks => exact absurd ((hfks n).symm.trans hO) hnew
  | junctionCreated _ ht => exact absurd (ht.symm.trans hold) Bool.false_ne_true
  | absent ht => exact absurd (ht.symm.trans hold) Bool.false_ne_true

private theorem runs_removals : Runs (joined (old.schemaOf upper) (new.schemaOf upper))
    ((removals changes).flatMap (Change.up upper))
    ((joined (old.schemaOf upper) (new.schemaOf upper)).remove (removed upper changes)) := by
  refine Ddl.runs_removals fun before e after hL => ?_
  have he : Difference old new e ∧ 4 < e.order := by
    have hmem : e ∈ removals changes := by
      rw [hL]
      simp
    obtain ⟨hmem, horder⟩ := mem_removals.1 hmem
    exact ⟨(mem_changes hperm).1 hmem, horder⟩
  have htables : e.order < 8 → ∀ t, t ∉ (removal (before.flatMap (Change.up upper))).tables := by
    intro hlt t ht
    obtain ⟨m, hm⟩ := mem_removal_tables.1 ht
    have hle : 8 ≤ e.order := order_le_of_mem_before hL hm
    omega
  rw [removal_up]
  cases e with
  | dropFK t r rel =>
    cases he.1 with
    | dropFK hkept =>
      have hnot := htables (show 5 < 8 by decide) t
      refine ⟨?_, rfl⟩
      simp [Stmt.Guard, Schema.remove, joined, old.tables_of_lookup hkept.old, hnot]
  | dropIndex t i => exact ⟨trivial, rfl⟩
  | dropColumn t c o =>
    obtain ⟨hO, -, -⟩ := h.columns_of_dropColumn he.1
    have hnot : (t, c) ∉ (removal (before.flatMap (Change.up upper))).columns := by
      intro hmem
      obtain ⟨o', ho'⟩ := mem_removal_columns.1 hmem
      have hapart := removals_apart hperm h.old_ok.columns
      rw [hL, List.pairwise_append] at hapart
      have h1 := (hapart.2.2 _ ho' _ List.mem_cons_self rfl rfl).1
      cases h1
    refine ⟨⟨?_, fun k fk => h.foreignKeys_of_dropColumn hperm hL⟩, rfl⟩
    have hnot' := htables (show 7 < 8 by decide) t
    have hcol := joined_columns (N := new.schemaOf upper) (.inl hO)
    simp only [Schema.remove, hnot', hnot, or_self, if_false]
    split_ifs
    · simpa using hcol
    · exact hcol
  | dropTable t m => exact ⟨trivial, rfl⟩
  | _ =>
    simp only [Change.order] at he
    omega

/-! ### What is left -/

omit h in
private theorem not_mem_removed_tables (ht : t ∈ new.map ∨ t ∉ old.map) : t ∉ (removed upper changes).tables := by
  rw [mem_removed_tables hperm]
  rintro ⟨m, hm⟩
  rcases ht with ht | ht
  · exact hm.new ht
  · exact ht (AList.mem_of_lookup hm.old)

private theorem tables_left (t : String) : ((joined (old.schemaOf upper) (new.schemaOf upper)).remove
    (removed upper changes)).tables t = (new.schemaOf upper).tables t := by
  have hnot := @not_mem_removed_tables upper old new t changes hperm
  simp only [Schema.remove, joined]
  cases h.fate t with
  | kept hkept => simp [hnot (.inl (AList.mem_of_lookup hkept.new)), new.tables_of_lookup hkept.new]
  | created hm => simp [hnot (.inl (AList.mem_of_lookup hm.new)), new.tables_of_lookup hm.new]
  | dropped hm hnew => simp [hnew, (mem_removed_tables hperm).2 ⟨_, hm⟩]
  | junction _ hnew hold => simp [hnot (.inr hold), hnew]
  | junctionCreated hj hold =>
    have hold' : t ∉ old.map := by
      intro ht
      obtain ⟨mo, hmo⟩ := AList.exists_lookup_of_mem ht
      rw [old.tables_of_lookup hmo] at hold
      cases hold
    simp [hnot (.inr hold'), Models.schemaOf, hj]
  | absent hold hnew => simp [hold, hnew]

omit hperm in
private theorem isKey_of_dropColumn {o : Option ColumnDef} (hd : Difference old new (.dropColumn t c o))
    (hkept : Kept old new t mo mn) :
    (joined (old.schemaOf upper) (new.schemaOf upper)).isKey (t, c) = (mo.column c).any (·.primaryKey) := by
  obtain ⟨-, hN, -⟩ := h.columns_of_dropColumn hd
  simp only [Schema.isKey, joined, hN]
  rw [old.columns_of_lookup hkept.old]
  cases mo.column c with
  | none => rfl
  | some col => rfl

/-- A primary key is lost with one of its columns. -/
private theorem losesKey_iff (hkept : Kept old new t mo mn) :
    (joined (old.schemaOf upper) (new.schemaOf upper)).losesKey (removed upper changes) t = losesKey mo mn := by
  have hmo := h.old_ok.columns mo (old.mem_models_of_lookup hkept.old)
  rw [Bool.eq_iff_iff, Schema.losesKey_eq_true, losesKey, List.any_eq_true]
  constructor
  · rintro ⟨⟨t', c⟩, hd, rfl, hkey⟩
    obtain ⟨o, hd⟩ := (mem_removed_columns hperm).1 hd
    rw [h.isKey_of_dropColumn hd hkept] at hkey
    cases hd with
    | dropColumn hkept' hold hnew =>
      obtain rfl := Option.some.inj (hkept.old.symm.trans hkept'.old)
      obtain rfl := Option.some.inj (hkept.new.symm.trans hkept'.new)
      rw [(column_eq_some hmo).2 (.inl hold), Option.any_some] at hkey
      exact ⟨(c, _), AList.mem_toPairs.2 hold, by simp [hkey, hnew]⟩
    | dropImplied hkept' hold hnew =>
      obtain rfl := Option.some.inj (hkept.old.symm.trans hkept'.old)
      rw [(column_eq_some hmo).2 (.inr hold), Option.any_some, impliedColumns_primaryKey hold] at hkey
      cases hkey
  · rintro ⟨⟨c, o⟩, hc, hkey⟩
    rw [AList.mem_toPairs] at hc
    simp only [Bool.and_eq_true, decide_eq_true_eq] at hkey
    have hd := Difference.dropColumn hkept hc hkey.2
    refine ⟨(t, c), (mem_removed_columns hperm).2 ⟨_, hd⟩, rfl, ?_⟩
    rw [h.isKey_of_dropColumn hd hkept, (column_eq_some hmo).2 (.inl hc), Option.any_some]
    exact hkey.1

/-- Only tables that are in both sets lose columns. -/
private theorem losesKey_eq_false (hkept : ∀ mo mn, ¬Kept old new t mo mn) :
    (joined (old.schemaOf upper) (new.schemaOf upper)).losesKey (removed upper changes) t = false := by
  rw [← Bool.not_eq_true, Schema.losesKey_eq_true]
  rintro ⟨⟨t', c⟩, hd, rfl, -⟩
  obtain ⟨o, hd⟩ := (mem_removed_columns hperm).1 hd
  obtain ⟨-, -, mo, mn, hkept'⟩ := h.columns_of_dropColumn hd
  exact hkept mo mn hkept'

private theorem columns_left_of_kept (hkept : Kept old new t mo mn) (hc : (t, c) ∉ (removed upper changes).columns) :
    (if (joined (old.schemaOf upper) (new.schemaOf upper)).losesKey (removed upper changes) t then
      ((joined (old.schemaOf upper) (new.schemaOf upper)).columns (t, c)).map Column.demote
    else (joined (old.schemaOf upper) (new.schemaOf upper)).columns (t, c)) = (new.schemaOf upper).columns (t, c) := by
  have hcovered := h.kept _ _ _ hkept
  have hmo := h.old_ok.columns mo (old.mem_models_of_lookup hkept.old)
  have hmn := h.new_ok.columns mn (new.mem_models_of_lookup hkept.new)
  rw [h.losesKey_iff hperm hkept]
  simp only [joined]
  rw [old.columns_of_lookup hkept.old, new.columns_of_lookup hkept.new]
  cases ho : mo.column c with
  | none =>
    cases hn : mn.column c with
    | none => simp [joinColumn]
    | some n =>
      have hkey : n.primaryKey = false := by
        rcases (column_eq_some hmn).1 hn with hlisted | himplied
        · exact hcovered.added c n hlisted (column_eq_none.1 ho).1
        · exact impliedColumns_primaryKey himplied
      simp [joinColumn, Column.demote, createdColumn, hkey]
  | some o =>
    cases hn : mn.column c with
    | none =>
      have hd := (hcovered.dropColumn_iff hkept hmo).2 ⟨by simp [ho], hn⟩
      exact absurd ((mem_removed_columns hperm).2 hd) hc
    | some n =>
      have hkey : n.primaryKey = (o.primaryKey && !losesKey mo mn) := by
        rcases hcovered.column_both hmo hmn ho hn with ⟨ho', hn'⟩ | ⟨rfl, hkey⟩
        · exact (hcovered.altered c o n ho' hn').1
        · simp [hkey]
      cases hlost : losesKey mo mn with
      | true => simp [joinColumn, Column.demote, createdColumn, hkey, hlost]
      | false => simp [joinColumn, createdColumn, hkey, hlost]

private theorem columns_left (k : String × String) : ((joined (old.schemaOf upper) (new.schemaOf upper)).remove
    (removed upper changes)).columns k = (new.schemaOf upper).columns k := by
  obtain ⟨t, c⟩ := k
  simp only [Schema.remove]
  by_cases hk : t ∈ (removed upper changes).tables ∨ (t, c) ∈ (removed upper changes).columns
  · rw [if_pos hk]
    rcases hk with ht | hc
    · have hnone : (new.schemaOf upper).tables t = false := by
        rw [← h.tables_left hperm t]
        simp [Schema.remove, ht]
      exact (h.new_ok.closed.columns_none hnone).symm
    · obtain ⟨o, hd⟩ := (mem_removed_columns hperm).1 hc
      exact (h.columns_of_dropColumn hd).2.1.symm
  · rw [if_neg hk]
    rw [not_or] at hk
    cases h.fate t with
    | kept hkept => exact h.columns_left_of_kept hperm hkept hk.2
    | created hm hold =>
      have hlost := h.losesKey_eq_false hperm (t := t) fun mo mn hkept => hm.old (AList.mem_of_lookup hkept.old)
      have hO : (old.schemaOf upper).columns (t, c) = none := h.old_ok.closed.columns_none hold
      rw [hlost, if_neg Bool.false_ne_true]
      simp only [joined, hO, joinColumn]
    | dropped hm => exact absurd ((mem_removed_tables hperm).2 ⟨_, hm⟩) hk.1
    | junction _ _ hold _ hcolumns =>
      have hlost := h.losesKey_eq_false hperm (t := t) fun mo mn hkept => hold (AList.mem_of_lookup hkept.old)
      rw [hlost, if_neg Bool.false_ne_true]
      simp only [joined, hcolumns]
      cases (new.schemaOf upper).columns (t, c) with
      | none => rfl
      | some col => rfl
    | junctionCreated _ hold hnew =>
      have hlost := h.losesKey_eq_false hperm (t := t) fun mo mn hkept => hnew (AList.mem_of_lookup hkept.new)
      have hO : (old.schemaOf upper).columns (t, c) = none := h.old_ok.closed.columns_none hold
      rw [hlost, if_neg Bool.false_ne_true]
      simp only [joined, hO, joinColumn]
    | absent hold hnew =>
      have hO : (old.schemaOf upper).columns (t, c) = none := h.old_ok.closed.columns_none hold
      have hN : (new.schemaOf upper).columns (t, c) = none := h.new_ok.closed.columns_none hnew
      simp only [joined, hO, hN, joinColumn, Option.map_none, ite_self]

private theorem not_removed_of_table (ht : (new.schemaOf upper).tables t = true) :
    t ∉ (removed upper changes).tables := by
  intro hmem
  have hleft := h.tables_left hperm t
  simp [Schema.remove, hmem, ht] at hleft

private theorem not_removed_of_column {k : String × String} (hk : (new.schemaOf upper).columns k ≠ none) :
    k ∉ (removed upper changes).columns := by
  intro hmem
  obtain ⟨o, hd⟩ := (mem_removed_columns hperm).1 hmem
  exact hk (h.columns_of_dropColumn hd).2.1

omit hperm in
private theorem index_old (hm : new.map.lookup t = some mn) {idx : IndexDef} (hidx : idx ∈ mn.indexes) {i : Index}
    (hO : (old.schemaOf upper).indexes (indexName t idx.columns) = some i) :
    i = idx.index t ∧ ∃ mo, old.map.lookup t = some mo ∧ idx ∈ mo.indexes := by
  have hmo : ∃ mo, old.map.lookup t = some mo ∧ idx ∈ mo.indexes := by
    by_contra hnot
    have hfree := h.index_names t mn hm idx hidx fun mo hmo hmem => hnot ⟨mo, hmo, hmem⟩
    simp [Schema.taken, hO] at hfree
  obtain ⟨mo, hmo, hmem⟩ := hmo
  refine ⟨?_, mo, hmo, hmem⟩
  exact Option.some.inj (hO.symm.trans (h.old_ok.indexes_of_mem hmo hmem))

private theorem indexes_left (n : String) : ((joined (old.schemaOf upper) (new.schemaOf upper)).remove
    (removed upper changes)).indexes n = (new.schemaOf upper).indexes n := by
  ext i
  simp only [Schema.remove, joined, Option.filter_eq_some_iff, Option.or_eq_some_iff, decide_eq_true_eq]
  constructor
  · rintro ⟨hO | ⟨-, hN⟩, hnot, htable, hcolumns⟩
    · -- an old index that is neither dropped nor of a dropped table
      obtain ⟨mo, hmo, idx, hidx, rfl, rfl⟩ := old.mem_indexes.1 (h.old_ok.indexes_eq_some.1 hO)
      have hold := old.mem_models.1 hmo
      cases hnew : new.map.lookup mo.table with
      | none => exact absurd ((mem_removed_tables hperm).2 ⟨mo, hold, AList.lookup_eq_none.1 hnew⟩) htable
      | some mn =>
        by_cases hidx' : idx ∈ mn.indexes
        · exact h.new_ok.indexes_of_mem hnew hidx'
        · have hkept : Kept old new mo.table mo mn := ⟨hold, hnew⟩
          rcases (h.kept _ _ _ hkept).indexes_dropped idx hidx hidx' with ⟨c, hc, hnone⟩ | ⟨hset, hkey⟩
          · have hsome := (h.old_ok.index_columns mo hmo idx hidx).2 c hc
            have hd := ((h.kept _ _ _ hkept).dropColumn_iff hkept (h.old_ok.columns mo hmo)).2
              ⟨Option.isSome_iff_ne_none.1 hsome, hnone⟩
            exact absurd ((mem_removed_columns hperm).2 hd) (hcolumns c hc)
          · exact absurd ((mem_removed_indexes hperm).2 ⟨_, _, .dropIndex hkept hset hkey, rfl⟩) hnot
    · exact hN
  · intro hN
    obtain ⟨mn, hmn, idx, hidx, rfl, rfl⟩ := new.mem_indexes.1 (h.new_ok.indexes_eq_some.1 hN)
    have hnew := new.mem_models.1 hmn
    have hclosed := h.new_ok.closed.indexes _ _ hN
    refine ⟨?_, ?_, h.not_removed_of_table hperm hclosed.1, fun c hc => h.not_removed_of_column hperm (hclosed.2 c hc)⟩
    · cases hO : (old.schemaOf upper).indexes (indexName mn.table idx.columns) with
      | none => exact .inr ⟨rfl, hN⟩
      | some i => exact .inl (congrArg some (h.index_old hnew hidx hO).1)
    · rw [mem_removed_indexes hperm]
      rintro ⟨t', i', hd, hname⟩
      cases hd with
      | dropIndex hkept hold hkey =>
        have hO : (old.schemaOf upper).indexes (indexName t' i'.columns) = some (i'.index t') :=
          h.old_ok.indexes_of_mem hkept.old (lookup_indexSet hold).1
        rw [← hname] at hO
        have hsame := (h.index_old hnew hidx hO).1
        simp only [IndexDef.index, Index.mk.injEq] at hsame
        obtain ⟨rfl, hcolumns, hunique⟩ := hsame
        -- the dropped index would be the one of the new schema
        have heq : i' = idx := by
          cases i'
          cases idx
          simp_all
        obtain rfl := Option.some.inj (hkept.new.symm.trans hnew)
        exact hkey (heq ▸ key_mem_indexSet hidx)

omit hperm in
private theorem foreignKey_old {fk fk' : ForeignKey} (hO : (old.schemaOf upper).foreignKeys (t, n) = some fk')
    (hN : (new.schemaOf upper).foreignKeys (t, n) = some fk) : fk' = fk := by
  have hold : (old.schemaOf upper).tables t = true :=
    h.old_ok.closed.columns (t, fk'.column) (h.old_ok.closed.foreignKeys _ fk' hO).1
  have hnew : (new.schemaOf upper).tables t = true :=
    h.new_ok.closed.columns (t, fk.column) (h.new_ok.closed.foreignKeys _ fk hN).1
  cases h.fate t with
  | kept hkept =>
    obtain ⟨r, o, ho, htype, rfl, rfl⟩ := (old.foreignKeys_eq_some hkept.old).1 hO
    obtain ⟨r', rel, hrel, htype', hname, rfl⟩ := (new.foreignKeys_eq_some hkept.new).1 hN
    obtain rfl := fkName_inj hname
    have hcovered := (h.kept _ _ _ hkept).relations r o rel ho htype hrel
    rw [if_pos htype'] at hcovered
    exact (constraint_of_sameFK hcovered).symm
  | created _ ht => exact absurd (ht.symm.trans hold) Bool.false_ne_true
  | dropped _ ht => exact absurd (ht.symm.trans hnew) Bool.false_ne_true
  | junction _ _ _ _ _ hfks => exact Option.some.inj ((hO.symm.trans (hfks n)).trans hN)
  | junctionCreated _ ht => exact absurd (ht.symm.trans hold) Bool.false_ne_true
  | absent ht => exact absurd (ht.symm.trans hold) Bool.false_ne_true

private theorem foreignKeys_kept {fk : ForeignKey} (hO : (old.schemaOf upper).foreignKeys (t, n) = some fk)
    (hnot : (t, n) ∉ (removed upper changes).foreignKeys) (htable : t ∉ (removed upper changes).tables)
    (htable' : fk.refTable ∉ (removed upper changes).tables) (hcol : (t, fk.column) ∉ (removed upper changes).columns)
    (hcol' : (fk.refTable, fk.refColumn) ∉ (removed upper changes).columns) :
    (new.schemaOf upper).foreignKeys (t, n) = some fk := by
  have hold : (old.schemaOf upper).tables t = true :=
    h.old_ok.closed.columns (t, fk.column) (h.old_ok.closed.foreignKeys _ fk hO).1
  cases h.fate t with
  | @kept mo mn hkept =>
    obtain ⟨r, rel, hrel, htype, rfl, rfl⟩ := (old.foreignKeys_eq_some hkept.old).1 hO
    cases hrel' : mn.relations.lookup r with
    | none =>
      have hd := Difference.dropFK hkept hrel htype (AList.lookup_eq_none.1 hrel')
      exact absurd ((mem_removed_foreignKeys hperm).2 ⟨t, r, rel, hd, rfl⟩) hnot
    | some rel' =>
      have hcovered := (h.kept _ _ _ hkept).relations r rel rel' hrel htype hrel'
      split_ifs at hcovered with htype'
      · rw [← constraint_of_sameFK hcovered]
        exact (new.foreignKeys_eq_some hkept.new).2 ⟨r, rel', hrel', htype', rfl, rfl⟩
      · have hmo := old.mem_models_of_lookup hkept.old
        have hdropped : ∀ c, (mo.column c).isSome → mn.column c = none → (t, c) ∈ (removed upper changes).columns := by
          intro c hc hnone
          refine (mem_removed_columns hperm).2
            (((h.kept _ _ _ hkept).dropColumn_iff hkept (h.old_ok.columns mo hmo)).2 ?_)
          exact ⟨Option.isSome_iff_ne_none.1 hc, hnone⟩
        obtain ⟨hfk, hid⟩ := h.old_ok.references mo hmo (r, rel) (AList.mem_toPairs.2 hrel) htype
        rcases hcovered with hgone | ⟨hself, hnone | hnone⟩ | ⟨hnone, -⟩
        · obtain ⟨m, hm, -⟩ := (Option.any_eq_true _ _).1 hid
          exact absurd ((mem_removed_tables hperm).2 ⟨m, hm, hgone⟩) htable'
        · exact absurd (hdropped _ hfk hnone) hcol
        · rw [Models.hasId, hself, hkept.old, Option.any_some] at hid
          have hmem := hdropped "id" hid hnone
          rw [← hself] at hmem
          exact absurd hmem hcol'
        · exact absurd (hdropped _ hfk hnone) hcol
  | created _ ht => exact absurd (ht.symm.trans hold) Bool.false_ne_true
  | dropped hm => exact absurd ((mem_removed_tables hperm).2 ⟨_, hm⟩) htable
  | junction _ _ _ _ _ hfks => exact (hfks n).symm.trans hO
  | junctionCreated _ ht => exact absurd (ht.symm.trans hold) Bool.false_ne_true
  | absent ht => exact absurd (ht.symm.trans hold) Bool.false_ne_true

private theorem foreignKeys_left (k : String × String) : ((joined (old.schemaOf upper) (new.schemaOf upper)).remove
    (removed upper changes)).foreignKeys k = (new.schemaOf upper).foreignKeys k := by
  obtain ⟨t, n⟩ := k
  ext fk
  simp only [Schema.remove, joined, Option.filter_eq_some_iff, Option.or_eq_some_iff, decide_eq_true_eq]
  constructor
  · rintro ⟨hO | ⟨-, hN⟩, hnot, htable, htable', hcol, hcol'⟩
    · exact h.foreignKeys_kept hperm hO hnot htable htable' hcol hcol'
    · exact hN
  · intro hN
    obtain ⟨hcol, href⟩ := h.new_ok.closed.foreignKeys _ fk hN
    refine ⟨?_, ?_, h.not_removed_of_table hperm (h.new_ok.closed.columns _ hcol),
      h.not_removed_of_table hperm (h.new_ok.closed.columns _ href), h.not_removed_of_column hperm hcol,
      h.not_removed_of_column hperm href⟩
    · cases hO : (old.schemaOf upper).foreignKeys (t, n) with
      | none => exact .inr ⟨rfl, hN⟩
      | some fk' => exact .inl (congrArg some (h.foreignKey_old hO hN))
    · rw [mem_removed_foreignKeys hperm]
      rintro ⟨t', r, rel, hd, hk⟩
      obtain ⟨rfl, rfl⟩ := Prod.mk.inj hk
      cases hd with
      | dropFK hkept _ _ hnot =>
        obtain ⟨r', rel', hrel', -, hname, -⟩ := (new.foreignKeys_eq_some hkept.new).1 hN
        exact hnot (fkName_inj hname ▸ AList.mem_of_lookup hrel')

private theorem remove_joined : (joined (old.schemaOf upper) (new.schemaOf upper)).remove (removed upper changes) =
    new.schemaOf upper := by
  ext k v
  · rw [h.tables_left hperm]
  · rw [h.columns_left hperm]
  · rw [h.indexes_left hperm]
  · rw [h.foreignKeys_left hperm]

private theorem runs_additions : Runs (old.schemaOf upper) ((additions changes).flatMap (Change.up upper))
    (joined (old.schemaOf upper) (new.schemaOf upper)) := by
  have hY := fun t => h.mem_newTables hperm (t := t)
  have htables : (graft (old.schemaOf upper) (new.schemaOf upper)
      (newTables (old.schemaOf upper) (new.schemaOf upper) (topoSortCreates (creates changes)))).tables =
      (joined (old.schemaOf upper) (new.schemaOf upper)).tables := by
    funext t
    simp only [graft, joined, hY]
    cases (old.schemaOf upper).tables t <;> cases (new.schemaOf upper).tables t <;> rfl
  have hcreates := h.runs_creates hperm
  have hcolumns := h.runs_addColumns hperm hY (S := graft (old.schemaOf upper) (new.schemaOf upper)
    (newTables (old.schemaOf upper) (new.schemaOf upper) (topoSortCreates (creates changes))))
  rw [← htables] at hcolumns
  simp only [additions, List.flatMap_append]
  refine hcreates.append ((((hcolumns.append (h.runs_alterColumns hperm)).append ?_)).append (h.runs_addFKs hperm hY))
  rw [htables]
  exact h.runs_addIndexes hperm hY

end Covered

/-- The up script leads from the schema of the old models to that of the new ones, whatever the order in which the
changes are found. -/
theorem up_correct (h : Covered upper old new) :
    (∀ changes, changes.Perm (diffModels old new) →
      Runs (old.schemaOf upper) (changesToSQL upper changes).1 (new.schemaOf upper)) ∧
    (diffModels old new = [] → old.schemaOf upper = new.schemaOf upper) := by
  have hrun : ∀ changes, changes.Perm (diffModels old new) →
      Runs (old.schemaOf upper) (changesToSQL upper changes).1 (new.schemaOf upper) := by
    intro changes hperm
    have hremovals := h.runs_removals hperm
    rw [h.remove_joined hperm] at hremovals
    simp only [changesToSQL, ordered_eq]
    rw [List.flatMap_append]
    exact (h.runs_additions hperm).append hremovals
  refine ⟨hrun, fun hempty => ?_⟩
  have hnone := hrun [] (by rw [hempty])
  exact hnone.symm

/-- Students are given nicknames. -/
private theorem school_covered : Covered id (school []) (school [nickname]) := by
  have hkeys : (school []).map.keys = (school [nickname]).map.keys := by decide +kernel
  have hnone : (school []).junctions = [] ∧ (school [nickname]).junctions = [] := by decide +kernel
  refine ⟨school_wellFormed.1, school_wellFormed.2, fun t m hc => absurd hc (not_created_of_keys hkeys),
    fun t mo mn hk => ?_, fun t m hd => absurd hd (not_dropped_of_keys hkeys), fun t m hm i hi => ?_, fun n j hj => ?_,
    fun n j hj => ?_, fun n j hj => ?_⟩
  · have hparts : ∀ e ∈ (school []).map.toPairs, ∀ e' ∈ (school [nickname]).map.toPairs, e.1 = e'.1 →
        (e.2.indexes = [] ∧ e'.2.indexes = []) ∧ (impliedColumns e.2 = [] ∧ impliedColumns e'.2 = []) ∧
          losesKey e.2 e'.2 = false := by decide +kernel
    have hadds : ∀ e ∈ (school []).map.toPairs, ∀ e' ∈ (school [nickname]).map.toPairs, e.1 = e'.1 →
        ∀ c ∈ e'.2.columns.toPairs, c.1 ∉ e.2.columns → c.2.primaryKey = false := by decide +kernel
    have hkeeps : ∀ e ∈ (school []).map.toPairs, ∀ e' ∈ (school [nickname]).map.toPairs, e.1 = e'.1 →
        ∀ c ∈ e.2.columns.toPairs, ∀ c' ∈ e'.2.columns.toPairs, c.1 = c'.1 → c.2 = c'.2 ∧ c.2.notNull = true := by
      decide +kernel
    have hlinks : ∀ e ∈ (school []).map.toPairs, ∀ e' ∈ (school [nickname]).map.toPairs, e.1 = e'.1 →
        ∀ r ∈ e.2.relations.toPairs, ∀ r' ∈ e'.2.relations.toPairs, r.2.type = "belongsTo" → r.1 = r'.1 →
          r'.2.type = "belongsTo" ∧ sameFK (some r.2) r'.2 = true := by decide +kernel
    have hold := AList.mem_toPairs.2 hk.old
    have hnew := AList.mem_toPairs.2 hk.new
    obtain ⟨⟨hidx, hidx'⟩, ⟨himp, himp'⟩, hlost⟩ := hparts (t, mo) hold (t, mn) hnew rfl
    have hadded := hadds (t, mo) hold (t, mn) hnew rfl
    have hsame := hkeeps (t, mo) hold (t, mn) hnew rfl
    have hrels := hlinks (t, mo) hold (t, mn) hnew rfl
    refine ⟨fun c _ => by simp [himp], fun c _ => by simp [himp'], fun c n hn hc => ?_, fun c o n ho hn => ?_,
      fun i hi => ?_, fun i hi => ?_, fun r o n ho htype hn => ?_⟩
    · exact hadded (c, n) (AList.mem_toPairs.2 hn) hc
    · obtain ⟨rfl, hnull⟩ := hsame (c, o) (AList.mem_toPairs.2 ho) (c, n) (AList.mem_toPairs.2 hn) rfl
      exact ⟨by simp [hlost], .inr rfl, fun _ => .inl hnull⟩
    · rw [hidx'] at hi
      cases hi
    · rw [hidx] at hi
      cases hi
    · obtain ⟨htype', hfk⟩ := hrels (r, o) (AList.mem_toPairs.2 ho) (r, n) (AList.mem_toPairs.2 hn) htype rfl
      rw [if_pos htype']
      exact hfk
  · have hall : ∀ e ∈ (school [nickname]).map.toPairs, e.2.indexes = [] := by decide +kernel
    rw [hall (t, m) (AList.mem_toPairs.2 hm)] at hi
    cases hi
  · rw [junction_of_empty hnone.1] at hj
    cases hj
  · rw [junction_of_empty hnone.2] at hj
    cases hj
  · rw [junction_of_empty hnone.2] at hj
    cases hj

theorem up_correct_school :
    (∀ changes, changes.Perm (diffModels (school []) (school [nickname])) →
      Runs ((school []).schemaOf id) (changesToSQL id changes).1 ((school [nickname]).schemaOf id)) ∧
    (diffModels (school []) (school [nickname]) = [] → (school []).schemaOf id = (school [nickname]).schemaOf id) :=
  up_correct school_covered

/-- A column is made longer: the script is empty. -/
theorem up_not_correct : (titled 50).WellFormed ∧ (titled 100).WellFormed ∧
    ¬Runs ((titled 50).schemaOf id) (changesToSQL id (diffModels (titled 50) (titled 100))).1
      ((titled 100).schemaOf id) := by
  refine ⟨titled_wellFormed.1, titled_wellFormed.2, ?_⟩
  have hscript : changesToSQL id (diffModels (titled 50) (titled 100)) = ([], []) := by decide +kernel
  rw [hscript]
  intro hrun
  have hcolumns : ((titled 100).schemaOf id).columns ("notes", "title") =
      ((titled 50).schemaOf id).columns ("notes", "title") := by
    rw [show (titled 100).schemaOf id = (titled 50).schemaOf id from hrun]
  revert hcolumns
  decide +kernel

end Noda.Generate
