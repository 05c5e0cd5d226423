import Noda.Lib.Assoc
import Noda.Lib.Ddl

/-!
# Additions and their undoing

Statements that only add keep a schema closed, keep what is there, and are undone by removing what they have added.
Removals commute with the statements that undo additions (`Runs.remove`), so it does not matter whether something else
has been removed in between.
-/

namespace Ddl

/-- The statement removes nothing. -/
def Stmt.Adds : Stmt → Prop
  | .dropTable .. | .dropColumn .. | .dropIndex .. | .dropConstraint .. => False
  | _ => True

/-- The name of a table or an index that must be free. -/
def Stmt.name : Stmt → Option String
  | .createTable t _ => some t
  | .createIndex n _ => some n
  | _ => none

/-- The statement alters the column. -/
def Stmt.Alters (k : String × String) : Stmt → Prop
  | .alterColumn t c _ => (t, c) = k
  | _ => False

variable {S S' T : Schema} {script : List Stmt} {st : Stmt} {t c n : String} {k : String × String}

/-! ### Additions -/

theorem Schema.Closed.columns_apply (hS : S.Closed) (hg : st.Guard S) (hadds : st.Adds) (hk : S.columns k ≠ none) :
    (st.apply S).columns k ≠ none ∧ (¬st.Alters k → (st.apply S).columns k = S.columns k) := by
  have htable := hS.columns k hk
  have hnot : ∀ t, S.taken t = false → k.1 ≠ t := by
    rintro t ht rfl
    simp [Schema.taken, htable] at ht
  cases st with
  | createTable t cols => simp [Stmt.apply, hnot t hg.1, hk]
  | createTableIfNotExists t cols fks =>
    cases ht : S.taken t with
    | true => simp [Stmt.apply, ht, hk]
    | false => simp [Stmt.apply, ht, hnot t ht, hk]
  | addColumn t c col =>
    have hne : k ≠ (t, c) := by
      rintro rfl
      exact hk hg.2
    simp [Stmt.apply, Function.update_of_ne hne, hk]
  | alterColumn t c a =>
    by_cases hkc : k = (t, c)
    · subst hkc
      simp [Stmt.apply, Stmt.Alters, hk]
    · simp [Stmt.apply, Function.update_of_ne hkc, hk]
  | createIndex n idx => exact ⟨hk, fun _ => rfl⟩
  | addForeignKey t n fk => exact ⟨hk, fun _ => rfl⟩
  | dropTable t => cases hadds
  | dropColumn t c => cases hadds
  | dropIndex n => cases hadds
  | dropConstraint t n => cases hadds

private theorem tables_apply (hadds : st.Adds) (ht : S.tables t = true) : (st.apply S).tables t = true := by
  have hupdate : ∀ t', Function.update S.tables t' true t = true := by
    intro t'
    by_cases htt : t = t'
    · simp [htt]
    · simp [Function.update_of_ne htt, ht]
  cases st with
  | createTable t' cols => exact hupdate t'
  | createTableIfNotExists t' cols fks =>
    simp only [Stmt.apply]
    split_ifs
    · exact ht
    · exact hupdate t'
  | addColumn t c col => exact ht
  | alterColumn t c a => exact ht
  | createIndex n idx => exact ht
  | addForeignKey t n fk => exact ht
  | dropTable t => cases hadds
  | dropColumn t c => cases hadds
  | dropIndex n => cases hadds
  | dropConstraint t n => cases hadds

theorem Schema.Closed.apply (hS : S.Closed) (hg : st.Guard S) (hadds : st.Adds) : (st.apply S).Closed := by
  have hcols : ∀ k, S.columns k ≠ none → (st.apply S).columns k ≠ none := fun k hk => (hS.columns_apply hg hadds hk).1
  have htabs : ∀ t, S.tables t = true → (st.apply S).tables t = true := fun t ht => tables_apply hadds ht
  have hindexes : ∀ n idx, S.indexes n = some idx → (st.apply S).tables idx.table = true ∧
      ∀ c ∈ idx.columns, (st.apply S).columns (idx.table, c) ≠ none := fun n idx hidx =>
    ⟨htabs _ (hS.indexes n idx hidx).1, fun c hc => hcols _ ((hS.indexes n idx hidx).2 c hc)⟩
  have hfks : ∀ k fk, S.foreignKeys k = some fk → (st.apply S).columns (k.1, fk.column) ≠ none ∧
      (st.apply S).columns (fk.refTable, fk.refColumn) ≠ none := fun k fk hfk =>
    ⟨hcols _ (hS.foreignKeys k fk hfk).1, hcols _ (hS.foreignKeys k fk hfk).2⟩
  cases st with
  | createTable t cols =>
    refine ⟨fun k hk => ?_, hindexes, hfks⟩
    by_cases hkt : k.1 = t
    · simp [Stmt.apply, hkt]
    · simp only [Stmt.apply, if_neg hkt] at hk
      exact htabs _ (hS.columns k hk)
  | createTableIfNotExists t cols fks =>
    cases ht : S.taken t with
    | true =>
      simp only [Stmt.apply, ht, if_true]
      exact hS
    | false =>
      simp only [Stmt.apply, ht, Bool.false_eq_true, if_false] at hcols htabs hindexes hfks ⊢
      obtain ⟨-, hrefs⟩ := hg.resolve_left (by simp [ht])
      refine ⟨fun k hk => ?_, hindexes, fun k fk hfk => ?_⟩
      · by_cases hkt : k.1 = t
        · simp [hkt]
        · simp only [if_neg hkt] at hk
          exact htabs _ (hS.columns k hk)
      · by_cases hkt : k.1 = t
        · simp only [if_pos hkt] at hfk
          obtain ⟨hcol, href⟩ := hrefs _ (Assoc.mem_of_lookup hfk)
          refine ⟨?_, hcols _ href⟩
          simp only [if_pos hkt, Ne, Assoc.lookup_eq_none]
          intro hnone
          obtain ⟨⟨c, col⟩, hmem, hc⟩ := List.mem_map.1 hcol
          exact hnone col (hc ▸ hmem)
        · simp only [if_neg hkt] at hfk
          exact hfks k fk hfk
  | addColumn t c col =>
    refine ⟨fun k hk => ?_, hindexes, hfks⟩
    by_cases hkc : k = (t, c)
    · subst hkc
      exact htabs _ hg.1
    · simp only [Stmt.apply, Function.update_of_ne hkc] at hk
      exact htabs _ (hS.columns k hk)
  | alterColumn t c a =>
    refine ⟨fun k hk => ?_, hindexes, hfks⟩
    by_cases hkc : k = (t, c)
    · subst hkc
      exact htabs _ (hS.columns _ hg.1)
    · simp only [Stmt.apply, Function.update_of_ne hkc] at hk
      exact htabs _ (hS.columns k hk)
  | createIndex n idx =>
    refine ⟨hS.columns, fun n' idx' hidx => ?_, hfks⟩
    by_cases hn : n' = n
    · subst hn
      simp only [Stmt.apply, Function.update_self, Option.some.injEq] at hidx
      subst hidx
      exact ⟨hg.2.1, hg.2.2.2⟩
    · simp only [Stmt.apply, Function.update_of_ne hn] at hidx
      exact hindexes n' idx' hidx
  | addForeignKey t n fk =>
    refine ⟨hS.columns, hindexes, fun k fk' hfk => ?_⟩
    by_cases hk : k = (t, n)
    · subst hk
      simp only [Stmt.apply, Function.update_self, Option.some.injEq] at hfk
      subst hfk
      exact hg.2
    · simp only [Stmt.apply, Function.update_of_ne hk] at hfk
      exact hfks k fk' hfk
  | dropTable t => cases hadds
  | dropColumn t c => cases hadds
  | dropIndex n => cases hadds
  | dropConstraint t n => cases hadds

/-- A name that is taken stays so. -/
private theorem taken_apply (hadds : st.Adds) (hn : S.taken n = true) : (st.apply S).taken n = true := by
  rcases Bool.or_eq_true_iff.1 hn with ht | hidx
  · simp [Schema.taken, tables_apply hadds ht]
  · cases st with
    | createTableIfNotExists t cols fks =>
      simp only [Stmt.apply]
      split_ifs
      · exact hn
      · simp [Schema.taken, hidx]
    | createIndex n' idx =>
      by_cases hnn : n = n'
      · subst hnn
        simp [Schema.taken, Stmt.apply]
      · simp [Schema.taken, Stmt.apply, Function.update_of_ne hnn, hidx]
    | createTable t cols => simp [Schema.taken, Stmt.apply, hidx]
    | addColumn t c col => simp [Schema.taken, Stmt.apply, hidx]
    | alterColumn t c a => simp [Schema.taken, Stmt.apply, hidx]
    | addForeignKey t n fk => simp [Schema.taken, Stmt.apply, hidx]
    | dropTable t => cases hadds
    | dropColumn t c => cases hadds
    | dropIndex n => cases hadds
    | dropConstraint t n => cases hadds

private theorem taken_of_name (hname : st.name = some n) : (st.apply S).taken n = true := by
  cases st with
  | createTable t cols =>
    obtain rfl := Option.some.inj hname
    simp [Schema.taken, Stmt.apply]
  | createIndex n' idx =>
    obtain rfl := Option.some.inj hname
    simp [Schema.taken, Stmt.apply]
  | _ => cases hname

private theorem not_taken_of_name (hname : st.name = some n) (hg : st.Guard S) : S.taken n = false := by
  cases st with
  | createTable t cols =>
    obtain rfl := Option.some.inj hname
    exact hg.1
  | createIndex n' idx =>
    obtain rfl := Option.some.inj hname
    exact hg.1
  | _ => cases hname

namespace Runs

theorem closed (hrun : Runs S script S') (hadds : ∀ st ∈ script, st.Adds) (hS : S.Closed) : S'.Closed := by
  induction script generalizing S with
  | nil =>
    obtain rfl : S' = S := hrun
    exact hS
  | cons st script ih =>
    rw [List.forall_mem_cons] at hadds
    exact ih hrun.2 hadds.2 (hS.apply hrun.1 hadds.1)

theorem taken (hrun : Runs S script S') (hadds : ∀ st ∈ script, st.Adds) (hn : S.taken n = true) :
    S'.taken n = true := by
  induction script generalizing S with
  | nil =>
    obtain rfl : S' = S := hrun
    exact hn
  | cons st script ih =>
    rw [List.forall_mem_cons] at hadds
    exact ih hrun.2 hadds.2 (taken_apply hadds.1 hn)

/-- The names that a script creates are taken after it, and free before it. -/
theorem name (hrun : Runs S script S') (hadds : ∀ st ∈ script, st.Adds) (hst : st ∈ script) (hname : st.name = some n) :
    S'.taken n = true ∧ S.taken n = false := by
  induction script generalizing S with
  | nil => cases hst
  | cons st' script ih =>
    rw [List.forall_mem_cons] at hadds
    rcases List.mem_cons.1 hst with rfl | hst
    · exact ⟨taken hrun.2 hadds.2 (taken_of_name hname), not_taken_of_name hname hrun.1⟩
    · obtain ⟨htaken, hfree⟩ := ih hrun.2 hadds.2 hst
      refine ⟨htaken, ?_⟩
      by_contra hn
      rw [Bool.not_eq_false] at hn
      exact Bool.false_ne_true (hfree.symm.trans (taken_apply hadds.1 hn))

theorem columns_eq (hrun : Runs S script S') (hadds : ∀ st ∈ script, st.Adds) (hS : S.Closed) (hk : S.columns k ≠ none)
    (halters : ∀ st ∈ script, ¬st.Alters k) : S'.columns k = S.columns k := by
  induction script generalizing S with
  | nil =>
    obtain rfl : S' = S := hrun
    rfl
  | cons st script ih =>
    rw [List.forall_mem_cons] at hadds halters
    have hsame := (hS.columns_apply hrun.1 hadds.1 hk).2 halters.1
    rw [← hsame] at hk ⊢
    exact ih hrun.2 hadds.2 (hS.apply hrun.1 hadds.1) hk halters.2

end Runs

/-! ### Undoing -/

/-- The statement is about the table. -/
def Stmt.Within (t : String) : Stmt → Prop
  | .createTable t' _ => t' = t
  | .createIndex _ idx => idx.table = t
  | .addForeignKey t' _ _ => t' = t
  | _ => False

theorem losesKey_tables (S : Schema) (ts : List String) : S.losesKey { tables := ts } t = false := rfl

private theorem remove_of_within (hg : st.Guard S) (h : st.Within t) :
    (st.apply S).remove { tables := [t] } = S.remove { tables := [t] } := by
  cases st with
  | createTable t' cols =>
    obtain rfl : t' = t := h
    ext k v
    · by_cases hk : k = t'
      · simp [Schema.remove, Stmt.apply, hk]
      · simp [Schema.remove, Stmt.apply, Function.update_of_ne hk]
    · by_cases hk : k.1 = t'
      · simp [Schema.remove, hk]
      · simp [Schema.remove, losesKey_tables, Stmt.apply, hk]
    · rfl
    · rfl
  | createIndex n idx =>
    obtain rfl : idx.table = t := h
    have hfree : S.indexes n = none := by simpa using (Bool.or_eq_false_iff.1 hg.1).2
    ext k v
    · rfl
    · rfl
    · by_cases hk : k = n
      · subst hk
        simp [Schema.remove, Stmt.apply, hfree, Option.filter]
      · simp [Schema.remove, Stmt.apply, Function.update_of_ne hk]
    · rfl
  | addForeignKey t' n fk =>
    obtain rfl : t' = t := h
    ext k v
    · rfl
    · rfl
    · rfl
    · by_cases hk : k = (t', n)
      · subst hk
        simp [Schema.remove, Stmt.apply]
      · simp [Schema.remove, Stmt.apply, Function.update_of_ne hk]
  | _ => cases h

/-- A script about one table leaves the others as they are. -/
theorem Runs.remove_within (hrun : Runs S script S') (h : ∀ st ∈ script, st.Within t) :
    S'.remove { tables := [t] } = S.remove { tables := [t] } := by
  induction script generalizing S with
  | nil =>
    obtain rfl : S' = S := hrun
    rfl
  | cons st script ih =>
    rw [List.forall_mem_cons] at h
    rw [ih hrun.2 h.2, remove_of_within hrun.1 h.1]

theorem Schema.Closed.remove_absent (hS : S.Closed) (ht : S.tables t = false) : S.remove { tables := [t] } = S := by
  have hcols : ∀ k, S.columns k ≠ none → k.1 ≠ t := by
    rintro k hk rfl
    exact hk (hS.columns_none ht)
  ext k v
  · by_cases hk : k = t
    · simp [Schema.remove, hk, ht]
    · simp [Schema.remove, hk]
  · by_cases hk : k.1 = t
    · have hnone : S.columns k = none := hS.columns_none (hk ▸ ht)
      simp [Schema.remove, hk, hnone]
    · simp [Schema.remove, losesKey_tables, hk]
  · simp only [Schema.remove, Option.filter_eq_some_iff, decide_eq_true_eq, List.mem_singleton, List.not_mem_nil,
      not_false_eq_true, implies_true, and_true, true_and]
    refine ⟨And.left, fun hidx => ⟨hidx, ?_⟩⟩
    rintro rfl
    exact Bool.false_ne_true (ht.symm.trans (hS.indexes k v hidx).1)
  · simp only [Schema.remove, Option.filter_eq_some_iff, decide_eq_true_eq, List.mem_singleton, List.not_mem_nil,
      not_false_eq_true, and_true, true_and]
    refine ⟨And.left, fun hfk => ⟨hfk, ?_, ?_⟩⟩
    · exact hcols (k.1, v.column) (hS.foreignKeys k v hfk).1
    · exact hcols (v.refTable, v.refColumn) (hS.foreignKeys k v hfk).2

theorem undo_addColumn {col : Column} (hS : S.Closed) (hg : (Stmt.addColumn t c col).Guard S)
    (hkey : col.primaryKey = false) : Runs ((Stmt.addColumn t c col).apply S) [.dropColumn t c] S := by
  have hrefs : ∀ k fk, S.foreignKeys k = some fk → (k.1, fk.column) ≠ (t, c) ∧
      (fk.refTable, fk.refColumn) ≠ (t, c) := by
    intro k fk hfk
    obtain ⟨hcol, href⟩ := hS.foreignKeys k fk hfk
    exact ⟨fun he => (he ▸ hcol) hg.2, fun he => (he ▸ href) hg.2⟩
  have hlost : ∀ t', ((Stmt.addColumn t c col).apply S).losesKey { columns := [(t, c)] } t' = false := by
    intro t'
    simp [Schema.losesKey, Schema.isKey, Stmt.apply, hkey]
  refine ⟨⟨by simp [Stmt.apply], fun k fk hfk htable hcolumn => ?_⟩, ?_⟩
  · exact absurd (Prod.ext htable hcolumn) (hrefs k fk hfk).2
  · show S = ((Stmt.addColumn t c col).apply S).remove { columns := [(t, c)] }
    ext k v
    · simp [Schema.remove, Stmt.apply]
    · simp only [Schema.remove, hlost]
      by_cases hk : k = (t, c)
      · subst hk
        simp [hg.2]
      · simp [Stmt.apply, hk]
    · simp only [Schema.remove, Stmt.apply, Option.filter_eq_some_iff, decide_eq_true_eq, List.mem_singleton,
        List.not_mem_nil, not_false_eq_true, true_and]
      refine ⟨fun hidx => ⟨hidx, fun c' hc' he => ?_⟩, And.left⟩
      exact ((hS.indexes k v hidx).2 c' hc') (he ▸ hg.2)
    · simp only [Schema.remove, Stmt.apply, Option.filter_eq_some_iff, decide_eq_true_eq, List.mem_singleton,
        List.not_mem_nil, not_false_eq_true, true_and]
      exact ⟨fun hfk => ⟨hfk, hrefs k v hfk⟩, And.left⟩

theorem undo_createIndex {idx : Index} (hg : (Stmt.createIndex n idx).Guard S) :
    Runs ((Stmt.createIndex n idx).apply S) [.dropIndex n] S := by
  have hfree : S.indexes n = none := by simpa using (Bool.or_eq_false_iff.1 hg.1).2
  refine ⟨trivial, ?_⟩
  show S = ((Stmt.createIndex n idx).apply S).remove { indexes := [n] }
  ext k v
  · simp [Schema.remove, Stmt.apply]
  · simp [Schema.remove, Stmt.apply, Schema.losesKey]
  · by_cases hk : k = n
    · subst hk
      simp [Schema.remove, Stmt.apply, hfree]
    · simp [Schema.remove, Stmt.apply, hk, Option.filter_eq_some_iff]
  · simp [Schema.remove, Stmt.apply]

theorem undo_addForeignKey {fk : ForeignKey} (hS : S.Closed) (hg : (Stmt.addForeignKey t n fk).Guard S) :
    Runs ((Stmt.addForeignKey t n fk).apply S) [.dropConstraint t n] S := by
  refine ⟨hS.columns (t, fk.column) hg.2.1, ?_⟩
  show S = ((Stmt.addForeignKey t n fk).apply S).remove { foreignKeys := [(t, n)] }
  ext k v
  · simp [Schema.remove, Stmt.apply]
  · simp [Schema.remove, Stmt.apply, Schema.losesKey]
  · simp [Schema.remove, Stmt.apply]
  · by_cases hk : k = (t, n)
    · subst hk
      simp [Schema.remove, Stmt.apply, hg.1]
    · simp [Schema.remove, Stmt.apply, hk, Option.filter_eq_some_iff]

theorem Runs.alterations {as : List Alteration} {col : Column} (hrun : Runs S (as.map (.alterColumn t c)) S')
    (hcol : S.columns (t, c) = some col) :
    S' = { S with columns := Function.update S.columns (t, c) (some (as.foldl Alteration.apply col)) } := by
  induction as generalizing S col with
  | nil =>
    obtain rfl : S' = S := hrun
    rw [List.foldl_nil, ← hcol, Function.update_eq_self]
  | cons a as ih =>
    have hcol' : ((Stmt.alterColumn t c a).apply S).columns (t, c) = some (a.apply col) := by simp [Stmt.apply, hcol]
    rw [ih hrun.2 hcol']
    simp [Stmt.apply]

/-! ### Undoing after a removal -/

/-- The statement undoes an addition, and refers to nothing that is removed. -/
def Stmt.Undoes (R : Removal) : Stmt → Prop
  | .dropTable _ | .dropIndex _ => True
  | .dropConstraint t _ => t ∉ R.tables
  | .dropColumn t c | .alterColumn t c _ => t ∉ R.tables ∧ (t, c) ∉ R.columns
  | _ => False

variable {R : Removal}

theorem columns_remove (S : Schema) (hk : S.columns k ≠ none) (htable : k.1 ∉ R.tables) (hcol : k ∉ R.columns) :
    (S.remove R).columns k ≠ none := by
  simp only [Schema.remove, htable, hcol, or_self, if_false]
  split_ifs
  · simpa using hk
  · exact hk

/-- Alterations do not touch primary keys. -/
private theorem isKey_alterColumn (S : Schema) (a : Alteration) (k : String × String) :
    ((Stmt.alterColumn t c a).apply S).isKey k = S.isKey k := by
  by_cases hk : k = (t, c)
  · subst hk
    simp only [Schema.isKey, Stmt.apply, Function.update_self]
    cases S.columns (t, c) with
    | none => rfl
    | some col => cases a <;> rfl
  · simp [Schema.isKey, Stmt.apply, hk]

private theorem alterColumn_remove (S : Schema) (a : Alteration) (htable : t ∉ R.tables) (hcol : (t, c) ∉ R.columns) :
    (Stmt.alterColumn t c a).apply (S.remove R) = ((Stmt.alterColumn t c a).apply S).remove R := by
  have hlost : ∀ t', ((Stmt.alterColumn t c a).apply S).losesKey R t' = S.losesKey R t' := by
    intro t'
    simp only [Schema.losesKey, isKey_alterColumn]
  ext k v
  · rfl
  · simp only [Schema.remove, hlost]
    by_cases hk : k = (t, c)
    · subst hk
      simp only [Stmt.apply, Function.update_self, htable, hcol, or_self, if_false]
      split_ifs
      · rw [Option.map_map, Option.map_map]
        cases a <;> rfl
      · rfl
    · simp [Stmt.apply, hk]
  · rfl
  · rfl

theorem Stmt.Undoes.remove (h : st.Undoes R) (hg : st.Guard S) :
    st.Guard (S.remove R) ∧ st.apply (S.remove R) = (st.apply S).remove R := by
  cases st with
  | dropTable t => exact ⟨trivial, S.remove_comm _ _⟩
  | dropIndex n => exact ⟨trivial, S.remove_comm _ _⟩
  | dropConstraint t n =>
    refine ⟨?_, S.remove_comm _ _⟩
    have htable : S.tables t = true := hg
    have hnot : t ∉ R.tables := h
    simp [Stmt.Guard, Schema.remove, htable, hnot]
  | dropColumn t c =>
    refine ⟨⟨columns_remove S hg.1 h.1 h.2, fun k fk hfk => ?_⟩, S.remove_comm _ _⟩
    exact hg.2 k fk (Option.filter_eq_some_iff.1 hfk).1
  | alterColumn t c a =>
    refine ⟨⟨columns_remove S hg.1 h.1 h.2, fun ha => ?_⟩, alterColumn_remove S a h.1 h.2⟩
    rw [← Bool.not_eq_true, S.isKey_remove, hg.2 ha]
    rintro ⟨hkey, -⟩
    cases hkey
  | createTable t cols => cases h
  | createTableIfNotExists t cols fks => cases h
  | addColumn t c col => cases h
  | createIndex n idx => cases h
  | addForeignKey t n fk => cases h

/-- What undoes additions also does so after other objects have been removed. -/
theorem Runs.remove (hrun : Runs S script S') (h : ∀ st ∈ script, st.Undoes R) :
    Runs (S.remove R) script (S'.remove R) := by
  induction script generalizing S with
  | nil =>
    obtain rfl : S' = S := hrun
    rfl
  | cons st script ih =>
    rw [List.forall_mem_cons] at h
    obtain ⟨hg, happly⟩ := h.1.remove hrun.1
    refine ⟨hg, ?_⟩
    rw [happly]
    exact ih hrun.2 h.2

private theorem columns_none_apply (h : st.Undoes {}) (hk : S.columns k = none) : (st.apply S).columns k = none := by
  have hremove : ∀ R : Removal, (S.remove R).columns k = none := by
    intro R
    simp [Schema.remove, hk]
  cases st with
  | dropTable t => exact hremove _
  | dropIndex n => exact hremove _
  | dropConstraint t n => exact hremove _
  | dropColumn t c => exact hremove _
  | alterColumn t c a =>
    by_cases hkc : k = (t, c)
    · subst hkc
      simp [Stmt.apply, hk]
    · simp [Stmt.apply, hkc, hk]
  | createTable t cols => cases h
  | createTableIfNotExists t cols fks => cases h
  | addColumn t c col => cases h
  | createIndex n idx => cases h
  | addForeignKey t n fk => cases h

theorem Runs.columns_none (hrun : Runs S script S') (h : ∀ st ∈ script, st.Undoes {})
    (hk : S.columns (t, c) = none ∨ .dropColumn t c ∈ script) : S'.columns (t, c) = none := by
  induction script generalizing S with
  | nil =>
    obtain rfl : S' = S := hrun
    exact hk.resolve_right List.not_mem_nil
  | cons st script ih =>
    rw [List.forall_mem_cons] at h
    refine ih hrun.2 h.2 ?_
    rcases hk with hk | hk
    · exact .inl (columns_none_apply h.1 hk)
    · rcases List.mem_cons.1 hk with rfl | hk
      · left
        simp [Stmt.apply, Schema.remove]
      · exact .inr hk

theorem Runs.remove_eq (hrun : Runs S script S') (h : ∀ st ∈ script, ¬st.Adds) : S' = S.remove (removal script) := by
  induction script generalizing S with
  | nil =>
    obtain rfl : S' = S := hrun
    exact S'.remove_nil.symm
  | cons st script ih =>
    rw [List.forall_mem_cons] at h
    have happly : st.apply S = S.remove st.removal := by
      cases st with
      | dropTable t => rfl
      | dropColumn t c => rfl
      | dropIndex n => rfl
      | dropConstraint t n => rfl
      | _ => exact absurd trivial h.1
    rw [ih hrun.2 h.2, happly, S.remove_remove, ← removal_singleton, ← removal_append, List.singleton_append]

end Ddl
