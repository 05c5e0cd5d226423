import Noda.Generate.Tables
import Noda.Lib.Undo

/-!
# The parts of the down script

The down script undoes the additions of the up script in reverse, and then makes up for its removals in the order in
which they were made (`changesToSQL_eq`).  The first part always does what it should (`Pending.undo`), but for junction
tables, which are never dropped.
-/

namespace Noda.Generate

open Ddl

variable (upper : String → String)

/-- What undoes an addition. -/
def Change.undo : Change → List Stmt
  | .createTable _ m => [.dropTable m.table]
  | .addColumn t c _ => [.dropColumn t c]
  | .alterColumn t c o n => (alterations upper n o).reverse.map (.alterColumn t c)
  | .addIndex t i => [.dropIndex (Generate.indexName t i.columns)]
  | .addFK t r _ => [.dropConstraint t (fkName t r)]
  | _ => []

/-- What makes up for a removal. -/
def Change.redo : Change → List Stmt
  | .dropTable _ m => (createTableSQL upper m).1
  | .dropColumn t c (some col) => [.addColumn t c (addedColumn upper col)]
  | .dropIndex t i => [.createIndex (Generate.indexName t i.columns) (i.index t)]
  | .dropFK t r rel => [.addForeignKey t (fkName t r) rel.constraint]
  | _ => []

variable {upper} {old new : Models} {n : String} {m : ModelDef} {changes : List Change} {S S' : Schema}

private theorem down_eq (script : List Stmt) (ch : Change) :
    Change.down upper script ch = ch.undo upper ++ script ++ ch.redo upper := by
  cases ch with
  | dropColumn t c o => cases o <;> simp [Change.down, Change.undo, Change.redo]
  | _ => simp [Change.down, Change.undo, Change.redo, createTableSQL]

private theorem foldl_down (L : List Change) (script : List Stmt) :
    L.foldl (Change.down upper) script = L.reverse.flatMap (Change.undo upper) ++ script ++
      L.flatMap (Change.redo upper) := by
  induction L generalizing script with
  | nil => simp
  | cons ch L ih => simp [ih, down_eq]

private theorem undo_of_removal {ch : Change} (h : 4 < ch.order) : ch.undo upper = [] := by
  cases ch with
  | dropTable t m => rfl
  | dropColumn t c o => rfl
  | dropIndex t i => rfl
  | dropFK t r rel => rfl
  | _ => exact absurd h (by simp [Change.order])

private theorem redo_of_addition {ch : Change} (h : ch.order ≤ 4) : ch.redo upper = [] := by
  cases ch with
  | dropTable t m => exact absurd h (by simp [Change.order])
  | dropColumn t c o => exact absurd h (by simp [Change.order])
  | dropIndex t i => exact absurd h (by simp [Change.order])
  | dropFK t r rel => exact absurd h (by simp [Change.order])
  | _ => rfl

theorem changesToSQL_eq (hperm : changes.Perm (diffModels old new)) (hold : old.WellFormed) :
    changesToSQL upper changes =
    ((additions changes).flatMap (Change.up upper) ++ (removals changes).flatMap (Change.up upper),
      (additions changes).reverse.flatMap (Change.undo upper) ++ (removals changes).flatMap (Change.redo upper)) := by
  have hundo : (removals changes).reverse.flatMap (Change.undo upper) = [] := by
    rw [List.flatMap_eq_nil_iff]
    intro ch hch
    exact undo_of_removal (mem_removals.1 (List.mem_reverse.1 hch)).2
  have hredo : (additions changes).flatMap (Change.redo upper) = [] := by
    rw [List.flatMap_eq_nil_iff]
    intro ch hch
    exact redo_of_addition ((mem_additions hperm hold.columns).1 hch).2
  rw [changesToSQL, ordered_eq, foldl_down]
  simp only [List.flatMap_append, List.reverse_append, hundo, hredo, List.append_nil, List.nil_append]

/-! ### Additions -/

variable (upper) in
private theorem tableSQL_within (m : ModelDef) :
    ∀ st ∈ tableSQL upper m, st.Within m.table ∧ st.Adds ∧ ∀ k, ¬st.Alters k := by
  simp only [tableSQL, List.mem_cons, List.mem_append, List.mem_map]
  rintro st (rfl | ⟨i, hi, rfl⟩ | ⟨k, -, rfl⟩)
  · exact ⟨rfl, trivial, fun _ => id⟩
  · obtain ⟨idx, -, rfl⟩ := List.mem_map.1 hi
    exact ⟨rfl, trivial, fun _ => id⟩
  · exact ⟨rfl, trivial, fun _ => id⟩

variable (upper) in
theorem exists_name (hn : n = m.table ∨ n ∈ (tableIndexes m).map Prod.fst) :
    ∃ st ∈ tableSQL upper m, st.name = some n := by
  rcases hn with rfl | hn
  · exact ⟨_, List.mem_cons_self, rfl⟩
  · obtain ⟨i, hi, rfl⟩ := List.mem_map.1 hn
    exact ⟨_, List.mem_cons_of_mem _ (List.mem_append_left _ (List.mem_map_of_mem hi)), rfl⟩

private theorem up_adds {ch : Change} (h : ch.order ≤ 4) : ∀ st ∈ ch.up upper, st.Adds := by
  intro st hst
  cases ch with
  | createTable t m =>
    simp only [Change.up, createTableSQL_eq, List.mem_append] at hst
    rcases hst with hst | hst
    · exact (tableSQL_within upper m st hst).2.1
    · obtain ⟨j, -, rfl⟩ := List.mem_map.1 hst
      trivial
  | alterColumn t c o n =>
    obtain ⟨a, -, rfl⟩ := List.mem_map.1 hst
    trivial
  | addColumn t c col =>
    rw [List.mem_singleton.1 hst]
    trivial
  | addIndex t i =>
    rw [List.mem_singleton.1 hst]
    trivial
  | addFK t r rel =>
    rw [List.mem_singleton.1 hst]
    trivial
  | _ => exact absurd h (by simp [Change.order])

/-- No junction table is created whose name is taken, or is needed later. -/
private theorem skip_junctions {js : List Junction} {rest : List Stmt} (hrest : ∀ st ∈ rest, st.Adds)
    (hjs : ∀ j ∈ js, S.taken j.name = true ∨ ∃ st ∈ rest, st.name = some j.name)
    (hrun : Runs S (js.map junctionSQL ++ rest) S') : Runs S rest S' := by
  induction js with
  | nil => exact hrun
  | cons j js ih =>
    rw [List.forall_mem_cons] at hjs
    rw [List.map_cons, List.cons_append] at hrun
    cases htaken : S.taken j.name with
    | true =>
      have happly : (junctionSQL j).apply S = S := by simp [junctionSQL, Stmt.apply, htaken]
      rw [Runs, happly] at hrun
      exact ih hjs.2 hrun.2
    | false =>
      obtain ⟨st, hst, hname⟩ := hjs.1.resolve_left (by simp [htaken])
      have hadds : ∀ st ∈ js.map junctionSQL ++ rest, st.Adds := by
        rw [List.forall_mem_append]
        refine ⟨fun st hst => ?_, hrest⟩
        obtain ⟨j', -, rfl⟩ := List.mem_map.1 hst
        trivial
      have hfree := (hrun.2.name hadds (List.mem_append_right _ hst) hname).2
      simp only [junctionSQL, Stmt.apply, htaken, Bool.false_eq_true, if_false] at hfree
      simp [Schema.taken] at hfree

/-- The name is taken, or will be. -/
def Bound (upper : String → String) (S : Schema) (L : List Change) (n : String) : Prop :=
  S.taken n = true ∨ ∃ st ∈ L.flatMap (Change.up upper), st.name = some n

/-- What holds before the rest of the additions. -/
structure Pending (upper : String → String) (S : Schema) (L : List Change) : Prop where
  closed : S.Closed
  adds : ∀ ch ∈ L, ch.order ≤ 4
  alters : ∀ t c o n, .alterColumn t c o n ∈ L → S.columns (t, c) = some (createdColumn upper o) ∧
    (o.primaryKey = true → o.notNull = false → n.notNull = false)
  apart : L.Pairwise fun a b => a.order = 2 → b.order = 2 → a.key ≠ b.key
  junctions : ∀ t m, .createTable t m ∈ L → ∀ j ∈ junctions m, Bound upper S L j.name

section Pending

variable {e : Change} {L : List Change} {script : List Stmt}

theorem Bound.tail (h : Bound upper S (e :: L) n) (hrun : Runs S script S') (hadds : ∀ st ∈ script, st.Adds)
    (hnames : ∀ st ∈ e.up upper, st.name = some n → st ∈ script) : Bound upper S' L n := by
  rcases h with htaken | ⟨st, hst, hname⟩
  · exact .inl (hrun.taken hadds htaken)
  · rw [List.flatMap_cons, List.mem_append] at hst
    rcases hst with hst | hst
    · exact .inl (hrun.name hadds (hnames st hst hname) hname).1
    · exact .inr ⟨st, hst, hname⟩

/-- After the statements of a change that matter. -/
theorem Pending.tail (h : Pending upper S (e :: L)) (hrun : Runs S script S') (hadds : ∀ st ∈ script, st.Adds)
    (halters : ∀ st ∈ script, ∀ k, st.Alters k → e.order = 2 ∧ k = e.key)
    (hnames : ∀ st ∈ e.up upper, ∀ n, st.name = some n → st ∈ script) : Pending upper S' L := by
  have hapart := List.pairwise_cons.1 h.apart
  refine ⟨hrun.closed hadds h.closed, fun ch hch => h.adds ch (List.mem_cons_of_mem _ hch), fun t c o n hch => ?_,
    hapart.2, fun t m hm j hj => ?_⟩
  · obtain ⟨hcol, hnull⟩ := h.alters t c o n (List.mem_cons_of_mem _ hch)
    refine ⟨?_, hnull⟩
    rw [hrun.columns_eq hadds h.closed (by simp [hcol]) fun st hst hst' => ?_, hcol]
    obtain ⟨horder, hkey⟩ := halters st hst _ hst'
    exact hapart.1 _ hch horder rfl hkey.symm
  · exact (h.junctions t m (List.mem_cons_of_mem _ hm) j hj).tail hrun hadds fun st hst hname => hnames st hst _ hname

/-- After a change of one statement. -/
theorem Pending.single {st : Stmt} (h : Pending upper S (e :: L)) (hup : e.up upper = [st]) (hadds : st.Adds)
    (halters : ∀ k, ¬st.Alters k) (hg : st.Guard S) : Pending upper (st.apply S) L := by
  have hone : Runs S [st] (st.apply S) := ⟨hg, rfl⟩
  refine h.tail hone ?_ ?_ ?_
  · simpa using hadds
  · intro st' hst' k hk
    rw [List.mem_singleton.1 hst'] at hk
    exact absurd hk (halters k)
  · intro st' hst' n _
    rwa [hup] at hst'

private theorem alteredColumn_back {o n : ColumnDef}
    (hnull : o.primaryKey = true → o.notNull = false → n.notNull = false) :
    alteredColumn upper n o (alteredColumn upper o n (createdColumn upper o)) = createdColumn upper o := by
  simp only [alteredColumn, createdColumn, Column.mk.injEq, and_true]
  refine ⟨?_, ?_, ?_⟩
  · split_ifs <;> simp_all
  · cases hpk : o.primaryKey <;> cases ho : o.notNull <;> cases hn : n.notNull <;> simp_all
  · split_ifs <;> simp_all

theorem Pending.step (h : Pending upper S (e :: L)) (hrun : Runs S ((e :: L).flatMap (Change.up upper)) S') :
    ∃ T, Pending upper T L ∧ Runs T (L.flatMap (Change.up upper)) S' ∧ Runs T (e.undo upper) S := by
  have hadds : ∀ st ∈ L.flatMap (Change.up upper), st.Adds := by
    intro st hst
    obtain ⟨ch, hch, hst⟩ := List.mem_flatMap.1 hst
    exact up_adds (h.adds ch (List.mem_cons_of_mem _ hch)) st hst
  rw [List.flatMap_cons] at hrun
  cases e with
  | createTable t m =>
    rw [Change.up, createTableSQL_eq, List.append_assoc, runs_append] at hrun
    obtain ⟨T, htable, hrest⟩ := hrun
    have hwithin := tableSQL_within upper m
    have hnames : ∀ st ∈ Change.up upper (.createTable t m), ∀ n, st.name = some n → st ∈ tableSQL upper m := by
      intro st hst n hname
      rw [Change.up, createTableSQL_eq, List.mem_append] at hst
      refine hst.resolve_right fun hst => ?_
      obtain ⟨j, -, rfl⟩ := List.mem_map.1 hst
      cases hname
    refine ⟨T, ?_, ?_, trivial, ?_⟩
    · exact h.tail htable (fun st hst => (hwithin st hst).2.1)
        (fun st hst k hk => absurd hk ((hwithin st hst).2.2 k)) hnames
    · refine skip_junctions hadds (fun j hj => ?_) hrest
      exact (h.junctions t m List.mem_cons_self j hj).tail htable (fun st hst => (hwithin st hst).2.1)
        fun st hst hname => hnames st hst _ hname
    · show S = T.remove { tables := [m.table] }
      have hfree : S.tables m.table = false := (Bool.or_eq_false_iff.1 htable.1.1).1
      rw [htable.remove_within fun st hst => (hwithin st hst).1, h.closed.remove_absent hfree]
  | addColumn t c col =>
    exact ⟨_, h.single rfl trivial (fun _ => id) hrun.1, hrun.2, undo_addColumn h.closed hrun.1 rfl⟩
  | alterColumn t c o n =>
    obtain ⟨hcol, hnull⟩ := h.alters t c o n List.mem_cons_self
    obtain ⟨T, halter, hrest⟩ := runs_append.1 hrun
    refine ⟨T, h.tail halter ?_ ?_ fun st hst _ _ => hst, hrest, ?_⟩
    · exact up_adds (Nat.le_succ_of_le (Nat.le_succ 2))
    · intro st hst k hk
      obtain ⟨a, -, rfl⟩ := List.mem_map.1 hst
      exact ⟨rfl, hk.symm⟩
    · obtain rfl := halter.alterations hcol
      rw [foldl_alterations]
      have hkey : .dropNotNull ∈ (alterations upper n o).reverse →
          (alteredColumn upper o n (createdColumn upper o)).primaryKey = false := by
        intro hmem
        rw [List.mem_reverse, mem_alterations_dropNotNull] at hmem
        show o.primaryKey = false
        by_contra hkey
        rw [hnull (by simpa using hkey) hmem.2] at hmem
        cases hmem.1
      have hback := runs_alterations (S := S) (Function.update_self (t, c) _ S.columns) hkey
      rw [foldl_alterations_reverse, alteredColumn_back hnull, Function.update_idem, ← hcol,
        Function.update_eq_self] at hback
      exact hback
  | addIndex t i =>
    exact ⟨_, h.single rfl trivial (fun _ => id) hrun.1, hrun.2, undo_createIndex hrun.1⟩
  | addFK t r rel =>
    exact ⟨_, h.single rfl trivial (fun _ => id) hrun.1, hrun.2, undo_addForeignKey h.closed hrun.1⟩
  | _ => exact absurd (h.adds _ List.mem_cons_self) (by simp [Change.order])

theorem Pending.undo (h : Pending upper S L) (hrun : Runs S (L.flatMap (Change.up upper)) S') :
    Runs S' (L.reverse.flatMap (Change.undo upper)) S := by
  induction L generalizing S with
  | nil => exact hrun.symm
  | cons e L ih =>
    obtain ⟨T, htail, hrest, hundo⟩ := h.step hrun
    rw [List.reverse_cons, List.flatMap_append, List.flatMap_singleton]
    exact (ih htail hrest).append hundo

end Pending

end Noda.Generate
