import Noda.Generate.Covered
import Noda.Generate.Tables

/-!
# The created tables

The first part of the up script creates the new tables, each after those it refers to.
-/

namespace Noda.Generate

open Ddl

/-- The schema `O` with the tables `Y` of the schema `N`. -/
def graft (O N : Schema) (Y : List String) : Schema where
  tables := fun t => O.tables t || decide (t ∈ Y)
  columns := fun k => if k.1 ∈ Y then N.columns k else O.columns k
  indexes := fun n => (O.indexes n).or ((N.indexes n).filter fun i => i.table ∈ Y)
  foreignKeys := fun k => if k.1 ∈ Y then N.foreignKeys k else O.foreignKeys k

private theorem graft_congr {O N : Schema} {Y Y' : List String} (h : ∀ t, t ∈ Y ↔ t ∈ Y') :
    graft O N Y = graft O N Y' := by
  simp only [graft, h]

private theorem taken_graft {O N : Schema} {Y : List String} {n : String} : (graft O N Y).taken n = false ↔
    O.taken n = false ∧ n ∉ Y ∧ ∀ i, N.indexes n = some i → i.table ∉ Y := by
  simp only [Schema.taken, graft, Bool.or_eq_false_iff, decide_eq_false_iff_not]
  cases O.indexes n with
  | some i => simp
  | none =>
    cases N.indexes n with
    | none => simp
    | some i =>
      by_cases hi : i.table ∈ Y
      · simp [Option.filter, hi]
      · simp [Option.filter, hi]

private theorem graft_nil {O N : Schema} : graft O N [] = O := by
  simp [graft]

variable {upper : String → String} {old new : Models} {t n r : String} {m : ModelDef} {Y : List String}

def Fresh (upper : String → String) (old new : Models) (Y : List String) : Prop :=
  ∀ t ∈ Y, (old.schemaOf upper).tables t = false ∧ (new.schemaOf upper).tables t = true

/-- A table that was there, or that has been created, can be referred to. -/
theorem Fresh.columns_id (hY : Fresh upper old new Y) (ht : old.hasId t = true ∨ t ∈ Y ∧ new.hasId t = true) :
    (graft (old.schemaOf upper) (new.schemaOf upper) Y).columns (t, "id") ≠ none := by
  rcases ht with hid | ⟨htY, hid⟩
  · have hnot : t ∉ Y := by
      intro htY
      obtain ⟨mo, hmo, -⟩ := (Option.any_eq_true _ _).1 hid
      have htable := (hY t htY).1
      rw [old.tables_of_lookup hmo] at htable
      cases htable
    simp only [graft, if_neg hnot]
    exact old.columns_of_hasId hid
  · simp only [graft, if_pos htY]
    exact new.columns_of_hasId hid

namespace Covered

variable (h : Covered upper old new)

include h

private theorem index_free (hcreated : Created old new t m) {i : String × Index} (hi : i ∈ tableIndexes m) :
    (old.schemaOf upper).taken i.1 = false := by
  obtain ⟨idx, hidx, rfl⟩ := List.mem_map.1 hi
  have hname := h.index_names t m hcreated.new idx hidx fun mo hmo => absurd (AList.mem_of_lookup hmo) hcreated.old
  rw [new.table_eq t m hcreated.new]
  exact hname

private theorem addTable_graft (hcreated : Created old new t m) :
    addTable upper (graft (old.schemaOf upper) (new.schemaOf upper) Y) m =
      graft (old.schemaOf upper) (new.schemaOf upper) (Y ++ [t]) := by
  obtain rfl := new.table_eq t m hcreated.new
  ext k v
  · by_cases hk : k = m.table
    · simp [addTable, graft, hk]
    · simp [addTable, graft, hk]
  · obtain ⟨t, c⟩ := k
    by_cases ht : t = m.table
    · subst ht
      simp [addTable, graft, new.columns_of_lookup hcreated.new, lookup_tableColumns]
    · simp [addTable, graft, ht]
  · simp only [addTable, graft, List.mem_append, List.mem_singleton]
    cases hi : (tableIndexes m).lookup k with
    | some i =>
      obtain ⟨hN, htable⟩ := (h.new_ok.tableIndexes_lookup upper hcreated.new).1 hi
      have hfree := h.index_free hcreated (Assoc.mem_of_lookup hi)
      have hO : (old.schemaOf upper).indexes k = none := by
        simpa using (Bool.or_eq_false_iff.1 hfree).2
      rw [hO, hN, Option.some_or, Option.none_or, Option.filter_some, if_pos (by simp [htable])]
    | none =>
      have hother : ∀ i, (new.schemaOf upper).indexes k = some i → i.table ≠ m.table := by
        intro i hN htable
        have hsome := (h.new_ok.tableIndexes_lookup upper hcreated.new).2 ⟨hN, htable⟩
        rw [hi] at hsome
        cases hsome
      have hsame : ((new.schemaOf upper).indexes k).filter (fun i => decide (i.table ∈ Y ∨ i.table = m.table)) =
          ((new.schemaOf upper).indexes k).filter fun i => decide (i.table ∈ Y) := by
        cases hN : (new.schemaOf upper).indexes k with
        | none => rfl
        | some i => simp [Option.filter, hother i hN]
      rw [hsame, Option.none_or]
  · obtain ⟨t, n⟩ := k
    by_cases ht : t = m.table
    · subst ht
      simp [addTable, graft, new.foreignKeys_of_lookup hcreated.new]
    · simp [addTable, graft, ht]

private theorem runs_created (hcreated : Created old new t m) (hY : Fresh upper old new Y) (htY : t ∉ Y)
    (hrefs : ∀ r rel, m.relations.lookup r = some rel → rel.type = "belongsTo" → rel.table ≠ t → rel.table ∉ old.map →
      rel.table ∈ Y) :
    Runs (graft (old.schemaOf upper) (new.schemaOf upper) Y) (tableSQL upper m)
      (graft (old.schemaOf upper) (new.schemaOf upper) (Y ++ [t])) := by
  rw [← h.addTable_graft hcreated]
  obtain rfl := new.table_eq t m hcreated.new
  have hmem := new.mem_models_of_lookup hcreated.new
  have hcovered := h.created _ _ hcreated
  have hold : (old.schemaOf upper).tables m.table = false := (Bool.or_eq_false_iff.1 hcovered.name).1
  refine runs_tableSQL h.new_ok hmem hcovered.indexes ?_ (fun n => ?_) (fun i hi => ?_) fun r rel hrel htype => ?_
  · refine taken_graft.2 ⟨hcovered.name, htY, fun i hi => ?_⟩
    have htable : (new.schemaOf upper).tables m.table = false :=
      h.new_ok.not_table_of_index (h.new_ok.indexes_eq_some.1 hi)
    rw [new.tables_of_lookup hcreated.new] at htable
    cases htable
  · simp only [graft, if_neg htY]
    exact h.old_ok.closed.foreignKeys_none hold
  · have hidx : i ∈ new.indexes := List.mem_flatMap.2 ⟨m, hmem, hi⟩
    refine taken_graft.2 ⟨h.index_free hcreated hi, fun hiY => ?_, fun i' hi' => ?_⟩
    · have htable := (hY i.1 hiY).2
      rw [h.new_ok.not_table_of_index hidx] at htable
      cases htable
    · rw [h.new_ok.indexes_eq_some.2 hidx] at hi'
      obtain ⟨idx, -, rfl⟩ := List.mem_map.1 hi
      rw [← Option.some.inj hi']
      exact htY
  · by_cases hself : rel.table = m.table
    · exact .inl hself
    · right
      by_cases hkept : rel.table ∈ old.map
      · have hid := hcovered.references r rel hrel htype hself
        rw [if_pos hkept] at hid
        exact hY.columns_id (.inl hid)
      · have hid := (h.new_ok.references m hmem (r, rel) (AList.mem_toPairs.2 hrel) htype).2
        exact hY.columns_id (.inr ⟨hrefs r rel hrel htype hself hkept, hid⟩)

private theorem junction_free {j' : Junction} (hj' : new.junction n = some j')
    (hold : (old.schemaOf upper).tables n = false) (hY : n ∉ Y) :
    (graft (old.schemaOf upper) (new.schemaOf upper) Y).taken n = false := by
  refine taken_graft.2 ⟨?_, hY, fun i hi => ?_⟩
  · by_contra htaken
    obtain ⟨j, hj⟩ := Option.isSome_iff_exists.1 (h.junction_names n j' hj' (by simpa using htaken))
    rw [old.tables_of_junction hj] at hold
    cases hold
  · have htable : (new.schemaOf upper).tables n = false :=
      h.new_ok.not_table_of_index (h.new_ok.indexes_eq_some.1 hi)
    rw [new.tables_of_junction hj'] at htable
    cases htable

private theorem junction_graft {j j' : Junction} (hj' : new.junction j.name = some j') (hsame : j'.same j)
    (hfree : (graft (old.schemaOf upper) (new.schemaOf upper) Y).taken j.name = false) :
    (junctionSQL j).apply (graft (old.schemaOf upper) (new.schemaOf upper) Y) =
      graft (old.schemaOf upper) (new.schemaOf upper) (Y ++ [j.name]) := by
  obtain ⟨hc, hf, -⟩ := h.new_ok.junction_ok hj'
  have hnot := AList.lookup_eq_none.2 (new.not_mem_of_junction hj')
  rw [junctionSQL, Stmt.apply, hfree, if_neg Bool.false_ne_true]
  ext k v
  · by_cases hk : k = j.name
    · simp [graft, hk]
    · simp [graft, hk]
  · obtain ⟨t, c⟩ := k
    by_cases ht : t = j.name
    · subst ht
      simp [graft, new.columns_of_junction hj', Assoc.lookup_congr hc hsame.1 c]
    · simp [graft, ht]
  · -- no index belongs to a junction table
    have hother : ∀ i, (new.schemaOf upper).indexes k = some i → i.table ≠ j.name := by
      intro i hi htable
      obtain ⟨m, hm, idx, -, -, rfl⟩ := new.mem_indexes.1 (h.new_ok.indexes_eq_some.1 hi)
      have hlookup := new.mem_models.1 hm
      rw [show m.table = j.name from htable, hnot] at hlookup
      cases hlookup
    simp only [graft, List.mem_append, List.mem_singleton]
    cases hN : (new.schemaOf upper).indexes k with
    | none => rfl
    | some i => simp [Option.filter, hother i hN]
  · obtain ⟨t, n⟩ := k
    by_cases ht : t = j.name
    · subst ht
      simp [graft, new.foreignKeys_of_junction hj', Assoc.lookup_congr hf hsame.2 n]
    · simp [graft, ht]

/-- Something of the name of a junction table is there, if there is no such table in the new schema. -/
private theorem junction_taken {j : Junction} {before : List Junction} (hm : m ∈ new.models) (hj : j ∈ junctions m)
    (hcovered : JunctionCovered upper old new t before j) (htY : t ∈ Y)
    (hrefs : ∀ R, TopoSort.Depends (deps (Generate.created old new)) t R → R ∈ Y)
    (hnew : (new.schemaOf upper).tables j.name = false) :
    (graft (old.schemaOf upper) (new.schemaOf upper) Y).taken j.name = true := by
  rcases new.junction_cases hm hj with hmap | ⟨i, hi⟩ | ⟨j', hj'⟩
  · obtain ⟨m', hm'⟩ := AList.exists_lookup_of_mem hmap
    rw [new.tables_of_lookup hm'] at hnew
    cases hnew
  · by_contra htaken
    obtain ⟨hold, -, hindex⟩ := taken_graft.1 (Bool.eq_false_iff.2 htaken)
    rcases hcovered.index i hi with htaken' | rfl | hdep
    · exact Bool.false_ne_true (hold.symm.trans htaken')
    · exact hindex i (h.new_ok.indexes_eq_some.2 hi) htY
    · exact hindex i (h.new_ok.indexes_eq_some.2 hi) (hrefs _ hdep)
  · rw [new.tables_of_junction hj'] at hnew
    cases hnew

def isNew (O N : Schema) (t : String) : Bool := !O.tables t && N.tables t

/-- A junction table is created, unless there is something of its name. -/
private theorem runs_junction {j : Junction} {before : List Junction} (hm : m ∈ new.models) (hj : j ∈ junctions m)
    (hcovered : JunctionCovered upper old new t before j) (hY : Fresh upper old new Y) (htY : t ∈ Y)
    (hrefs : ∀ R, TopoSort.Depends (deps (Generate.created old new)) t R → R ∈ Y)
    (hearlier : ∀ n, Earlier old new t before n → isNew (old.schemaOf upper) (new.schemaOf upper) n = true → n ∈ Y) :
    Runs (graft (old.schemaOf upper) (new.schemaOf upper) Y) [junctionSQL j]
      (graft (old.schemaOf upper) (new.schemaOf upper)
        (Y ++ [j.name].filter (isNew (old.schemaOf upper) (new.schemaOf upper)))) := by
  have hskip : ∀ {S : Schema}, S.taken j.name = true → Runs S [junctionSQL j] S :=
    fun htaken => runs_skipped (List.forall_mem_singleton.2 htaken)
  by_cases hnew : isNew (old.schemaOf upper) (new.schemaOf upper) j.name = true
  · rw [List.filter_cons_of_pos hnew, List.filter_nil]
    by_cases hjY : j.name ∈ Y
    · have hsame : ∀ t, t ∈ Y ++ [j.name] ↔ t ∈ Y := by
        intro t
        rw [List.mem_append, List.mem_singleton]
        exact ⟨fun ht => ht.elim id (· ▸ hjY), .inl⟩
      rw [graft_congr hsame]
      exact hskip (by simp [Schema.taken, graft, hjY])
    · simp only [isNew, Bool.and_eq_true, Bool.not_eq_true'] at hnew
      rcases new.junction_cases hm hj with hmap | ⟨i, hi⟩ | ⟨j', hj'⟩
      · -- the model would be there
        exfalso
        rcases hcovered.model hmap with hold | rfl | hdep
        · obtain ⟨mo, hmo⟩ := AList.exists_lookup_of_mem hold
          exact Bool.false_ne_true (hnew.1.symm.trans (old.tables_of_lookup hmo))
        · exact hjY htY
        · exact hjY (hrefs _ hdep)
      · exact absurd ((h.new_ok.not_table_of_index hi).symm.trans hnew.2) Bool.false_ne_true
      · have hnone : old.junction j.name = none := by
          rw [← Option.not_isSome_iff_eq_none, Option.isSome_iff_exists]
          rintro ⟨jo, hjo⟩
          exact Bool.false_ne_true (hnew.1.symm.trans (old.tables_of_junction hjo))
        obtain ⟨hsame, htargets⟩ := hcovered.table j' hj' hnone fun he => hjY (hearlier _ he (by simp [isNew, hnew]))
        have hfree := h.junction_free hj' hnew.1 hjY
        obtain ⟨hcols, -, hok⟩ := h.new_ok.junction_ok hj'
        refine ⟨.inr ⟨(hsame.1.map _).nodup_iff.1 hcols, fun fk hfk => ?_⟩, ?_⟩
        · obtain ⟨hcol, hid⟩ := junction_references hj hfk
          have href := (hok fk.1 fk.2 (hsame.2.mem_iff.2 hfk)).2.2
          refine ⟨hcol, ?_⟩
          rw [hid]
          refine hY.columns_id ?_
          rcases htargets fk hfk with hself | hkept | hdep
          · exact .inr ⟨hself ▸ htY, href⟩
          · exact .inl hkept
          · exact .inr ⟨hrefs _ hdep, href⟩
        · rw [← h.junction_graft hj' hsame hfree]
          rfl
  · rw [List.filter_cons_of_neg hnew, List.filter_nil, List.append_nil]
    refine hskip ?_
    cases hold : (old.schemaOf upper).tables j.name with
    | true => simp [Schema.taken, graft, hold]
    | false => exact h.junction_taken hm hj hcovered htY hrefs (by simpa [isNew, hold] using hnew)

/-- The junction tables of a created table, one after the other. -/
private theorem runs_junctions (hcreated : Created old new t m)
    (hY : Fresh upper old new Y) (htY : t ∈ Y)
    (hrefs : ∀ R, TopoSort.Depends (deps (Generate.created old new)) t R → R ∈ Y)
    (hearlier : ∀ n, Earlier old new t [] n → isNew (old.schemaOf upper) (new.schemaOf upper) n = true → n ∈ Y) :
    Runs (graft (old.schemaOf upper) (new.schemaOf upper) Y) ((junctions m).map junctionSQL)
      (graft (old.schemaOf upper) (new.schemaOf upper)
        (Y ++ ((junctions m).map Junction.name).filter (isNew (old.schemaOf upper) (new.schemaOf upper)))) := by
  rw [List.map_eq_flatMap]
  have hrun := runs_parts (fun js => graft (old.schemaOf upper) (new.schemaOf upper)
    (Y ++ (js.map Junction.name).filter (isNew (old.schemaOf upper) (new.schemaOf upper))))
    (fun j => [junctionSQL j]) (L := junctions m) fun js j after hjs => ?_
  · rwa [List.map_nil, List.filter_nil, List.append_nil] at hrun
  · have hfresh : Fresh upper old new
        (Y ++ (js.map Junction.name).filter (isNew (old.schemaOf upper) (new.schemaOf upper))) := by
      intro t' ht'
      rcases List.mem_append.1 ht' with ht' | ht'
      · exact hY t' ht'
      · simpa [isNew] using (List.mem_filter.1 ht').2
    have hj : j ∈ junctions m := by
      rw [hjs]
      simp
    rw [List.map_append, List.filter_append, ← List.append_assoc]
    refine h.runs_junction (new.mem_models_of_lookup hcreated.new) hj
      ((h.created _ _ hcreated).junctions js j after hjs)
      hfresh (List.mem_append_left _ htY) (fun R hR => List.mem_append_left _ (hrefs R hR)) fun n hn hnew => ?_
    rcases hn with hn | hn
    · exact List.mem_append_right _ (List.mem_filter.2 ⟨hn, hnew⟩)
    · exact List.mem_append_left _ (hearlier n (.inr hn) hnew)

/-! ### All created tables -/

/-- The tables that come with those of a list. -/
def newTables (O N : Schema) (l : List (String × ModelDef)) : List String :=
  l.flatMap fun e => e.1 :: ((junctions e.2).map Junction.name).filter (isNew O N)

private theorem fresh_newTables {l : List (String × ModelDef)} (hl : ∀ e ∈ l, Created old new e.1 e.2) :
    Fresh upper old new (newTables (old.schemaOf upper) (new.schemaOf upper) l) := by
  intro t ht
  obtain ⟨e, he, ht⟩ := List.mem_flatMap.1 ht
  rcases List.mem_cons.1 ht with rfl | ht
  · have hname := (h.created _ _ (hl e he)).name
    exact ⟨(Bool.or_eq_false_iff.1 hname).1, new.tables_of_lookup (hl e he).new⟩
  · simpa [isNew] using (List.mem_filter.1 ht).2

private theorem not_mem_newTables {before : List (String × ModelDef)} {e : String × ModelDef}
    (he : Created old new e.1 e.2)
    (hbefore : ∀ e ∈ before, Created old new e.1 e.2) (hnot : e.1 ∉ before.map Prod.fst)
    (hclosed : ∀ e ∈ before, ∀ R, TopoSort.Depends (deps (Generate.created old new)) e.1 R → R ∈ before.map Prod.fst) :
    e.1 ∉ newTables (old.schemaOf upper) (new.schemaOf upper) before := by
  intro ht
  obtain ⟨e', he', ht⟩ := List.mem_flatMap.1 ht
  rcases List.mem_cons.1 ht with htable | ht
  · exact hnot (List.mem_map.2 ⟨e', he', htable.symm⟩)
  · obtain ⟨j, hj, hname⟩ := List.mem_map.1 (List.mem_filter.1 ht).1
    obtain ⟨js, after, hjs⟩ := List.append_of_mem hj
    have hmodel := ((h.created _ _ (hbefore e' he')).junctions js j after hjs).model
    rw [hname] at hmodel
    rcases hmodel (AList.mem_of_lookup he.new) with hold | hself | hdep
    · exact he.old hold
    · exact hnot (List.mem_map.2 ⟨e', he', hself.symm⟩)
    · exact hnot (hclosed e' he' _ hdep)

private theorem runs_createTable {before : List (String × ModelDef)} {e : String × ModelDef}
    (he : Created old new e.1 e.2)
    (hbefore : ∀ e ∈ before, Created old new e.1 e.2) (hnot : e.1 ∉ before.map Prod.fst)
    (hclosed : ∀ e ∈ before, ∀ R, TopoSort.Depends (deps (Generate.created old new)) e.1 R → R ∈ before.map Prod.fst)
    (hrefs : ∀ R, TopoSort.Depends (deps (Generate.created old new)) e.1 R → R ∈ before.map Prod.fst ∨ R = e.1) :
    Runs (graft (old.schemaOf upper) (new.schemaOf upper)
        (newTables (old.schemaOf upper) (new.schemaOf upper) before))
      (createTableSQL upper e.2).1
      (graft (old.schemaOf upper) (new.schemaOf upper)
        (newTables (old.schemaOf upper) (new.schemaOf upper) (before ++ [e]))) := by
  have htY := h.not_mem_newTables he hbefore hnot hclosed
  have hfresh : Fresh upper old new (newTables (old.schemaOf upper) (new.schemaOf upper) before) :=
    h.fresh_newTables hbefore
  obtain ⟨t, m⟩ := e
  have hnames : ∀ t ∈ before.map Prod.fst, t ∈ newTables (old.schemaOf upper) (new.schemaOf upper) before := by
    intro t ht
    obtain ⟨e, he, rfl⟩ := List.mem_map.1 ht
    exact List.mem_flatMap.2 ⟨e, he, List.mem_cons_self⟩
  have hsplit : newTables (old.schemaOf upper) (new.schemaOf upper) (before ++ [(t, m)]) =
      newTables (old.schemaOf upper) (new.schemaOf upper) before ++ [t] ++
        ((junctions m).map Junction.name).filter (isNew (old.schemaOf upper) (new.schemaOf upper)) := by
    simp [newTables]
  rw [createTableSQL_eq, hsplit]
  refine (h.runs_created he hfresh htY fun r rel hrel htype hself hold => ?_).append ?_
  · have hrefnew : rel.table ∈ new.map := by
      have hid := (h.new_ok.references m (new.mem_models_of_lookup he.new) (r, rel) (AList.mem_toPairs.2 hrel) htype).2
      obtain ⟨m', hm', -⟩ := (Option.any_eq_true _ _).1 hid
      exact AList.mem_of_lookup hm'
    have hcreated : rel.table ∈ (Generate.created old new).map Prod.fst := by
      obtain ⟨m', hm'⟩ := AList.exists_lookup_of_mem hrefnew
      exact List.mem_map.2 ⟨(rel.table, m'), List.mem_filter.2 ⟨AList.mem_toPairs.2 hm', by simpa using hold⟩, rfl⟩
    have hmem : (t, m) ∈ Generate.created old new :=
      List.mem_filter.2 ⟨AList.mem_toPairs.2 he.new, by simpa using he.old⟩
    have hdep := (mem_deps (nodup_filter_toPairs _ _)).2 ⟨hcreated, m, r, rel, hmem, hrel, htype, rfl⟩
    exact hnames _ ((hrefs _ (.single hdep)).resolve_right hself)
  · refine h.runs_junctions he (fun t' ht' => ?_) (by simp) (fun R hR => ?_) fun n hn hnew => ?_
    · rcases List.mem_append.1 ht' with ht' | ht'
      · exact hfresh t' ht'
      · rw [List.mem_singleton.1 ht']
        exact ⟨(Bool.or_eq_false_iff.1 (h.created _ _ he).name).1, new.tables_of_lookup he.new⟩
    · rcases hrefs R hR with hR | rfl
      · exact List.mem_append_left _ (hnames R hR)
      · simp
    · obtain ⟨t', m', hm', hne, hdep, hn⟩ := hn.resolve_left List.not_mem_nil
      obtain ⟨e', he', rfl⟩ := List.mem_map.1 ((hrefs t' hdep).resolve_right hne)
      obtain rfl := Option.some.inj (hm'.new.symm.trans (hbefore e' he').new)
      refine List.mem_append_left _ (List.mem_flatMap.2 ⟨e', he', List.mem_cons_of_mem _ ?_⟩)
      exact List.mem_filter.2 ⟨hn, hnew⟩

section Changes

variable {changes : List Change} (hperm : changes.Perm (diffModels old new))

include hperm

private theorem creates_perm : (creates changes).Perm (Generate.created old new) := by
  have hnodup := nodup_creates hperm h.old_ok.columns
  have hnodup' : ((Generate.created old new).map Prod.fst).Nodup := nodup_filter_toPairs _ _
  refine (List.perm_ext_iff_of_nodup hnodup.of_map hnodup'.of_map).2 fun e => ?_
  rw [mem_creates, mem_changes hperm, Generate.created, List.mem_filter, AList.mem_toPairs]
  constructor
  · rintro ⟨he⟩
    exact ⟨he.new, by simpa using he.old⟩
  · rintro ⟨hnew, hold⟩
    exact .createTable ⟨hnew, by simpa using hold⟩

private theorem mem_topoSortCreates {e : String × ModelDef} :
    e ∈ topoSortCreates (creates changes) ↔ Created old new e.1 e.2 := by
  rw [(topoSortCreates_perm (nodup_creates hperm h.old_ok.columns)).mem_iff, mem_creates, mem_changes hperm]
  constructor
  · rintro ⟨he⟩
    exact he
  · exact .createTable

theorem mem_newTables : t ∈ newTables (old.schemaOf upper) (new.schemaOf upper) (topoSortCreates (creates changes)) ↔
    (old.schemaOf upper).tables t = false ∧ (new.schemaOf upper).tables t = true := by
  constructor
  · exact h.fresh_newTables (fun e => (h.mem_topoSortCreates hperm).1) t
  · rintro ⟨hold, hnew⟩
    have hmem : ∀ {t m}, Created old new t m → (t, m) ∈ topoSortCreates (creates changes) :=
      fun hm => (h.mem_topoSortCreates hperm).2 hm
    cases h.fate t with
    | kept hk =>
      rw [old.tables_of_lookup hk.old] at hold
      cases hold
    | created hm => exact List.mem_flatMap.2 ⟨_, hmem hm, List.mem_cons_self⟩
    | dropped _ hnew' =>
      rw [hnew] at hnew'
      cases hnew'
    | junction hold' =>
      rw [hold] at hold'
      cases hold'
    | @junctionCreated j hj =>
      have hnone : old.junction t = none := by
        simpa using (Bool.or_eq_false_iff.1 hold).2
      obtain ⟨t', m, hm, hname⟩ := h.junctions_created t j hj hnone
      refine List.mem_flatMap.2 ⟨_, hmem hm, List.mem_cons_of_mem _ (List.mem_filter.2 ⟨hname, ?_⟩)⟩
      simp [isNew, hold, hnew]
    | absent _ hnew' =>
      rw [hnew] at hnew'
      cases hnew'

/-- The first part of the up script. -/
theorem runs_creates : Runs (old.schemaOf upper)
    (((topoSortCreates (creates changes)).map fun e => Change.createTable e.1 e.2).flatMap (Change.up upper))
    (graft (old.schemaOf upper) (new.schemaOf upper)
      (newTables (old.schemaOf upper) (new.schemaOf upper) (topoSortCreates (creates changes)))) := by
  have hnodup := nodup_creates hperm h.old_ok.columns
  have hnodup' : ((topoSortCreates (creates changes)).map Prod.fst).Nodup :=
    ((topoSortCreates_perm hnodup).map _).nodup_iff.2 hnodup
  have hdeps : deps (creates changes) = deps (Generate.created old new) := deps_congr hnodup (h.creates_perm hperm)
  -- a table comes after all those it depends on
  have hbefore : ∀ before t after, (topoSortCreates (creates changes)).map Prod.fst = before ++ t :: after →
      ∀ d ∈ deps (Generate.created old new) t, d ∈ before ∨ d = t := by
    intro before t after hl d hd
    obtain ⟨l₁, l₂, hsplit, rfl, hl₂⟩ := List.map_eq_append_iff.1 hl
    obtain ⟨e, l₃, rfl, rfl, rfl⟩ := List.map_eq_cons_iff.1 hl₂
    refine or_iff_not_imp_right.2 fun hne => ?_
    refine (topoSortCreates_ordered hnodup hsplit d (by rwa [hdeps])).resolve_right fun hcycle => ?_
    obtain ⟨hcreated, m, r, rel, hm, hrel, htype, rfl⟩ := (mem_deps (nodup_filter_toPairs _ _)).1 hd
    obtain ⟨hnew, hold⟩ := List.mem_filter.1 hm
    have href := (h.created e.1 m ⟨AList.mem_toPairs.1 hnew, by simpa using hold⟩).references r rel hrel htype hne
    obtain ⟨e', he', htable⟩ := List.mem_map.1 hcreated
    have hnot : rel.table ∉ old.map := by
      rw [← htable]
      simpa using (List.mem_filter.1 he').2
    rw [if_neg hnot, ← hdeps] at href
    exact href hcycle
  rw [List.flatMap_map]
  have hrun := runs_parts (fun l => graft (old.schemaOf upper) (new.schemaOf upper)
      (newTables (old.schemaOf upper) (new.schemaOf upper) l))
    (fun e => Change.up upper (.createTable e.1 e.2))
      (L := topoSortCreates (creates changes)) fun before e after hl => ?_
  · rwa [show newTables (old.schemaOf upper) (new.schemaOf upper) [] = [] from rfl, graft_nil] at hrun
  · have hcreated : ∀ e' ∈ before ++ e :: after, Created old new e'.1 e'.2 := by
      intro e' he'
      rw [← hl] at he'
      exact (h.mem_topoSortCreates hperm).1 he'
    rw [List.forall_mem_append, List.forall_mem_cons] at hcreated
    have hsplit : (topoSortCreates (creates changes)).map Prod.fst =
        before.map Prod.fst ++ e.1 :: after.map Prod.fst := by
      rw [hl, List.map_append, List.map_cons]
    refine h.runs_createTable hcreated.2.1 hcreated.1 ?_ (fun e' he' R hR => ?_) fun R hR => ?_
    · rw [hsplit] at hnodup'
      have hdisjoint := List.nodup_append.1 hnodup'
      intro hmem
      exact hdisjoint.2.2 _ hmem _ List.mem_cons_self rfl
    · obtain ⟨l₁, l₂, rfl⟩ := List.append_of_mem he'
      rw [List.map_append, List.map_cons, List.append_assoc, List.cons_append] at hsplit
      rw [List.map_append, List.map_cons, List.mem_append, List.mem_cons]
      rcases TopoSort.mem_before_of_depends hbefore hsplit hR with hR | rfl
      · exact .inl hR
      · exact .inr (.inl rfl)
    · exact TopoSort.mem_before_of_depends hbefore hsplit hR

end Changes

end Covered

end Noda.Generate
