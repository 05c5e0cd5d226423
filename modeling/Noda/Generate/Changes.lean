import Noda.Generate.Schema

/-!
# The changes between two sets of models

What `diffModels` finds, kind by kind; that two changes of one kind are of different objects (`diffModels_apart`); and
that `changesToSQL` arranges the changes by their kinds (`ordered_eq`), the created tables by what they refer to.
-/

namespace Noda.Generate

open Ddl

/-- The table is in both sets. -/
structure Kept (old new : Models) (t : String) (mo mn : ModelDef) : Prop where
  old : old.map.lookup t = some mo
  new : new.map.lookup t = some mn

/-- The table is in the new set only. -/
structure Created (old new : Models) (t : String) (m : ModelDef) : Prop where
  new : new.map.lookup t = some m
  old : t ∉ old.map

/-- The table is in the old set only. -/
structure Dropped (old new : Models) (t : String) (m : ModelDef) : Prop where
  old : old.map.lookup t = some m
  new : t ∉ new.map

/-- What `diffModels` finds. -/
inductive Difference (old new : Models) : Change → Prop
  | createTable {t m} (h : Created old new t m) : Difference old new (.createTable t m)
  | dropTable {t m} (h : Dropped old new t m) : Difference old new (.dropTable t m)
  | addColumn {t mo mn c col} (h : Kept old new t mo mn) (hnew : mn.columns.lookup c = some col)
    (hold : c ∉ mo.columns) :
    Difference old new (.addColumn t c col)
  | addImplied {t mo mn c col} (h : Kept old new t mo mn) (hnew : (c, col) ∈ impliedColumns mn)
      (hold : (c, col) ∉ impliedColumns mo) : Difference old new (.addColumn t c col)
  | dropColumn {t mo mn c col} (h : Kept old new t mo mn) (hold : mo.columns.lookup c = some col)
    (hnew : c ∉ mn.columns) :
    Difference old new (.dropColumn t c (some col))
  | dropImplied {t mo mn c col} (h : Kept old new t mo mn) (hold : (c, col) ∈ impliedColumns mo)
      (hnew : (c, col) ∉ impliedColumns mn) : Difference old new (.dropColumn t c none)
  | alterColumn {t mo mn c o n} (h : Kept old new t mo mn) (hold : mo.columns.lookup c = some o)
      (hnew : mn.columns.lookup c = some n) (hchanged : columnChanged o n = true) :
    Difference old new (.alterColumn t c o n)
  | addIndex {t mo mn i} (h : Kept old new t mo mn) (hnew : (indexSet mn.indexes).lookup i.key = some i)
      (hold : i.key ∉ indexSet mo.indexes) : Difference old new (.addIndex t i)
  | dropIndex {t mo mn i} (h : Kept old new t mo mn) (hold : (indexSet mo.indexes).lookup i.key = some i)
      (hnew : i.key ∉ indexSet mn.indexes) : Difference old new (.dropIndex t i)
  | addFK {t mo mn r rel} (h : Kept old new t mo mn) (hnew : mn.relations.lookup r = some rel)
      (htype : rel.type = "belongsTo") (hold : sameFK (mo.relations.lookup r) rel = false) :
    Difference old new (.addFK t r rel)
  | dropFK {t mo mn r rel} (h : Kept old new t mo mn) (hold : mo.relations.lookup r = some rel)
      (htype : rel.type = "belongsTo") (hnew : r ∉ mn.relations) : Difference old new (.dropFK t r rel)

variable {old new : Models} {mo mn : ModelDef} {t c r : String} {col : ColumnDef} {i : IndexDef} {rel : RelDef}

/-! ### Sets of indexes -/

theorem lookup_indexSet {indexes : List IndexDef} {k : String} (h : (indexSet indexes).lookup k = some i) :
    i ∈ indexes ∧ i.key = k := by
  unfold indexSet at h
  have hloop : ∀ (rest : List IndexDef) (set : GoMap IndexDef),
      (∀ k i, set.lookup k = some i → i ∈ indexes ∧ i.key = k) →
      (∀ i ∈ rest, i ∈ indexes) → ∀ k i, (rest.foldl (fun set idx => set.insert idx.key idx) set).lookup k = some i →
        i ∈ indexes ∧ i.key = k := by
    intro rest
    induction rest with
    | nil =>
      intro set hset _
      exact hset
    | cons idx rest ih =>
      intro set hset hrest
      rw [List.forall_mem_cons] at hrest
      refine ih _ (fun k i hi => ?_) hrest.2
      by_cases hk : k = idx.key
      · subst hk
        rw [AList.lookup_insert, Option.some.injEq] at hi
        rw [← hi]
        exact ⟨hrest.1, rfl⟩
      · rw [AList.lookup_insert_ne hk] at hi
        exact hset k i hi
  exact hloop indexes ∅ (by simp) (fun _ => id) k i h

theorem key_mem_indexSet {indexes : List IndexDef} (h : i ∈ indexes) : i.key ∈ indexSet indexes := by
  unfold indexSet
  have hloop : ∀ (rest : List IndexDef) (set : GoMap IndexDef), i ∈ rest ∨ i.key ∈ set →
      i.key ∈ rest.foldl (fun set idx => set.insert idx.key idx) set := by
    intro rest
    induction rest with
    | nil =>
      intro set hi
      exact hi.resolve_left List.not_mem_nil
    | cons idx rest ih =>
      intro set hi
      refine ih _ ?_
      rw [AList.mem_insert]
      rcases hi with hi | hi
      · rcases List.mem_cons.1 hi with rfl | hi
        · exact .inr (.inl rfl)
        · exact .inl hi
      · exact .inr (.inr hi)
  exact hloop indexes ∅ (.inl h)

/-! ### The changes of each kind -/

private theorem mem_alterColumns {ch : Change} : ch ∈ alterColumns t mo mn ↔ ∃ c o n, mo.columns.lookup c = some o ∧
    mn.columns.lookup c = some n ∧ columnChanged o n = true ∧ ch = .alterColumn t c o n := by
  simp only [alterColumns, List.mem_filterMap, Prod.exists, AList.mem_toPairs, Option.bind_eq_some_iff]
  constructor
  · rintro ⟨c, n, hnew, o, hold, hch⟩
    split_ifs at hch with hchanged
    exact ⟨c, o, n, hold, hnew, hchanged, (Option.some.inj hch).symm⟩
  · rintro ⟨c, o, n, hold, hnew, hchanged, rfl⟩
    exact ⟨c, n, hnew, o, hold, if_pos hchanged⟩

private theorem mem_diffColumns {ch : Change} : ch ∈ diffColumns t mo mn ↔
    (∃ c col, mn.columns.lookup c = some col ∧ c ∉ mo.columns ∧ ch = .addColumn t c col) ∨
    (∃ c col, mo.columns.lookup c = some col ∧ c ∉ mn.columns ∧ ch = .dropColumn t c (some col)) ∨
    ∃ c o n, mo.columns.lookup c = some o ∧ mn.columns.lookup c = some n ∧ columnChanged o n = true ∧
      ch = .alterColumn t c o n := by
  simp only [diffColumns, List.mem_append, List.mem_map, List.mem_filter, Prod.exists, AList.mem_toPairs,
    decide_eq_true_eq, mem_alterColumns, or_assoc, and_assoc, @eq_comm _ _ ch]

theorem mem_impliedColumns {m : ModelDef} {e : String × ColumnDef} : e ∈ impliedColumns m ↔
    m.timestamps = true ∧ (e = ("created_at", timestampColumn) ∨ e = ("updated_at", timestampColumn)) ∨
      m.softDelete = true ∧ e = ("deleted_at", deletedColumn) := by
  simp only [impliedColumns, List.mem_append]
  refine or_congr ?_ ?_
  · split_ifs with h <;> simp [h]
  · split_ifs with h <;> simp [h]

private theorem stamp_ne_deleted {e : String × ColumnDef}
    (h : e = ("created_at", timestampColumn) ∨ e = ("updated_at", timestampColumn)) :
      e ≠ ("deleted_at", deletedColumn) := by
  rcases h with rfl | rfl
  · decide
  · decide

private theorem mem_diffImplied {ch : Change} : ch ∈ diffImplied t mo mn ↔
    (∃ e, e ∈ impliedColumns mn ∧ e ∉ impliedColumns mo ∧ ch = .addColumn t e.1 e.2) ∨
      ∃ e, e ∈ impliedColumns mo ∧ e ∉ impliedColumns mn ∧ ch = .dropColumn t e.1 none := by
  have hstamps : ∀ {m m' : ModelDef} {P : String × ColumnDef → Prop},
      (∃ e, e ∈ impliedColumns m ∧ e ∉ impliedColumns m' ∧ P e) ↔
        m.timestamps = true ∧ m'.timestamps = false ∧
          (P ("created_at", timestampColumn) ∨ P ("updated_at", timestampColumn)) ∨
          m.softDelete = true ∧ m'.softDelete = false ∧ P ("deleted_at", deletedColumn) := by
    intro m m' P
    simp only [mem_impliedColumns, not_or, not_and]
    constructor
    · rintro ⟨e, ⟨hm, he⟩ | ⟨hm, rfl⟩, ⟨hts, hsd⟩, hP⟩
      · have hm' : m'.timestamps = false := by
          rw [← Bool.not_eq_true]
          intro hts'
          obtain ⟨h₁, h₂⟩ := hts hts'
          exact he.elim h₁ h₂
        refine .inl ⟨hm, hm', ?_⟩
        rcases he with rfl | rfl
        · exact .inl hP
        · exact .inr hP
      · exact .inr ⟨hm, by simpa using hsd, hP⟩
    · rintro (⟨hm, hm', hP | hP⟩ | ⟨hm, hm', hP⟩)
      · exact ⟨_, .inl ⟨hm, .inl rfl⟩, ⟨by simp [hm'], fun _ => stamp_ne_deleted (.inl rfl)⟩, hP⟩
      · exact ⟨_, .inl ⟨hm, .inr rfl⟩, ⟨by simp [hm'], fun _ => stamp_ne_deleted (.inr rfl)⟩, hP⟩
      · refine ⟨_, .inr ⟨hm, rfl⟩, ⟨fun _ => ⟨?_, ?_⟩, by simp [hm']⟩, hP⟩
        · exact (stamp_ne_deleted (.inl rfl)).symm
        · exact (stamp_ne_deleted (.inr rfl)).symm
  rw [hstamps, hstamps]
  simp only [diffImplied, List.mem_append]
  cases mn.timestamps <;> cases mo.timestamps <;> cases mn.softDelete <;> cases mo.softDelete <;>
    simp [or_comm, or_left_comm]

private theorem mem_diffIndexes {ch : Change} : ch ∈ diffIndexes t mo mn ↔
    (∃ i, (indexSet mn.indexes).lookup i.key = some i ∧ i.key ∉ indexSet mo.indexes ∧ ch = .addIndex t i) ∨
      ∃ i, (indexSet mo.indexes).lookup i.key = some i ∧ i.key ∉ indexSet mn.indexes ∧ ch = .dropIndex t i := by
  simp only [diffIndexes, List.mem_append, List.mem_map, List.mem_filter, Prod.exists, AList.mem_toPairs,
    decide_eq_true_eq]
  refine or_congr ?_ ?_
  all_goals
    constructor
    · rintro ⟨k, i, ⟨hi, hk⟩, rfl⟩
      obtain ⟨-, rfl⟩ := lookup_indexSet hi
      exact ⟨i, hi, hk, rfl⟩
    · rintro ⟨i, hi, hk, rfl⟩
      exact ⟨i.key, i, ⟨hi, hk⟩, rfl⟩

private theorem mem_diffRelations {ch : Change} : ch ∈ diffRelations t mo mn ↔
    (∃ r rel, mn.relations.lookup r = some rel ∧ rel.type = "belongsTo" ∧ sameFK (mo.relations.lookup r) rel = false ∧
      ch = .addFK t r rel) ∨
    ∃ r rel, mo.relations.lookup r = some rel ∧ rel.type = "belongsTo" ∧ r ∉ mn.relations ∧ ch = .dropFK t r rel := by
  simp only [diffRelations, List.mem_append, List.mem_map, List.mem_filter, Prod.exists, AList.mem_toPairs,
    decide_eq_true_eq, Bool.not_eq_true', and_assoc, @eq_comm _ _ ch]

private theorem mem_diffTable {ch : Change} (hkept : Kept old new t mo mn) (h : ch ∈ diffTable t mo mn) :
    Difference old new ch := by
  simp only [diffTable, List.mem_append, mem_diffColumns, mem_diffImplied, mem_diffIndexes, mem_diffRelations] at h
  obtain (((⟨c, col, hnew, hold, rfl⟩ | ⟨c, col, hold, hnew, rfl⟩ | ⟨c, o, n, hold, hnew, hchanged, rfl⟩) |
    ⟨e, hnew, hold, rfl⟩ | ⟨e, hold, hnew, rfl⟩) | ⟨i, hnew, hold, rfl⟩ | ⟨i, hold, hnew, rfl⟩) |
    ⟨r, rel, hnew, htype, hold, rfl⟩ | ⟨r, rel, hold, htype, hnew, rfl⟩ := h
  · exact .addColumn hkept hnew hold
  · exact .dropColumn hkept hold hnew
  · exact .alterColumn hkept hold hnew hchanged
  · exact .addImplied hkept hnew hold
  · exact .dropImplied hkept hold hnew
  · exact .addIndex hkept hnew hold
  · exact .dropIndex hkept hold hnew
  · exact .addFK hkept hnew htype hold
  · exact .dropFK hkept hold htype hnew

private theorem diffModels_eq (old new : Models) : diffModels old new =
    (new.map.toPairs.filter fun e => e.1 ∉ old.map).map (fun e => .createTable e.1 e.2) ++
    (old.map.toPairs.filter fun e => e.1 ∉ new.map).map (fun e => .dropTable e.1 e.2) ++
    new.map.toPairs.flatMap fun e => (old.map.lookup e.1).elim [] fun oldModel => diffTable e.1 oldModel e.2 := by
  unfold diffModels
  congr 2
  funext e
  cases old.map.lookup e.1 <;> rfl

private theorem mem_diffModels {ch : Change} : ch ∈ diffModels old new ↔ Difference old new ch := by
  simp only [diffModels_eq, List.mem_append, List.mem_map, List.mem_filter, List.mem_flatMap, Prod.exists,
    AList.mem_toPairs, decide_eq_true_eq]
  constructor
  · rintro ((⟨t, m, ⟨hnew, hold⟩, rfl⟩ | ⟨t, m, ⟨hold, hnew⟩, rfl⟩) | ⟨t, mn, hnew, hch⟩)
    · exact .createTable ⟨hnew, hold⟩
    · exact .dropTable ⟨hold, hnew⟩
    · cases hold : old.map.lookup t with
      | none => simp [hold] at hch
      | some mo =>
        rw [hold] at hch
        exact mem_diffTable ⟨hold, hnew⟩ hch
  · intro h
    have hkept : ∀ {t mo mn}, Kept old new t mo mn → ((ch ∈ diffColumns t mo mn ∨ ch ∈ diffImplied t mo mn) ∨
        ch ∈ diffIndexes t mo mn) ∨ ch ∈ diffRelations t mo mn → ∃ t mn, new.map.lookup t = some mn ∧
          ch ∈ (old.map.lookup t).elim [] fun oldModel => diffTable t oldModel mn := by
      intro t mo mn h hch
      refine ⟨t, mn, h.new, ?_⟩
      rw [h.old]
      simpa [diffTable, or_assoc] using hch
    simp only [mem_diffColumns, mem_diffImplied, mem_diffIndexes, mem_diffRelations] at hkept
    cases h with
    | createTable h => exact .inl (.inl ⟨_, _, ⟨h.new, h.old⟩, rfl⟩)
    | dropTable h => exact .inl (.inr ⟨_, _, ⟨h.old, h.new⟩, rfl⟩)
    | addColumn h hnew hold => exact .inr (hkept h (.inl (.inl (.inl (.inl ⟨_, _, hnew, hold, rfl⟩)))))
    | addImplied h hnew hold => exact .inr (hkept h (.inl (.inl (.inr (.inl ⟨_, hnew, hold, rfl⟩)))))
    | dropColumn h hold hnew => exact .inr (hkept h (.inl (.inl (.inl (.inr (.inl ⟨_, _, hold, hnew, rfl⟩))))))
    | dropImplied h hold hnew => exact .inr (hkept h (.inl (.inl (.inr (.inr ⟨_, hold, hnew, rfl⟩)))))
    | alterColumn h hold hnew hchanged =>
      exact .inr (hkept h (.inl (.inl (.inl (.inr (.inr ⟨_, _, _, hold, hnew, hchanged, rfl⟩))))))
    | addIndex h hnew hold => exact .inr (hkept h (.inl (.inr (.inl ⟨_, hnew, hold, rfl⟩))))
    | dropIndex h hold hnew => exact .inr (hkept h (.inl (.inr (.inr ⟨_, hold, hnew, rfl⟩))))
    | addFK h hnew htype hold => exact .inr (hkept h (.inr (.inl ⟨_, _, hnew, htype, hold, rfl⟩)))
    | dropFK h hold htype hnew => exact .inr (hkept h (.inr (.inr ⟨_, _, hold, htype, hnew, rfl⟩)))

/-! ### Changes of one kind -/

def Change.key : Change → String × String
  | .createTable t _ | .dropTable t _ => (t, "")
  | .addColumn t c _ | .dropColumn t c _ | .alterColumn t c _ _ => (t, c)
  | .addIndex t i | .dropIndex t i => (t, i.key)
  | .addFK t r _ | .dropFK t r _ => (t, r)

/-- The models list a column that they also imply. -/
def Models.Doubled (M : Models) (k : String × String) : Prop :=
  ∃ m, M.map.lookup k.1 = some m ∧ k.2 ∈ m.columns ∧ k.2 ∈ (impliedColumns m).map Prod.fst

/-- Two changes of one kind are of different objects, or both add a column that is listed and implied. -/
def Change.Apart (new : Models) (a b : Change) : Prop :=
  a.order = b.order → a.key = b.key → a.order = 1 ∧ new.Doubled a.key

theorem Change.Apart.symm {a b : Change} (h : Change.Apart new a b) : Change.Apart new b a := by
  intro horder hkey
  rw [horder, hkey]
  exact h horder.symm hkey.symm

theorem nodup_filter_toPairs {α : Type} (m : GoMap α) (p : String × α → Bool) :
    ((m.toPairs.filter p).map Prod.fst).Nodup := by
  have h := m.keys_nodup
  rw [AList.keys_eq_map_toPairs] at h
  exact h.sublist (List.filter_sublist.map _)

/-- The changes made from entries with different keys. -/
private theorem pairwise_map_entries {α : Type} {l : List (String × α)} (h : (l.map Prod.fst).Nodup)
    {f : String × α → Change}
    (hkey : ∀ e ∈ l, ∀ e' ∈ l, (f e).key = (f e').key → e.1 = e'.1) : (l.map f).Pairwise (Change.Apart new) := by
  rw [List.pairwise_map]
  refine (List.pairwise_map.1 h).imp_of_mem fun {e e'} he he' hne _ hk => ?_
  exact absurd (hkey e he e' he' hk) hne

private theorem apart_of_order {l l' : List Change} {K K' : List Nat} (h : ∀ a ∈ l, a.order ∈ K)
    (h' : ∀ b ∈ l', b.order ∈ K')
    (hK : ∀ k ∈ K, k ∉ K') : ∀ a ∈ l, ∀ b ∈ l', Change.Apart new a b := by
  intro a ha b hb horder
  exact absurd (horder ▸ h' b hb) (hK _ (h a ha))

private theorem order_diffColumns {a : Change} (h : a ∈ diffColumns t mo mn) : a.order ∈ [1, 7, 2] := by
  rcases mem_diffColumns.1 h with ⟨c, col, -, -, rfl⟩ | ⟨c, col, -, -, rfl⟩ | ⟨c, o, n, -, -, -, rfl⟩ <;>
    simp [Change.order]

private theorem order_diffImplied {a : Change} (h : a ∈ diffImplied t mo mn) : a.order ∈ [1, 7] := by
  rcases mem_diffImplied.1 h with ⟨e, -, -, rfl⟩ | ⟨e, -, -, rfl⟩ <;> simp [Change.order]

private theorem order_diffIndexes {a : Change} (h : a ∈ diffIndexes t mo mn) : a.order ∈ [3, 6] := by
  rcases mem_diffIndexes.1 h with ⟨i, -, -, rfl⟩ | ⟨i, -, -, rfl⟩ <;> simp [Change.order]

private theorem order_diffRelations {a : Change} (h : a ∈ diffRelations t mo mn) : a.order ∈ [4, 5] := by
  rcases mem_diffRelations.1 h with ⟨r, rel, -, -, -, rfl⟩ | ⟨r, rel, -, -, -, rfl⟩ <;> simp [Change.order]

private theorem pairwise_alterColumns (t : String) (mo mn : ModelDef) :
    (alterColumns t mo mn).Pairwise (Change.Apart new) := by
  have hkeys : mn.columns.toPairs.Pairwise fun a b => a.1 ≠ b.1 := by
    have h := mn.columns.keys_nodup
    rw [AList.keys_eq_map_toPairs] at h
    exact List.pairwise_map.1 h
  unfold alterColumns
  rw [List.pairwise_filterMap]
  refine hkeys.imp fun {e e'} hne a ha b hb _ hk => ?_
  obtain ⟨o, -, ho⟩ := Option.bind_eq_some_iff.1 ha
  obtain ⟨o', -, ho'⟩ := Option.bind_eq_some_iff.1 hb
  split_ifs at ho ho'
  rw [← Option.some.inj ho, ← Option.some.inj ho'] at hk
  exact absurd (Prod.mk.inj hk).2 hne

private theorem pairwise_diffColumns (t : String) (mo mn : ModelDef) :
    (diffColumns t mo mn).Pairwise (Change.Apart new) := by
  have halter : ∀ a ∈ alterColumns t mo mn, a.order ∈ [2] := by
    intro a ha
    obtain ⟨c, o, n, -, -, -, rfl⟩ := mem_alterColumns.1 ha
    simp [Change.order]
  unfold diffColumns
  rw [List.pairwise_append, List.pairwise_append]
  refine ⟨⟨?_, ?_, ?_⟩, pairwise_alterColumns t mo mn, apart_of_order (K := [1, 7]) ?_ halter (by decide)⟩
  · exact pairwise_map_entries (nodup_filter_toPairs _ _) fun e _ e' _ hk => (Prod.mk.inj hk).2
  · exact pairwise_map_entries (nodup_filter_toPairs _ _) fun e _ e' _ hk => (Prod.mk.inj hk).2
  · simp only [List.forall_mem_map]
    intro e _ e' _ horder
    simp [Change.order] at horder
  · simp only [List.forall_mem_append, List.forall_mem_map]
    exact ⟨fun _ _ => List.mem_cons_self, fun _ _ => List.mem_cons_of_mem _ List.mem_cons_self⟩

private theorem pairwise_diffImplied (t : String) (mo mn : ModelDef) :
    (diffImplied t mo mn).Pairwise (Change.Apart new) := by
  unfold diffImplied
  cases mn.timestamps <;> cases mo.timestamps <;> cases mn.softDelete <;> cases mo.softDelete <;>
    simp [Change.Apart, Change.order, Change.key]

private theorem pairwise_diffIndexes (t : String) (mo mn : ModelDef) :
    (diffIndexes t mo mn).Pairwise (Change.Apart new) := by
  have hkey : ∀ {m : ModelDef} {p} {f : String × IndexDef → Change}, (∀ e, (f e).key = (t, e.2.key)) →
      (((indexSet m.indexes).toPairs.filter p).map f).Pairwise (Change.Apart new) := by
    intro m p f hf
    refine pairwise_map_entries (nodup_filter_toPairs _ _) fun e he e' he' hk => ?_
    rw [hf, hf] at hk
    have hi := lookup_indexSet (AList.mem_toPairs.1 (List.mem_of_mem_filter he))
    have hi' := lookup_indexSet (AList.mem_toPairs.1 (List.mem_of_mem_filter he'))
    rw [← hi.2, ← hi'.2]
    exact (Prod.mk.inj hk).2
  unfold diffIndexes
  rw [List.pairwise_append]
  refine ⟨hkey fun _ => rfl, hkey fun _ => rfl, ?_⟩
  simp only [List.forall_mem_map]
  intro e _ e' _ horder
  simp [Change.order] at horder

private theorem pairwise_diffRelations (t : String) (mo mn : ModelDef) :
    (diffRelations t mo mn).Pairwise (Change.Apart new) := by
  unfold diffRelations
  rw [List.pairwise_append]
  refine ⟨?_, ?_, ?_⟩
  · exact pairwise_map_entries (nodup_filter_toPairs _ _) fun e _ e' _ hk => (Prod.mk.inj hk).2
  · exact pairwise_map_entries (nodup_filter_toPairs _ _) fun e _ e' _ hk => (Prod.mk.inj hk).2
  · simp only [List.forall_mem_map]
    intro e _ e' _ horder
    simp [Change.order] at horder

private theorem apart_diffImplied (hkept : Kept old new t mo mn) (hold : ∀ e ∈ impliedColumns mo, e.1 ∉ mo.columns) :
    ∀ a ∈ diffColumns t mo mn, ∀ b ∈ diffImplied t mo mn, Change.Apart new a b := by
  intro a ha b hb horder hkey
  rcases mem_diffImplied.1 hb with ⟨e, he, -, rfl⟩ | ⟨e, he, -, rfl⟩
  · rcases mem_diffColumns.1 ha with ⟨c, col, hcol, -, rfl⟩ | ⟨c, col, -, -, rfl⟩ | ⟨c, o, n, -, -, -, rfl⟩
    · obtain rfl : c = e.1 := (Prod.mk.inj hkey).2
      exact ⟨rfl, mn, hkept.new, AList.mem_of_lookup hcol, List.mem_map_of_mem he⟩
    · simp [Change.order] at horder
    · simp [Change.order] at horder
  · rcases mem_diffColumns.1 ha with ⟨c, col, -, -, rfl⟩ | ⟨c, col, hcol, -, rfl⟩ | ⟨c, o, n, -, -, -, rfl⟩
    · simp [Change.order] at horder
    · obtain rfl : c = e.1 := (Prod.mk.inj hkey).2
      exact absurd (AList.mem_of_lookup hcol) (hold e he)
    · simp [Change.order] at horder

private theorem pairwise_diffTable (hkept : Kept old new t mo mn) (hold : ∀ e ∈ impliedColumns mo, e.1 ∉ mo.columns) :
    (diffTable t mo mn).Pairwise (Change.Apart new) := by
  have hcolumns : ∀ a ∈ diffColumns t mo mn ++ diffImplied t mo mn, a.order ∈ [1, 7, 2] := by
    rw [List.forall_mem_append]
    refine ⟨fun a => order_diffColumns, fun a ha => ?_⟩
    exact List.mem_append_left [2] (order_diffImplied ha)
  have hindexes : ∀ a ∈ diffColumns t mo mn ++ diffImplied t mo mn ++ diffIndexes t mo mn,
      a.order ∈ [1, 7, 2] ++ [3, 6] := by
    rw [List.forall_mem_append]
    exact ⟨fun a ha => List.mem_append_left _ (hcolumns a ha),
      fun a ha => List.mem_append_right _ (order_diffIndexes ha)⟩
  unfold diffTable
  rw [List.pairwise_append, List.pairwise_append, List.pairwise_append]
  exact ⟨⟨⟨pairwise_diffColumns t mo mn, pairwise_diffImplied t mo mn, apart_diffImplied hkept hold⟩,
    pairwise_diffIndexes t mo mn, apart_of_order hcolumns (fun a => order_diffIndexes) (by decide)⟩,
    pairwise_diffRelations t mo mn, apart_of_order hindexes (fun a => order_diffRelations) (by decide)⟩

private theorem key_diffTable {a : Change} (h : a ∈ diffTable t mo mn) : a.key.1 = t ∧ a.order ≠ 0 ∧ a.order ≠ 8 := by
  simp only [diffTable, List.mem_append, mem_diffColumns, mem_diffImplied, mem_diffIndexes, mem_diffRelations] at h
  obtain (((⟨c, col, -, -, rfl⟩ | ⟨c, col, -, -, rfl⟩ | ⟨c, o, n, -, -, -, rfl⟩) | ⟨e, -, -, rfl⟩ | ⟨e, -, -, rfl⟩) |
    ⟨i, -, -, rfl⟩ | ⟨i, -, -, rfl⟩) | ⟨r, rel, -, -, -, rfl⟩ | ⟨r, rel, -, -, -, rfl⟩ := h <;>
    simp [Change.key, Change.order]

/-- Two changes of one kind are of different objects. -/
theorem diffModels_apart (hold : ∀ m ∈ old.models, ∀ e ∈ impliedColumns m, e.1 ∉ m.columns) :
    (diffModels old new).Pairwise (Change.Apart new) := by
  have hkeys : new.map.toPairs.Pairwise fun a b => a.1 ≠ b.1 := by
    have h := new.map.keys_nodup
    rw [AList.keys_eq_map_toPairs] at h
    exact List.pairwise_map.1 h
  have hmem : ∀ {e : String × ModelDef} {a : Change},
      a ∈ ((old.map.lookup e.1).elim [] fun oldModel => diffTable e.1 oldModel e.2) →
        a.key.1 = e.1 ∧ a.order ≠ 0 ∧ a.order ≠ 8 := by
    intro e a ha
    cases ho : old.map.lookup e.1 with
    | none => simp [ho] at ha
    | some mo =>
      rw [ho] at ha
      exact key_diffTable ha
  rw [diffModels_eq, List.pairwise_append, List.pairwise_append, List.pairwise_flatMap]
  refine ⟨⟨?_, ?_, ?_⟩, ⟨?_, ?_⟩, ?_⟩
  · exact pairwise_map_entries (nodup_filter_toPairs _ _) fun e _ e' _ hk => (Prod.mk.inj hk).1
  · exact pairwise_map_entries (nodup_filter_toPairs _ _) fun e _ e' _ hk => (Prod.mk.inj hk).1
  · simp only [List.forall_mem_map]
    intro e _ e' _ horder
    simp [Change.order] at horder
  · intro e he
    cases ho : old.map.lookup e.1 with
    | none => exact .nil
    | some mo =>
      exact pairwise_diffTable ⟨ho, AList.mem_toPairs.1 he⟩ (hold mo (old.mem_models_of_lookup ho))
  · refine hkeys.imp fun {e e'} hne a ha b hb _ hk => ?_
    exact absurd ((hmem ha).1.symm.trans ((congrArg Prod.fst hk).trans (hmem hb).1)) hne
  · intro a ha b hb horder
    obtain ⟨e, -, hb⟩ := List.mem_flatMap.1 hb
    obtain ⟨-, h0, h8⟩ := hmem hb
    simp only [List.mem_append, List.mem_map] at ha
    rcases ha with ⟨e', -, rfl⟩ | ⟨e', -, rfl⟩
    · exact absurd horder.symm h0
    · exact absurd horder.symm h8

/-! ### The order of the changes -/

/-- The created tables, as `changesToSQL` finds them. -/
def creates (changes : List Change) : List (String × ModelDef) := (sortBy Change.order changes).filterMap Change.created

/-- The changes of a kind, as `changesToSQL` finds them. -/
def group (k : Nat) (changes : List Change) : List Change := (sortBy Change.order changes).filter (·.order = k)

/-- The changes that add or alter something, as `changesToSQL` orders them. -/
def additions (changes : List Change) : List Change :=
  (topoSortCreates (creates changes)).map (fun e => .createTable e.1 e.2) ++
    (group 1 changes ++ group 2 changes ++ group 3 changes ++ group 4 changes)

/-- The changes that remove something, as `changesToSQL` orders them. -/
def removals (changes : List Change) : List Change :=
  group 5 changes ++ group 6 changes ++ group 7 changes ++ group 8 changes

section Ordered

variable {changes : List Change} {ch : Change} {k : Nat}

theorem mem_creates {e : String × ModelDef} : e ∈ creates changes ↔ .createTable e.1 e.2 ∈ changes := by
  simp only [creates, List.mem_filterMap, mem_sortBy]
  constructor
  · rintro ⟨ch, hch, he⟩
    cases ch with
    | createTable t m =>
      obtain rfl : (t, m) = e := Option.some.inj he
      exact hch
    | _ => cases he
  · intro h
    exact ⟨_, h, rfl⟩

theorem mem_group : ch ∈ group k changes ↔ ch ∈ changes ∧ ch.order = k := by
  simp [group]

/-- The changes are arranged by their kinds. -/
theorem ordered_eq (changes : List Change) : ordered changes = additions changes ++ removals changes := by
  have hsorted := sortBy_pairwise Change.order changes
  have hall : (sortBy Change.order changes).filter (·.order ≤ 8) = sortBy Change.order changes := by
    refine List.filter_eq_self.2 fun ch _ => ?_
    cases ch <;> simp [Change.order]
  rw [filter_le_succ hsorted 7, filter_le_succ hsorted 6, filter_le_succ hsorted 5, filter_le_succ hsorted 4,
    filter_le_succ hsorted 3, filter_le_succ hsorted 2, filter_le_succ hsorted 1, filter_le_succ hsorted 0] at hall
  have hcreated : (sortBy Change.order changes).filter (·.created = none) =
      (sortBy Change.order changes).filter (0 < ·.order) := by
    refine List.filter_congr fun ch _ => ?_
    cases ch <;> simp [Change.order, Change.created]
  have hrest := hall.trans (filter_append_filter_lt hsorted 0).symm
  simp only [List.append_assoc, List.append_cancel_left_eq] at hrest
  simp only [ordered, additions, removals, hcreated, ← hrest, List.append_assoc]
  rfl

section Perm

variable (hperm : changes.Perm (diffModels old new)) (hold : ∀ m ∈ old.models, ∀ e ∈ impliedColumns m, e.1 ∉ m.columns)

include hperm

theorem mem_changes : ch ∈ changes ↔ Difference old new ch := by
  rw [hperm.mem_iff, mem_diffModels]

include hold

theorem sorted_apart : (sortBy Change.order changes).Pairwise (Change.Apart new) :=
  (List.Perm.pairwise_iff Change.Apart.symm ((sortBy_perm _ _).trans hperm)).2 (diffModels_apart hold)

/-- The changes of a kind are of different objects. -/
theorem nodup_group (hk : k = 1 → ∀ m ∈ new.models, ∀ e ∈ impliedColumns m, e.1 ∉ m.columns) :
    ((group k changes).map Change.key).Nodup := by
  rw [List.Nodup, List.pairwise_map]
  refine ((sorted_apart hperm hold).filter _).imp_of_mem fun {a b} ha hb hapart hkey => ?_
  have hka := (mem_group.1 ha).2
  obtain ⟨h1, m, hm, hlisted, himplied⟩ := hapart (hka.trans (mem_group.1 hb).2.symm) hkey
  obtain ⟨e, he, heq⟩ := List.mem_map.1 himplied
  exact hk (hka.symm.trans h1) m (new.mem_models_of_lookup hm) e he (heq ▸ hlisted)

/-- Two removals of one kind are of different objects. -/
theorem removals_apart : (removals changes).Pairwise (Change.Apart new) := by
  have hgroup : ∀ k, (group k changes).Pairwise (Change.Apart new) := fun k => (sorted_apart hperm hold).filter _
  simp only [removals, List.pairwise_append, hgroup, true_and, List.mem_append, mem_group]
  refine ⟨⟨?_, ?_⟩, ?_⟩
  all_goals
    intro a ha b hb horder
    omega

theorem nodup_creates : ((creates changes).map Prod.fst).Nodup := by
  rw [List.Nodup, List.pairwise_map, creates, List.pairwise_filterMap]
  refine (sorted_apart hperm hold).imp fun {a b} hapart e he e' he' hfst => ?_
  cases a with
  | createTable t m =>
    cases b with
    | createTable t' m' =>
      obtain rfl := Option.some.inj he
      obtain rfl := Option.some.inj he'
      obtain ⟨h1, -⟩ := hapart rfl (by rw [Change.key, Change.key, show t = t' from hfst])
      cases h1
    | _ => cases he'
  | _ => cases he

end Perm

theorem mem_removals : ch ∈ removals changes ↔ ch ∈ changes ∧ 4 < ch.order := by
  have hle : ch.order ≤ 8 := by cases ch <;> simp [Change.order]
  simp only [removals, List.mem_append, mem_group, ← and_or_left]
  refine and_congr_right fun _ => ?_
  omega

private theorem removals_pairwise (changes : List Change) :
    (removals changes).Pairwise fun a b => a.order ≤ b.order := by
  have hgroup : ∀ k, (group k changes).Pairwise fun a b => a.order ≤ b.order :=
    fun k => (sortBy_pairwise Change.order changes).filter _
  simp only [removals, List.pairwise_append, hgroup, true_and, List.mem_append, mem_group]
  refine ⟨⟨?_, ?_⟩, ?_⟩
  all_goals
    intro a ha b hb
    omega

theorem mem_before_of_order {before after : List Change} {e e' : Change} (h : removals changes = before ++ e :: after)
    (he' : e' ∈ removals changes) (horder : e'.order < e.order) : e' ∈ before := by
  have hpairwise := removals_pairwise changes
  rw [h, List.pairwise_append, List.pairwise_cons] at hpairwise
  rw [h, List.mem_append, List.mem_cons] at he'
  rcases he' with he' | rfl | he'
  · exact he'
  · omega
  · have hle := hpairwise.2.1.1 e' he'
    omega

theorem order_le_of_mem_before {before after : List Change} {e e' : Change}
    (h : removals changes = before ++ e :: after)
    (he' : e' ∈ before) : e'.order ≤ e.order := by
  have hpairwise := removals_pairwise changes
  rw [h, List.pairwise_append] at hpairwise
  exact hpairwise.2.2 e' he' e List.mem_cons_self

def Change.indexName : Change → String
  | .addIndex t i | .dropIndex t i => Generate.indexName t i.columns
  | _ => ""

/-- The table and the name of a foreign key that is changed. -/
def Change.fkKey : Change → String × String
  | .addFK t r _ | .dropFK t r _ => (t, fkName t r)
  | _ => ("", "")

/-- Different indexes of a set have different names. -/
theorem nodup_indexNames {M : Models} {L : List Change} (hM : M.WellFormed) (hnodup : (L.map Change.key).Nodup)
    (hL : ∀ e ∈ L, ∃ t i m, (e = .addIndex t i ∨ e = .dropIndex t i) ∧ M.map.lookup t = some m ∧ i ∈ m.indexes) :
    (L.map Change.indexName).Nodup := by
  rw [List.Nodup, List.pairwise_map] at hnodup ⊢
  have hindex : ∀ e ∈ L, ∃ (t : String) (i : IndexDef), e.key = (t, i.key) ∧ (e.indexName, i.index t) ∈ M.indexes := by
    intro e he
    obtain ⟨t, i, m, hch, hm, hi⟩ := hL e he
    refine ⟨t, i, ?_, M.mem_indexes.2 ⟨m, M.mem_models_of_lookup hm, i, hi, ?_, ?_⟩⟩
    · rcases hch with rfl | rfl
      · rfl
      · rfl
    · rw [M.table_eq t m hm]
      rcases hch with rfl | rfl
      · rfl
      · rfl
    · rw [M.table_eq t m hm]
  refine hnodup.imp_of_mem fun {a b} ha hb hne hname => hne ?_
  obtain ⟨t, i, hkey, hi⟩ := hindex a ha
  obtain ⟨t', i', hkey', hi'⟩ := hindex b hb
  have hsame := (Prod.mk.inj (hM.index_names _ hi _ hi' hname)).2
  simp only [IndexDef.index, Index.mk.injEq] at hsame
  obtain ⟨rfl, hcolumns, hunique⟩ := hsame
  rw [hkey, hkey', IndexDef.key, IndexDef.key, hcolumns, hunique]

/-- Different foreign keys have different names. -/
theorem nodup_fkKeys {L : List Change} (hnodup : (L.map Change.key).Nodup)
    (hL : ∀ e ∈ L, ∃ t r rel, e = .addFK t r rel ∨ e = .dropFK t r rel) : (L.map Change.fkKey).Nodup := by
  rw [List.Nodup, List.pairwise_map] at hnodup ⊢
  have hfk : ∀ e ∈ L, ∃ t r, e.key = (t, r) ∧ e.fkKey = (t, fkName t r) := by
    intro e he
    obtain ⟨t, r, rel, rfl | rfl⟩ := hL e he
    · exact ⟨t, r, rfl, rfl⟩
    · exact ⟨t, r, rfl, rfl⟩
  refine hnodup.imp_of_mem fun {a b} ha hb hne hname => hne ?_
  obtain ⟨t, r, hkey, hfka⟩ := hfk a ha
  obtain ⟨t', r', hkey', hfkb⟩ := hfk b hb
  rw [hfka, hfkb, Prod.mk.injEq] at hname
  obtain ⟨rfl, hname⟩ := hname
  rw [hkey, hkey', fkName_inj hname]

end Ordered

/-! ### The order of the created tables -/

section Creates

variable {l l' : List (String × ModelDef)}

private theorem deps_subset (l : List (String × ModelDef)) (t : String) : ∀ d ∈ deps l t, d ∈ l.map Prod.fst := by
  intro d hd
  simpa using (List.mem_filter.1 hd).2

theorem deps_congr (hnodup : (l.map Prod.fst).Nodup) (hperm : l.Perm l') : deps l = deps l' := by
  funext t
  simp only [deps, Assoc.lookup_congr hnodup hperm t, (hperm.map Prod.fst).mem_iff]

theorem mem_deps (hnodup : (l.map Prod.fst).Nodup) {d : String} : d ∈ deps l t ↔ d ∈ l.map Prod.fst ∧
    ∃ m r rel, (t, m) ∈ l ∧ m.relations.lookup r = some rel ∧ rel.type = "belongsTo" ∧ rel.table = d := by
  rw [deps, List.mem_filter, decide_eq_true_eq, and_comm]
  refine and_congr_right fun _ => ?_
  cases hm : l.lookup t with
  | none =>
    rw [Assoc.lookup_eq_none] at hm
    constructor
    · intro hd
      cases hd
    · rintro ⟨m, r, rel, hmem, -⟩
      exact absurd hmem (hm m)
  | some m =>
    simp only [Option.map_some, Option.getD_some, List.mem_map, List.mem_filter, decide_eq_true_eq, Prod.exists,
      AList.mem_toPairs]
    constructor
    · rintro ⟨r, rel, ⟨hrel, htype⟩, rfl⟩
      exact ⟨m, r, rel, Assoc.mem_of_lookup hm, hrel, htype, rfl⟩
    · rintro ⟨m', r, rel, hmem, hrel, htype, rfl⟩
      obtain rfl := Option.some.inj (hm.symm.trans ((Assoc.lookup_eq_some hnodup).2 hmem))
      exact ⟨r, rel, ⟨hrel, htype⟩, rfl⟩

private theorem mem_sort_deps (hnodup : (l.map Prod.fst).Nodup) (t : String) :
    t ∈ TopoSort.sort (deps l) (l.map Prod.fst) ↔ t ∈ l.map Prod.fst :=
  (TopoSort.sort_perm hnodup fun t _ => deps_subset l t).mem_iff

private theorem topoSortCreates_map_fst (hnodup : (l.map Prod.fst).Nodup) (hlength : ¬l.length ≤ 1) :
    (topoSortCreates l).map Prod.fst = TopoSort.sort (deps l) (l.map Prod.fst) := by
  have hall : ∀ t ∈ TopoSort.sort (deps l) (l.map Prod.fst), ((l.lookup t).map (t, ·)).map Prod.fst = some t := by
    intro t ht
    obtain ⟨e, he, rfl⟩ := List.mem_map.1 ((mem_sort_deps hnodup t).1 ht)
    rw [(Assoc.lookup_eq_some hnodup).2 he]
    rfl
  rw [topoSortCreates_eq hnodup hlength, List.map_filterMap, List.filterMap_congr hall, List.filterMap_some]

/-- Every table comes out once. -/
theorem topoSortCreates_perm (hnodup : (l.map Prod.fst).Nodup) : (topoSortCreates l).Perm l := by
  by_cases hlength : l.length ≤ 1
  · rw [topoSortCreates_of_length_le hlength]
  · have hsorted : ((topoSortCreates l).map Prod.fst).Nodup := by
      rw [topoSortCreates_map_fst hnodup hlength]
      exact (TopoSort.sort_ordered fun t _ => deps_subset l t).1
    refine (List.perm_ext_iff_of_nodup hsorted.of_map hnodup.of_map).2 ?_
    rintro ⟨t, m⟩
    rw [topoSortCreates_eq hnodup hlength, List.mem_filterMap]
    constructor
    · rintro ⟨t', -, h⟩
      obtain ⟨m', hm', he⟩ := Option.map_eq_some_iff.1 h
      rw [← he]
      exact Assoc.mem_of_lookup hm'
    · intro h
      refine ⟨t, (mem_sort_deps hnodup t).2 (List.mem_map_of_mem h), ?_⟩
      rw [(Assoc.lookup_eq_some hnodup).2 h]
      rfl

/-- A table comes after the tables it refers to, unless they depend on it in turn. -/
theorem topoSortCreates_ordered (hnodup : (l.map Prod.fst).Nodup) {before after : List (String × ModelDef)}
    {e : String × ModelDef} (h : topoSortCreates l = before ++ e :: after) :
    ∀ d ∈ deps l e.1, d ∈ before.map Prod.fst ∨ TopoSort.Depends (deps l) d e.1 := by
  intro d hd
  by_cases hlength : l.length ≤ 1
  · -- a single table refers to itself
    rw [topoSortCreates_of_length_le hlength] at h
    have hsingle : before = [] ∧ after = [] := by
      rw [h] at hlength
      simp only [List.length_append, List.length_cons] at hlength
      exact ⟨List.length_eq_zero_iff.1 (by omega), List.length_eq_zero_iff.1 (by omega)⟩
    have hde : d = e.1 := by
      have hmem := deps_subset l _ d hd
      rw [h, hsingle.1, hsingle.2] at hmem
      simpa using hmem
    subst hde
    exact .inr (.single hd)
  · have hclosed : ∀ t ∈ l.map Prod.fst, ∀ d ∈ deps l t, d ∈ l.map Prod.fst := fun t _ => deps_subset l t
    have hsorted := TopoSort.sort_ordered hclosed
    rw [← topoSortCreates_map_fst hnodup hlength, h, List.map_append, List.map_cons] at hsorted
    exact hsorted.2 _ _ _ rfl d hd

end Creates

theorem mem_additions {changes : List Change} {ch : Change} (hperm : changes.Perm (diffModels old new))
    (hold : ∀ m ∈ old.models, ∀ e ∈ impliedColumns m, e.1 ∉ m.columns) :
    ch ∈ additions changes ↔ ch ∈ changes ∧ ch.order ≤ 4 := by
  have hcreates : ch ∈ (topoSortCreates (creates changes)).map (fun e => Change.createTable e.1 e.2) ↔
      ch ∈ changes ∧ ch.order = 0 := by
    simp only [List.mem_map, (topoSortCreates_perm (nodup_creates hperm hold)).mem_iff, mem_creates]
    constructor
    · rintro ⟨e, he, rfl⟩
      exact ⟨he, rfl⟩
    · rintro ⟨hch, horder⟩
      cases ch with
      | createTable t m => exact ⟨(t, m), hch, rfl⟩
      | _ => cases horder
  simp only [additions, List.mem_append, hcreates, mem_group, ← and_or_left]
  refine and_congr_right fun _ => ?_
  omega

/-! ### The same tables -/

section SameTables

variable (h : old.map.keys = new.map.keys)

include h

theorem not_created_of_keys : ¬Created old new t m := by
  intro hc
  refine hc.old (AList.mem_keys.2 ?_)
  rw [h]
  exact AList.mem_keys.1 (AList.mem_of_lookup hc.new)

theorem not_dropped_of_keys : ¬Dropped old new t m := by
  intro hd
  refine hd.new (AList.mem_keys.2 ?_)
  rw [← h]
  exact AList.mem_keys.1 (AList.mem_of_lookup hd.old)

end SameTables

end Noda.Generate
